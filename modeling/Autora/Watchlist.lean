import Mathlib.Data.List.Sort
import Autora.Lib.Firsts
import Autora.Lib.Untyped

/-! A reader's own watchlist: the stocks they keep an eye on, in the order they put them. -/

namespace Autora

namespace Watchlist

open Firsts Untyped

def MAX_ITEMS : Nat := 50

/-- The largest number of the column `position`. -/
def MAX_POSITION : Nat := 2 ^ 31 - 1

inductive Market where
  | tw
  | us
  | market
  deriving DecidableEq, Repr

structure Stock where
  market : Market
  symbol : Str
  deriving DecidableEq, Repr

structure WatchlistItem where
  id : Nat
  stock : Stock
  position : Nat
  createdAt : Nat
  deriving DecidableEq, Repr

/-- What the database and `uuid7` give a new row. -/
structure Made where
  id : Nat
  createdAt : Nat

inductive WatchlistError where
  | watchlistFull
  | outOfRange
  deriving DecidableEq, Repr

/-- The rows of one reader, in whatever order they lie, and when their list was started. -/
structure Reader where
  rows : List WatchlistItem
  watchlistStartedAt : Option Nat
  deriving DecidableEq, Repr

/-- `order_by(position, created_at, id)`. -/
def before (a b : WatchlistItem) : Prop :=
  a.position < b.position ∨ a.position = b.position ∧
    (a.createdAt < b.createdAt ∨ a.createdAt = b.createdAt ∧ a.id ≤ b.id)

instance : DecidableRel before := fun _ _ => inferInstanceAs (Decidable (_ ∨ _))

def inOrder (rows : List WatchlistItem) : List WatchlistItem := rows.insertionSort before

def items (r : Reader) : List Stock := (inOrder r.rows).map (·.stock)

def nextPosition (rows : List WatchlistItem) : Nat := ((rows.map (·.position)).max?).getD 0 + 1

/-- The insert that does nothing when the reader has the stock already. -/
def insert (stock : Stock) (position : Nat) (made : Made) (rows : List WatchlistItem) :
    Except WatchlistError (List WatchlistItem) :=
  if MAX_POSITION < position then .error .outOfRange
  else if stock ∈ rows.map (·.stock) then .ok rows
  else .ok (rows ++ [⟨made.id, stock, position, made.createdAt⟩])

def add (stock : Stock) (made : Made) (r : Reader) : Except WatchlistError Reader :=
  if r.rows.length ≥ MAX_ITEMS then .error .watchlistFull
  else match insert stock (nextPosition r.rows) made r.rows with
    | .error e => .error e
    | .ok rows => .ok { r with rows }

/-- The loop of `start`: a place is used up whether its stock is new or not. -/
def fill (made : Nat → Made) :
    List Stock → Nat → List WatchlistItem → Except WatchlistError (List WatchlistItem)
  | [], _, rows => .ok rows
  | stock :: rest, position, rows => match insert stock position (made position) rows with
    | .error e => .error e
    | .ok rows' => fill made rest (position + 1) rows'

def start (defaults : List Stock) (now : Nat) (made : Nat → Made) (r : Reader) :
    Except WatchlistError (Bool × Reader) :=
  if r.watchlistStartedAt.isSome then .ok (false, r)
  else match fill made (defaults.take MAX_ITEMS) (nextPosition r.rows) r.rows with
    | .error e => .error e
    | .ok rows => .ok (true, ⟨rows, some now⟩)

def remove (stock : Stock) (r : Reader) : Reader :=
  { r with rows := r.rows.filter fun row => row.stock ≠ stock }

/-- The row of a stock; no two rows have the same stock. -/
def byKey (rows : List WatchlistItem) (stock : Stock) : Option WatchlistItem :=
  rows.find? fun row => row.stock = stock

def reorder (order : List Stock) (r : Reader) : Reader :=
  let rows := inOrder r.rows
  -- `dict.fromkeys` keeps the first of each
  let named := (fresh [] order).filterMap (byKey rows)
  let rest := rows.filter fun row => row ∉ named
  { r with rows := ((named ++ rest).zipIdx 1).map fun (row, place) => { row with position := place } }

/-! One reader's calls, one after another. -/

inductive Op where
  | add (stock : Stock) (made : Made)
  | start (defaults : List Stock) (now : Nat) (made : Nat → Made)
  | remove (stock : Stock)
  | reorder (order : List Stock)

inductive Answer where
  | done
  | filled (now : Bool)
  deriving DecidableEq, Repr

/-- A call that raises is rolled back. -/
def step (r : Reader) : Op → Except WatchlistError Answer × Reader
  | .add stock made => match add stock made r with
    | .error e => (.error e, r)
    | .ok r' => (.ok .done, r')
  | .start defaults now made => match start defaults now made r with
    | .error e => (.error e, r)
    | .ok (filled, r') => (.ok (.filled filled), r')
  | .remove stock => (.ok .done, remove stock r)
  | .reorder order => (.ok .done, reorder order r)

/-- A reader who has not looked at their list yet. -/
def newReader : Reader := ⟨[], none⟩

def answers (r : Reader) : List Op → List (Except WatchlistError Answer)
  | [] => []
  | op :: ops => (step r op).1 :: answers (step r op).2 ops

/-- A property of every call of a run, and of the state it finds. -/
def Throughout (P : Reader → Op → Prop) (r : Reader) : List Op → Prop
  | [] => True
  | op :: ops => P r op ∧ Throughout P (step r op).2 ops

/-- What a call promises. -/
def Law (r : Reader) (op : Op) : Prop :=
  (items (step r op).2).Nodup ∧ (items (step r op).2).length ≤ MAX_ITEMS ∧
  match op with
  | .add stock _ =>
    if stock ∈ items r then step r op = (.ok .done, r)
    else ((step r op).1 = .ok .done ∧ items (step r op).2 = items r ++ [stock]) ∨
      ((∃ e, (step r op).1 = .error e) ∧ (step r op).2 = r ∧
        ((items r).length = MAX_ITEMS ∨ MAX_POSITION < nextPosition r.rows))
  | .start defaults _ _ =>
    step r op = (.ok (.filled false), r) ∧ r.watchlistStartedAt.isSome ∨
    step r op = (.error .outOfRange, r) ∧ r.watchlistStartedAt = none ∨
    r.watchlistStartedAt = none ∧ (step r op).1 = .ok (.filled true) ∧
      items (step r op).2 = items r ++ fresh (items r) (defaults.take MAX_ITEMS)
  | .remove stock =>
    (step r op).1 = .ok .done ∧ items (step r op).2 = (items r).filter (· ≠ stock)
  | .reorder order =>
    (step r op).1 = .ok .done ∧ items (step r op).2 =
      (fresh [] order).filter (· ∈ items r) ++ (items r).filter (· ∉ order)

/-- The calls that are not mishandled: a stock on the list is not added to a full list, and the
first start leaves room for the defaults that are missing. -/
def Meets (r : Reader) : Op → Prop
  | .add stock _ =>
    stock ∈ items r → (items r).length < MAX_ITEMS ∧ nextPosition r.rows ≤ MAX_POSITION
  | .start defaults _ _ =>
    r.watchlistStartedAt = none →
      nextPosition r.rows + (defaults.take MAX_ITEMS).length ≤ MAX_POSITION + 1 →
      (items r).length + (fresh (items r) (defaults.take MAX_ITEMS)).length ≤ MAX_ITEMS
  | .remove _ => True
  | .reorder _ => True

/-! The rows of a reader have different stocks and different places, whatever was called. -/

/-- The order of the rows here is the order of the list. -/
structure Kept (rows : List WatchlistItem) : Prop where
  sorted : rows.Pairwise fun a b => a.position < b.position
  nodup : (rows.map (·.stock)).Nodup

variable {rows : List WatchlistItem} {r : Reader} {stock : Stock} {op : Op}

theorem kept_nil : Kept [] := ⟨List.Pairwise.nil, List.nodup_nil⟩

theorem Kept.inOrder_eq (h : Kept rows) : inOrder rows = rows :=
  List.Pairwise.insertionSort_eq (h.sorted.imp Or.inl)

theorem Kept.items_eq (h : Kept r.rows) : items r = r.rows.map (·.stock) := by
  rw [items, h.inOrder_eq]

theorem Kept.length_items (h : Kept r.rows) : (items r).length = r.rows.length := by
  rw [h.items_eq, List.length_map]

theorem lt_nextPosition {row : WatchlistItem} (h : row ∈ rows) :
    row.position < nextPosition rows := by
  have hmem : row.position ∈ rows.map (·.position) := List.mem_map.mpr ⟨row, h, rfl⟩
  unfold nextPosition
  cases hmax : (rows.map (·.position)).max? with
  | none =>
    rw [List.max?_eq_none_iff.mp hmax] at hmem
    cases hmem
  | some n =>
    have hle := (List.max?_eq_some_iff.mp hmax).2 _ hmem
    simp
    omega

/-- A row with a new stock goes behind all the others. -/
theorem Kept.append (h : Kept rows) {row : WatchlistItem}
    (hplace : ∀ x ∈ rows, x.position < row.position) (hnew : row.stock ∉ rows.map (·.stock)) :
    Kept (rows ++ [row]) := by
  constructor
  · rw [List.pairwise_append]
    refine ⟨h.sorted, List.pairwise_singleton _ _, fun x hx y hy => ?_⟩
    rw [List.mem_singleton.mp hy]
    exact hplace x hx
  · rw [List.map_append, List.nodup_append]
    refine ⟨h.nodup, List.nodup_singleton _, fun x hx y hy hxy => ?_⟩
    rw [List.map_singleton, List.mem_singleton] at hy
    exact hnew (hy ▸ hxy ▸ hx)

theorem insert_out {position : Nat} {made : Made} (h : MAX_POSITION < position) :
    insert stock position made rows = .error .outOfRange := if_pos h

theorem insert_listed {position : Nat} {made : Made} (h : position ≤ MAX_POSITION)
    (hin : stock ∈ rows.map (·.stock)) : insert stock position made rows = .ok rows := by
  rw [insert, if_neg (by omega), if_pos hin]

theorem insert_new {position : Nat} {made : Made} (h : position ≤ MAX_POSITION)
    (hnew : stock ∉ rows.map (·.stock)) : insert stock position made rows =
      .ok (rows ++ [⟨made.id, stock, position, made.createdAt⟩]) := by
  rw [insert, if_neg (by omega), if_neg hnew]

/-- The defaults that are missing come last, unless their places run out. -/
theorem fill_spec {made : Nat → Made} {defaults : List Stock} :
    ∀ {position : Nat} {rows : List WatchlistItem}, Kept rows →
      (∀ x ∈ rows, x.position < position) →
      (∃ rows', fill made defaults position rows = .ok rows' ∧ Kept rows' ∧
        rows'.map (·.stock) =
          rows.map (·.stock) ++ fresh (rows.map (·.stock)) defaults ∧
        (position + defaults.length ≤ MAX_POSITION + 1 ∨ defaults = [])) ∨
      (fill made defaults position rows = .error .outOfRange ∧
        MAX_POSITION + 1 < position + defaults.length) := by
  induction defaults with
  | nil =>
    intro position rows h _
    exact Or.inl ⟨rows, rfl, h, (List.append_nil _).symm, Or.inr rfl⟩
  | cons stock rest ih =>
    intro position rows h hplace
    rw [fill, List.length_cons]
    by_cases hout : MAX_POSITION < position
    · rw [insert_out hout]
      exact Or.inr ⟨rfl, by omega⟩
    · by_cases hin : stock ∈ rows.map (·.stock)
      · rw [insert_listed (by omega) hin, fresh_seen hin]
        rcases @ih (position + 1) rows h (fun x hx => by have := hplace x hx; omega) with
          ⟨rows', hrun, hkept, hstocks, hfit⟩ | ⟨hrun, hfit⟩
        · refine Or.inl ⟨rows', hrun, hkept, hstocks, Or.inl ?_⟩
          rcases hfit with hfit | rfl
          · omega
          · simp
            omega
        · exact Or.inr ⟨hrun, by omega⟩
      · have hkept : Kept (rows ++ [⟨(made position).id, stock, position,
            (made position).createdAt⟩]) := h.append hplace hin
        rw [insert_new (by omega) hin, fresh_new hin]
        have hplace' : ∀ x ∈ rows ++ [(⟨(made position).id, stock, position,
            (made position).createdAt⟩ : WatchlistItem)], x.position < position + 1 := by
          intro x hx
          rcases List.mem_append.mp hx with hx | hx
          · have hlt := hplace x hx
            omega
          · rw [List.mem_singleton.mp hx]
            exact Nat.lt_succ_self position
        rcases ih hkept hplace' with ⟨rows', hrun, hkept', hstocks, hfit⟩ | ⟨hrun, hfit⟩
        · refine Or.inl ⟨rows', hrun, hkept', ?_, Or.inl ?_⟩
          · rw [hstocks, List.map_append, List.map_singleton, List.append_assoc,
              List.singleton_append]
            congr 2
            apply fresh_congr
            intro a
            simp [or_comm]
          · rcases hfit with hfit | rfl
            · omega
            · simp
              omega
        · exact Or.inr ⟨hrun, by omega⟩

/-! Numbering a list of rows. -/

theorem number_stock {k : Nat} : ((rows.zipIdx k).map fun (row, place) =>
    { row with position := place }).map (·.stock) = rows.map (·.stock) := by
  induction rows generalizing k with
  | nil => rfl
  | cons row rows ih => simp [List.zipIdx_cons, ih]

theorem number_ge {k : Nat} {x : WatchlistItem} (h : x ∈ (rows.zipIdx k).map fun (row, place) =>
    { row with position := place }) : k ≤ x.position := by
  obtain ⟨⟨row, place⟩, hmem, rfl⟩ := List.mem_map.mp h
  exact List.le_snd_of_mem_zipIdx hmem

theorem number_sorted {k : Nat} : ((rows.zipIdx k).map fun (row, place) =>
    { row with position := place }).Pairwise fun a b => a.position < b.position := by
  induction rows generalizing k with
  | nil => exact List.Pairwise.nil
  | cons row rows ih =>
    rw [List.zipIdx_cons, List.map_cons, List.pairwise_cons]
    exact ⟨fun x hx => number_ge hx, ih⟩

theorem byKey_some {row : WatchlistItem} (h : byKey rows stock = some row) :
    row ∈ rows ∧ row.stock = stock :=
  ⟨List.mem_of_find?_eq_some h, by simpa using List.find?_some h⟩

theorem byKey_none (h : byKey rows stock = none) : stock ∉ rows.map (·.stock) := by
  intro hin
  obtain ⟨row, hrow, hstock⟩ := List.mem_map.mp hin
  have hne := List.find?_eq_none.mp h row hrow
  simp [hstock] at hne

theorem found_stocks {stocks : List Stock} :
    (stocks.filterMap (byKey rows)).map (·.stock) =
      stocks.filter (· ∈ rows.map (·.stock)) := by
  induction stocks with
  | nil => rfl
  | cons stock stocks ih =>
    cases hfind : byKey rows stock with
    | none =>
      have hnot := byKey_none hfind
      rw [List.filterMap_cons_none hfind, ih, List.filter_cons_of_neg (by simpa using hnot)]
    | some row =>
      obtain ⟨hrow, hstock⟩ := byKey_some hfind
      have hin : stock ∈ rows.map (·.stock) := List.mem_map.mpr ⟨row, hrow, hstock⟩
      rw [List.filterMap_cons_some hfind, List.map_cons, ih, hstock,
        List.filter_cons_of_pos (by simpa using hin)]

theorem mem_found (h : Kept rows) {row : WatchlistItem} {stocks : List Stock} (hrow : row ∈ rows) :
    row ∈ stocks.filterMap (byKey rows) ↔ row.stock ∈ stocks := by
  rw [List.mem_filterMap]
  constructor
  · intro hfound
    obtain ⟨stock, hin, hfind⟩ := hfound
    rw [(byKey_some hfind).2]
    exact hin
  · intro hin
    refine ⟨row.stock, hin, ?_⟩
    cases hfind : byKey rows row.stock with
    | none => exact absurd (List.mem_map.mpr ⟨row, hrow, rfl⟩) (byKey_none hfind)
    | some x =>
      obtain ⟨hx, hstock⟩ := byKey_some hfind
      rw [List.inj_on_of_nodup_map h.nodup hx hrow hstock]

/-- The rows that are named, in the order they are named in, and the others. -/
theorem reorder_stocks (h : Kept r.rows) (order : List Stock) :
    (reorder order r).rows.map (·.stock) =
      (fresh [] order).filter (· ∈ items r) ++ (items r).filter (· ∉ order) := by
  rw [reorder, h.inOrder_eq, h.items_eq]
  dsimp only
  rw [number_stock, List.map_append, found_stocks, List.filter_map]
  congr 2
  refine List.filter_congr fun row hrow => ?_
  have hnamed := @mem_found _ h _ (fresh [] order) hrow
  rw [mem_fresh] at hnamed
  simp [hnamed]

theorem nodup_reordered {stocks order : List Stock} (h : stocks.Nodup) :
    ((fresh [] order).filter (· ∈ stocks) ++ stocks.filter (· ∉ order)).Nodup := by
  rw [List.nodup_append]
  refine ⟨nodup_fresh.filter _, h.filter _, fun x hx y hy hxy => ?_⟩
  have hin := (mem_fresh.mp (List.mem_filter.mp hx).1).1
  have hout := of_decide_eq_true (List.mem_filter.mp hy).2
  exact hout (hxy ▸ hin)

theorem Kept.reorder (h : Kept r.rows) (order : List Stock) :
    Kept (Watchlist.reorder order r).rows := by
  refine ⟨number_sorted, ?_⟩
  rw [reorder_stocks h]
  refine nodup_reordered ?_
  rw [h.items_eq]
  exact h.nodup

theorem Kept.remove (h : Kept r.rows) (stock : Stock) : Kept (Watchlist.remove stock r).rows := by
  refine ⟨h.sorted.filter _, ?_⟩
  exact h.nodup.sublist (List.filter_sublist.map _)

theorem length_reordered {stocks order : List Stock} (h : stocks.Nodup) :
    ((fresh [] order).filter (· ∈ stocks) ++ stocks.filter (· ∉ order)).length =
      stocks.length := by
  refine List.Perm.length_eq ((List.perm_ext_iff_of_nodup (nodup_reordered h) h).mpr fun a => ?_)
  rw [List.mem_append, List.mem_filter, List.mem_filter, mem_fresh]
  by_cases ha : a ∈ order
  · simp [ha]
  · simp [ha]

/-! What each call does to the list. -/

/-- What `add` does, by whether there is room and the stock is on the list. -/
theorem add_cases (h : Kept r.rows) (stock : Stock) (made : Made) :
    ((r.rows.length ≥ MAX_ITEMS ∨ MAX_POSITION < nextPosition r.rows) ∧
      ∃ e, add stock made r = .error e) ∨
    (r.rows.length < MAX_ITEMS ∧ nextPosition r.rows ≤ MAX_POSITION ∧ stock ∈ items r ∧
      add stock made r = .ok r) ∨
    (r.rows.length < MAX_ITEMS ∧ stock ∉ items r ∧ ∃ r', add stock made r = .ok r' ∧
      Kept r'.rows ∧ items r' = items r ++ [stock] ∧
      r'.watchlistStartedAt = r.watchlistStartedAt) := by
  unfold add
  by_cases hfull : r.rows.length ≥ MAX_ITEMS
  · rw [if_pos hfull]
    exact Or.inl ⟨Or.inl hfull, _, rfl⟩
  · rw [if_neg hfull, h.items_eq]
    by_cases hout : MAX_POSITION < nextPosition r.rows
    · rw [insert_out hout]
      exact Or.inl ⟨Or.inr hout, _, rfl⟩
    · by_cases hin : stock ∈ r.rows.map (·.stock)
      · rw [insert_listed (by omega) hin]
        exact Or.inr (Or.inl ⟨by omega, by omega, hin, rfl⟩)
      · rw [insert_new (by omega) hin]
        have hkept := @Kept.append _ h ⟨made.id, stock, nextPosition r.rows, made.createdAt⟩
          (fun x hx => lt_nextPosition hx) hin
        refine Or.inr (Or.inr ⟨by omega, hin, _, rfl, hkept, ?_, rfl⟩)
        rw [Kept.items_eq hkept, List.map_append]
        rfl

/-- What `start` does: nothing, or it raises, or the missing defaults come last. -/
theorem start_cases (h : Kept r.rows) (defaults : List Stock) (now : Nat) (made : Nat → Made) :
    (r.watchlistStartedAt.isSome ∧ start defaults now made r = .ok (false, r)) ∨
    (r.watchlistStartedAt = none ∧ start defaults now made r = .error .outOfRange ∧
      MAX_POSITION + 1 < nextPosition r.rows + (defaults.take MAX_ITEMS).length) ∨
    (r.watchlistStartedAt = none ∧ ∃ r', start defaults now made r = .ok (true, r') ∧
      Kept r'.rows ∧ items r' = items r ++ fresh (items r) (defaults.take MAX_ITEMS) ∧
      r'.watchlistStartedAt = some now ∧
      (nextPosition r.rows + (defaults.take MAX_ITEMS).length ≤ MAX_POSITION + 1 ∨
        defaults.take MAX_ITEMS = [])) := by
  unfold start
  cases hstarted : r.watchlistStartedAt with
  | some at_ => exact Or.inl ⟨rfl, rfl⟩
  | none =>
    rw [if_neg (by simp), h.items_eq]
    rcases fill_spec h
      (fun x hx => lt_nextPosition hx) with ⟨rows', hrun, hkept, hstocks, hfit⟩ | ⟨hrun, hfit⟩
    · rw [hrun]
      refine Or.inr (Or.inr ⟨rfl, _, rfl, hkept, ?_, rfl, hfit⟩)
      rw [Kept.items_eq (r := ⟨rows', some now⟩) hkept]
      exact hstocks
    · rw [hrun]
      exact Or.inr (Or.inl ⟨rfl, rfl, hfit⟩)

theorem kept_step (h : Kept r.rows) (op : Op) : Kept (step r op).2.rows := by
  cases op with
  | add stock made =>
    rw [step]
    rcases add_cases h stock made with ⟨-, e, hadd⟩ | ⟨-, -, -, hadd⟩ | ⟨-, -, r', hadd, hkept, -⟩
    · rw [hadd]
      exact h
    · rw [hadd]
      exact h
    · rw [hadd]
      exact hkept
  | start defaults now made =>
    rw [step]
    rcases start_cases h defaults now made with ⟨-, hs⟩ | ⟨-, hs, -⟩ | ⟨-, r', hs, hkept, -⟩
    · rw [hs]
      exact h
    · rw [hs]
      exact h
    · rw [hs]
      exact hkept
  | remove stock => exact h.remove stock
  | reorder order => exact h.reorder order

theorem Kept.nodup_items (h : Kept r.rows) : (items r).Nodup := by
  rw [h.items_eq]
  exact h.nodup

/-- From a list of a legal length a call keeps its promises iff it is not one of the mishandled. -/
theorem law_iff (h : Kept r.rows) (hlen : (items r).length ≤ MAX_ITEMS) :
    Law r op ↔ Meets r op := by
  have hlen' := h.length_items
  have hnodup := (kept_step h op).nodup_items
  cases op with
  | add stock made =>
    rw [Law, Meets]
    rcases add_cases h stock made with
      ⟨hfull, e, hadd⟩ | ⟨hroom, hfit, hin, hadd⟩ | ⟨hroom, hnew, r', hadd, -, hitems, -⟩
    · have hstep : step r (.add stock made) = (.error e, r) := by rw [step, hadd]
      rw [hstep] at hnodup ⊢
      by_cases hin : stock ∈ items r
      · rw [if_pos hin]
        constructor
        · intro hlaw
          cases hlaw.2.2
        · intro hmeets
          have hroom := hmeets hin
          omega
      · rw [if_neg hin]
        refine ⟨fun _ hin' => absurd hin' hin, fun _ => ⟨hnodup, hlen, Or.inr ⟨⟨e, rfl⟩, rfl, ?_⟩⟩⟩
        rcases hfull with hfull | hout
        · exact Or.inl (by omega)
        · exact Or.inr hout
    · have hstep : step r (.add stock made) = (.ok .done, r) := by rw [step, hadd]
      rw [hstep] at hnodup ⊢
      rw [if_pos hin]
      exact ⟨fun _ _ => ⟨by omega, hfit⟩, fun _ => ⟨hnodup, hlen, rfl⟩⟩
    · have hstep : step r (.add stock made) = (.ok .done, r') := by rw [step, hadd]
      rw [hstep] at hnodup ⊢
      rw [if_neg hnew]
      refine ⟨fun _ hin => absurd hin hnew, fun _ => ⟨hnodup, ?_, Or.inl ⟨rfl, hitems⟩⟩⟩
      rw [hitems, List.length_append, List.length_singleton]
      omega
  | start defaults now made =>
    rw [Law, Meets]
    rcases start_cases h defaults now made with
      ⟨hstarted, hs⟩ | ⟨hnone, hs, hout⟩ | ⟨hnone, r', hs, -, hitems, -, hfit⟩
    · have hstep : step r (.start defaults now made) = (.ok (.filled false), r) := by rw [step, hs]
      rw [hstep] at hnodup ⊢
      refine ⟨fun _ hnone => ?_, fun _ => ⟨hnodup, hlen, Or.inl ⟨rfl, hstarted⟩⟩⟩
      rw [hnone] at hstarted
      cases hstarted
    · have hstep : step r (.start defaults now made) = (.error .outOfRange, r) := by rw [step, hs]
      rw [hstep] at hnodup ⊢
      refine ⟨fun _ _ hfit => ?_, fun _ => ⟨hnodup, hlen, Or.inr (Or.inl ⟨rfl, hnone⟩)⟩⟩
      omega
    · have hstep : step r (.start defaults now made) = (.ok (.filled true), r') := by rw [step, hs]
      rw [hstep] at hnodup ⊢
      dsimp only
      rw [hitems] at hnodup ⊢
      rw [List.length_append]
      constructor
      · exact fun hlaw _ _ => hlaw.2.1
      · intro hmeets
        refine ⟨hnodup, ?_, Or.inr (Or.inr ⟨hnone, rfl, rfl⟩)⟩
        rcases hfit with hfit | hnil
        · exact hmeets hnone hfit
        · rw [hnil]
          exact hlen
  | remove stock =>
    rw [Law, Meets]
    have hitems : items (remove stock r) = (items r).filter (· ≠ stock) := by
      rw [Kept.items_eq (h.remove stock), h.items_eq, remove, List.filter_map]
      rfl
    refine ⟨fun _ => trivial, fun _ => ⟨hnodup, ?_, rfl, hitems⟩⟩
    show (items (remove stock r)).length ≤ MAX_ITEMS
    rw [hitems]
    exact Nat.le_trans (List.length_filter_le _ _) hlen
  | reorder order =>
    rw [Law, Meets]
    have hitems : items (reorder order r) =
        (fresh [] order).filter (· ∈ items r) ++ (items r).filter (· ∉ order) := by
      rw [Kept.items_eq (h.reorder order), reorder_stocks h]
    refine ⟨fun _ => trivial, fun _ => ⟨hnodup, ?_, rfl, hitems⟩⟩
    show (items (reorder order r)).length ≤ MAX_ITEMS
    rw [hitems, length_reordered h.nodup_items]
    exact hlen

theorem throughout_law_iff (h : Kept r.rows) (hlen : (items r).length ≤ MAX_ITEMS)
    (ops : List Op) : Throughout Law r ops ↔ Throughout Meets r ops := by
  induction ops generalizing r with
  | nil => exact Iff.rfl
  | cons op ops ih =>
    rw [Throughout, Throughout, law_iff h hlen]
    constructor
    · intro hrun
      have hlaw := (law_iff h hlen).mpr hrun.1
      exact ⟨hrun.1, (ih (kept_step h op) hlaw.2.1).mp hrun.2⟩
    · intro hrun
      have hlaw := (law_iff h hlen).mpr hrun.1
      exact ⟨hrun.1, (ih (kept_step h op) hlaw.2.1).mpr hrun.2⟩

/-! The defaults are filled in once. -/

theorem step_started (h : r.watchlistStartedAt.isSome) :
    (step r op).1 ≠ .ok (.filled true) ∧ (step r op).2.watchlistStartedAt.isSome := by
  cases op with
  | add stock made =>
    simp only [step, add]
    split
    · next e _ => exact ⟨nofun, h⟩
    · next r' hr =>
      refine ⟨nofun, ?_⟩
      split at hr
      · cases hr
      · split at hr
        · cases hr
        · cases hr
          exact h
  | start defaults now made =>
    rw [step, start, if_pos h]
    exact ⟨nofun, h⟩
  | remove stock => exact ⟨nofun, h⟩
  | reorder order => exact ⟨nofun, h⟩

theorem filled_started (h : (step r op).1 = .ok (.filled true)) :
    (step r op).2.watchlistStartedAt.isSome := by
  cases op with
  | add stock made =>
    rw [step] at h
    split at h
    · cases h
    · cases h
  | start defaults now made =>
    simp only [step, start] at h ⊢
    by_cases hs : r.watchlistStartedAt.isSome
    · rw [if_pos hs] at h
      cases h
    · rw [if_neg hs] at h ⊢
      cases hf : fill made (defaults.take MAX_ITEMS) (nextPosition r.rows) r.rows with
      | error e =>
        rw [hf] at h
        cases h
      | ok rows => rfl
  | remove stock => cases h
  | reorder order => cases h

theorem count_started (h : r.watchlistStartedAt.isSome) (ops : List Op) :
    (answers r ops).count (.ok (.filled true)) = 0 := by
  induction ops generalizing r with
  | nil => rfl
  | cons op ops ih =>
    have hstep := @step_started _ op h
    rw [answers, List.count_cons_of_ne hstep.1]
    exact ih hstep.2

theorem count_filled (r : Reader) (ops : List Op) :
    (answers r ops).count (.ok (.filled true)) ≤ 1 := by
  induction ops generalizing r with
  | nil => exact Nat.zero_le 1
  | cons op ops ih =>
    rw [answers]
    by_cases hfilled : (step r op).1 = .ok (.filled true)
    · rw [hfilled, List.count_cons_self, count_started (filled_started hfilled)]
    · rw [List.count_cons_of_ne hfilled]
      exact ih _

/-- A run of calls keeps every promise iff none of its calls is mishandled. -/
theorem keeps_promises_iff (ops : List Op) :
    (Throughout Law newReader ops ∧ (answers newReader ops).count (.ok (.filled true)) ≤ 1) ↔
      Throughout Meets newReader ops := by
  rw [throughout_law_iff (r := newReader) kept_nil (Nat.zero_le _) ops]
  exact and_iff_left (count_filled newReader ops)

instance (r : Reader) : (op : Op) → Decidable (Meets r op)
  | .add _ _ => inferInstanceAs (Decidable (_ → _))
  | .start _ _ _ => inferInstanceAs (Decidable (_ → _ → _))
  | .remove _ => isTrue trivial
  | .reorder _ => isTrue trivial

instance decidableThroughout : (ops : List Op) → (r : Reader) → Decidable (Throughout Meets r ops)
  | [], _ => isTrue trivial
  | op :: ops, r =>
    have := decidableThroughout ops (step r op).2
    inferInstanceAs (Decidable (Meets r op ∧ _))

def stockNo (n : Nat) : Stock := ⟨.tw, [n]⟩

/-- Fifty stocks, and the first of them once more. -/
def fiftyAndOneAgain : List Op :=
  ((List.range 50).map fun n => .add (stockNo n) ⟨n, n⟩) ++ [.add (stockNo 0) ⟨50, 50⟩]

theorem again_refused : ¬ (Throughout Law newReader fiftyAndOneAgain ∧
    (answers newReader fiftyAndOneAgain).count (.ok (.filled true)) ≤ 1) := by
  intro hrun
  have hmeets := (throughout_law_iff kept_nil (Nat.zero_le _) _).mp hrun.1
  exact absurd hmeets (by decide +kernel)

end Watchlist

end Autora
