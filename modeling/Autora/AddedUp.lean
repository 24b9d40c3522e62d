import Autora.Comparisons
import Autora.Lib.Tallies
import Autora.Lib.TwoRuns

/-! The positions of a side are its rows added up, whatever the order of the rows. -/

namespace Autora.Disclosures

open List (Forall₂)
open TwoRuns (Both)

variable {lib : FilingLibrary}

/-! ## One row more -/

def Position.plus (held p : Position) : Position :=
  { held with amount := held.amount + p.amount, value := held.value + p.value }

/-- A row with its value in dollars, where it was filed in thousands. -/
def Position.scaled (p : Position) : Position := { p with value := p.value * 1000 }

theorem addUp_eq : addUp = Tallies.add Position.key Position.plus := by
  funext l p
  induction l with
  | nil => rfl
  | cons held l ih => rw [addUp, Tallies.add, ih, Position.plus]

theorem plus_lawful : Tallies.Lawful Position.key Position.plus where
  key_plus _ _ := rfl
  assoc a b c := by
    simp only [Position.plus, Position.mk.injEq, true_and]
    exact ⟨add_assoc _ _ _, add_assoc _ _ _⟩
  right_comm a b c := by
    simp only [Position.plus, Position.mk.injEq, true_and]
    exact ⟨add_right_comm _ _ _, add_right_comm _ _ _⟩

theorem addUp_nodup (rows : List Position) : ((rows.foldl addUp []).map Position.key).Nodup := by
  rw [addUp_eq]
  exact Tallies.nodup_foldl plus_lawful List.nodup_nil

/-- Rows for one position name it alike. -/
def Named (rows : List Position) : Prop :=
  ∀ p ∈ rows, ∀ q ∈ rows, p.key = q.key → p.name = q.name ∧ p.titleOfClass = q.titleOfClass

theorem Named.subset {rows rows' : List Position} (h : Named rows) (hs : rows' ⊆ rows) :
    Named rows' := fun p hp q hq => h p (hs hp) q (hs hq)

theorem Named.plus_comm {rows : List Position} (h : Named rows) :
    ∀ p ∈ rows, ∀ q ∈ rows, p.key = q.key → p.plus q = q.plus p := by
  intro p hp q hq hkey
  obtain ⟨hname, htitle⟩ := h p hp q hq hkey
  simp only [Position.key, Prod.mk.injEq] at hkey
  simp only [Position.plus, Position.mk.injEq]
  exact ⟨hname, htitle, hkey.1, hkey.2.1, hkey.2.2, add_comm _ _, add_comm _ _⟩

theorem addUp_perm {rows rows' : List Position} (h : rows.Perm rows') (hnamed : Named rows) :
    (rows.foldl addUp []).Perm (rows'.foldl addUp []) := by
  rw [addUp_eq]
  exact Tallies.foldl_perm plus_lawful h List.nodup_nil hnamed.plus_comm

/-! ## Whether the values are thousands -/

theorem prices_eq (positions : List Position) : positions.mapM (priceOf lib) =
    if ∀ p ∈ positions, (lib.quotient p.value p.amount).isSome = true then
      .ok (positions.filterMap fun p => lib.quotient p.value p.amount)
    else .error (.other "Overflow") := by
  induction positions with
  | nil => rfl
  | cons p positions ih =>
    rw [List.mapM_cons, ih, priceOf]
    cases hq : lib.quotient p.value p.amount with
    | none =>
      have hnone : ¬∀ q ∈ p :: positions, (lib.quotient q.value q.amount).isSome = true := by
        rw [List.forall_mem_cons, hq]
        exact fun h => Bool.false_ne_true h.1
      rw [if_neg hnone]
      rfl
    | some price =>
      have hcons : (∀ q ∈ p :: positions, (lib.quotient q.value q.amount).isSome = true) ↔
          ∀ q ∈ positions, (lib.quotient q.value q.amount).isSome = true := by
        rw [List.forall_mem_cons, hq]
        exact and_iff_right rfl
      by_cases hrest : ∀ q ∈ positions, (lib.quotient q.value q.amount).isSome = true
      · rw [if_pos hrest, if_pos (hcons.mpr hrest), List.filterMap_cons_some
          (f := fun q : Position => lib.quotient q.value q.amount) hq]
        rfl
      · rw [if_neg hrest, if_neg fun h => hrest (hcons.mp h)]
        rfl

theorem looksLikeThousands_perm {positions positions' : List Position}
    (h : positions.Perm positions') :
    looksLikeThousands lib positions = looksLikeThousands lib positions' := by
  have hpriced : (priced positions).Perm (priced positions') := h.filter _
  have hsome : (∀ p ∈ priced positions, (lib.quotient p.value p.amount).isSome = true) ↔
      ∀ p ∈ priced positions', (lib.quotient p.value p.amount).isSome = true := by
    simp only [hpriced.mem_iff]
  unfold looksLikeThousands
  rw [prices_eq, prices_eq]
  by_cases hall : ∀ p ∈ priced positions', (lib.quotient p.value p.amount).isSome = true
  · have hsorted : ((priced positions).filterMap fun p => lib.quotient p.value p.amount).mergeSort
        (fun a b => decide (a ≤ b)) =
        ((priced positions').filterMap fun p => lib.quotient p.value p.amount).mergeSort
        (fun a b => decide (a ≤ b)) := by
      refine List.Perm.eq_of_pairwise' (r := (· ≤ ·)) (List.pairwise_mergeSort' _ _)
        (List.pairwise_mergeSort' _ _) ?_
      exact ((List.mergeSort_perm _ _).trans (hpriced.filterMap _)).trans
        (List.mergeSort_perm _ _).symm
    rw [if_pos hall, if_pos (hsome.mpr hall)]
    simp only [bind, Except.bind]
    rw [hsorted]
  · rw [if_neg hall, if_neg fun h => hall (hsome.mp h)]

/-! ## One side -/

/-- A filing with whether its values are thousands. -/
def marked (lib : FilingLibrary) (f : Filed) : Except Raised (Filed × Bool) :=
  looksLikeThousands lib (f.rows.foldl addUp []) >>= fun inThousands => pure (f, inThousands)

/-- The rows of a filing, in dollars. -/
def inDollars (x : Filed × Bool) : List Position :=
  if x.2 = true then x.1.rows.map Position.scaled else x.1.rows

/-- The rows of all filings of a side, added up at once. -/
def addedUp (marks : List (Filed × Bool)) : Holdings where
  manager := " + ".intercalate (marks.map fun x => x.1.manager)
  reportType := match marks with
    | x :: _ => x.1.reportType
    | [] => ""
  positions := (marks.flatMap inDollars).foldl addUp []
  inThousands := marks.any Prod.snd

def added (lib : FilingLibrary) (filings : List Filed) : Except Raised Holdings :=
  filings.mapM (marked lib) >>= fun marks => pure (addedUp marks)

def heldIn (x : Filed × Bool) : Holdings :=
  ⟨x.1.manager, x.1.reportType, (inDollars x).foldl addUp [], x.2⟩

theorem holdingsOf_eq (f : Filed) :
    holdingsOf lib f = marked lib f >>= fun x => pure (heldIn x) := by
  unfold holdingsOf marked
  dsimp only
  cases looksLikeThousands lib (f.rows.foldl addUp []) with
  | error e => rfl
  | ok inThousands =>
    cases inThousands with
    | false => rfl
    | true =>
      have hscaled : (f.rows.foldl addUp []).map Position.scaled =
          (f.rows.map Position.scaled).foldl addUp [] := by
        rw [addUp_eq]
        exact Tallies.map_foldl (fun _ => rfl) fun a b => by
          simp only [Position.scaled, Position.plus, add_mul]
      exact congrArg (fun positions => (Except.ok ⟨f.manager, f.reportType, positions, true⟩ :
        Except Raised Holdings)) hscaled

theorem parts_positions (marks : List (Filed × Bool)) (acc : List Position) :
    ((marks.map heldIn).flatMap Holdings.positions).foldl addUp acc =
      (marks.flatMap inDollars).foldl addUp acc := by
  induction marks generalizing acc with
  | nil => rfl
  | cons x marks ih =>
    have hx : (heldIn x).positions.foldl addUp acc = (inDollars x).foldl addUp acc := by
      rw [heldIn, addUp_eq]
      exact Tallies.foldl_foldl plus_lawful
    rw [List.map_cons, List.flatMap_cons, List.flatMap_cons, List.foldl_append, List.foldl_append,
      hx, ih]

theorem combine_parts (marks : List (Filed × Bool)) :
    combine (marks.map heldIn) = addedUp marks := by
  unfold combine addedUp
  rw [parts_positions, List.map_map, List.any_map]
  cases marks <;> rfl

/-- Combining the filings of a side is adding up their rows. -/
theorem side_eq_added (filings : List Filed) : side lib filings = added lib filings := by
  have hparts : filings.mapM (holdingsOf lib) =
      filings.mapM (marked lib) >>= fun marks => pure (marks.map heldIn) := by
    induction filings with
    | nil => rfl
    | cons f filings ih =>
      rw [List.mapM_cons, List.mapM_cons, ih, holdingsOf_eq]
      cases marked lib f with
      | error e => rfl
      | ok x => cases filings.mapM (marked lib) <;> rfl
  unfold side added
  rw [hparts]
  cases filings.mapM (marked lib) with
  | error e => rfl
  | ok marks =>
    change Except.ok (combine (marks.map heldIn)) = Except.ok (addedUp marks)
    rw [combine_parts]

/-- One filer's side is its filing. -/
theorem side_one (f : Filed) : side lib [f] = holdingsOf lib f := by
  rw [side_eq_added, added, holdingsOf_eq, List.mapM_cons, List.mapM_nil]
  cases marked lib f with
  | error e => rfl
  | ok x =>
    change Except.ok (addedUp [x]) = Except.ok (heldIn x)
    rw [addedUp, heldIn, List.flatMap_singleton, List.map_singleton, String.intercalate_singleton,
      List.any_cons, List.any_nil, Bool.or_false]

/-! ## Rows in another order -/

/-- The same filing, its rows in another order. -/
structure Filed.Reordered (f f' : Filed) : Prop where
  manager : f'.manager = f.manager
  reportType : f'.reportType = f.reportType
  rows : f.rows.Perm f'.rows

/-- Holdings that differ in the order of their positions alone. -/
structure Holdings.Same (h h' : Holdings) : Prop where
  positions : h.positions.Perm h'.positions
  nodup : (h.positions.map Position.key).Nodup
  inThousands : h'.inThousands = h.inThousands

def allRows (filings : List Filed) : List Position := filings.flatMap Filed.rows

theorem marked_reordered {f f' : Filed} (h : f.Reordered f') (hnamed : Named f.rows) :
    Both (fun x y => x.1.Reordered y.1 ∧ y.2 = x.2) (marked lib f) (marked lib f') := by
  unfold marked
  rw [← looksLikeThousands_perm (addUp_perm h.rows hnamed)]
  cases looksLikeThousands lib (f.rows.foldl addUp []) with
  | error e => exact rfl
  | ok inThousands => exact ⟨h, rfl⟩

theorem inDollars_perm {x y : Filed × Bool} (h : x.1.Reordered y.1) (hb : y.2 = x.2) :
    (inDollars x).Perm (inDollars y) := by
  unfold inDollars
  rw [hb]
  split
  · exact h.rows.map _
  · exact h.rows

/-- The rows in dollars name the positions as the rows do. -/
theorem mem_inDollars {x : Filed × Bool} {p : Position} (h : p ∈ inDollars x) :
    ∃ q ∈ x.1.rows, q.key = p.key ∧ q.name = p.name ∧ q.titleOfClass = p.titleOfClass ∧
      q.amount = p.amount := by
  unfold inDollars at h
  split at h
  · obtain ⟨q, hq, rfl⟩ := List.mem_map.mp h
    exact ⟨q, hq, rfl, rfl, rfl, rfl⟩
  · exact ⟨p, h, rfl, rfl, rfl, rfl⟩

theorem marks_filings {filings : List Filed} {marks : List (Filed × Bool)}
    (h : filings.mapM (marked lib) = .ok marks) : marks.map Prod.fst = filings := by
  induction filings generalizing marks with
  | nil =>
    cases h
    rfl
  | cons f filings ih =>
    rw [List.mapM_cons, marked] at h
    cases hf : looksLikeThousands lib (f.rows.foldl addUp []) <;>
      cases hrest : filings.mapM (marked lib) <;> rw [hf, hrest] at h <;> cases h
    rw [List.map_cons, ih hrest]

theorem named_inDollars {marks : List (Filed × Bool)}
    (h : Named (allRows (marks.map Prod.fst))) : Named (marks.flatMap inDollars) := by
  have hrow : ∀ p ∈ marks.flatMap inDollars, ∃ q ∈ allRows (marks.map Prod.fst),
      q.key = p.key ∧ q.name = p.name ∧ q.titleOfClass = p.titleOfClass := by
    intro p hp
    obtain ⟨x, hx, hp⟩ := List.mem_flatMap.mp hp
    obtain ⟨q, hq, hkey, hname, htitle, _⟩ := mem_inDollars hp
    exact ⟨q, List.mem_flatMap.mpr ⟨x.1, List.mem_map_of_mem hx, hq⟩, hkey, hname, htitle⟩
  intro p hp p' hp' hkey
  obtain ⟨q, hq, hqkey, hqname, hqtitle⟩ := hrow p hp
  obtain ⟨q', hq', hqkey', hqname', hqtitle'⟩ := hrow p' hp'
  obtain ⟨hname, htitle⟩ := h q hq q' hq' (hqkey.trans (hkey.trans hqkey'.symm))
  exact ⟨hqname.symm.trans (hname.trans hqname'), hqtitle.symm.trans (htitle.trans hqtitle')⟩

theorem addedUp_same {marks marks' : List (Filed × Bool)}
    (h : Forall₂ (fun x y : Filed × Bool => x.1.Reordered y.1 ∧ y.2 = x.2) marks marks')
    (hnamed : Named (allRows (marks.map Prod.fst))) : (addedUp marks).Same (addedUp marks') where
  positions := by
    have hrows : (marks.flatMap inDollars).Perm (marks'.flatMap inDollars) := by
      clear hnamed
      induction h with
      | nil => exact List.Perm.refl _
      | cons hxy _ ih => exact (inDollars_perm hxy.1 hxy.2).append ih
    exact addUp_perm hrows (named_inDollars hnamed)
  nodup := addUp_nodup _
  inThousands := by
    have hmarks : marks.map Prod.snd = marks'.map Prod.snd :=
      TwoRuns.map_eq h fun _ _ hxy => hxy.2.symm
    have hany : ∀ l : List (Filed × Bool), l.any Prod.snd = (l.map Prod.snd).any id := by
      intro l
      rw [List.any_map]
      rfl
    change marks'.any Prod.snd = marks.any Prod.snd
    rw [hany, hany, hmarks]

/-- A side with its rows in another order holds the same positions. -/
theorem side_same {filings filings' : List Filed} (h : Forall₂ Filed.Reordered filings filings')
    (hnamed : Named (allRows filings)) :
    Both Holdings.Same (side lib filings) (side lib filings') := by
  rw [side_eq_added, side_eq_added]
  have hmarks : Both (Forall₂ fun x y : Filed × Bool => x.1.Reordered y.1 ∧ y.2 = x.2)
      (filings.mapM (marked lib)) (filings'.mapM (marked lib)) := by
    have hmem : Forall₂ (fun f f' => f.Reordered f' ∧ Named f.rows) filings filings' := by
      refine TwoRuns.imp_of_mem h fun f hf f' _ hr => ⟨hr, hnamed.subset ?_⟩
      exact fun p hp => List.mem_flatMap.mpr ⟨f, hf, hp⟩
    exact TwoRuns.mapM hmem fun f f' hf => marked_reordered hf.1 hf.2
  unfold added
  cases hm : filings.mapM (marked lib) <;> cases hm' : filings'.mapM (marked lib) <;>
    rw [hm, hm'] at hmarks
  · exact hmarks
  · exact hmarks.elim
  · exact hmarks.elim
  · exact addedUp_same hmarks ((marks_filings hm).symm ▸ hnamed)

/-! ## What a side comes to -/

def amountOf (kind : String) (p : Position) : Int := if p.kind = kind then p.amount else 0

/-- What the rows of a kind come to. -/
def total (kind : String) (rows : List Position) : Int := (rows.map (amountOf kind)).sum

theorem side_ok {filings : List Filed} {h : Holdings} (hside : side lib filings = .ok h) :
    ∃ marks : List (Filed × Bool), marks.map Prod.fst = filings ∧ h = addedUp marks := by
  rw [side_eq_added, added] at hside
  cases hm : filings.mapM (marked lib) with
  | error e =>
    rw [hm] at hside
    cases hside
  | ok marks =>
    rw [hm] at hside
    cases hside
    exact ⟨marks, marks_filings hm, rfl⟩

theorem side_nodup {filings : List Filed} {h : Holdings} (hside : side lib filings = .ok h) :
    (h.positions.map Position.key).Nodup := by
  obtain ⟨marks, _, rfl⟩ := side_ok hside
  exact addUp_nodup _

theorem total_inDollars (kind : String) (x : Filed × Bool) :
    total kind (inDollars x) = total kind x.1.rows := by
  unfold inDollars total
  split
  · rw [List.map_map]
    rfl
  · rfl

theorem total_side {filings : List Filed} {h : Holdings} (kind : String)
    (hside : side lib filings = .ok h) : total kind h.positions = total kind (allRows filings) := by
  obtain ⟨marks, rfl, rfl⟩ := side_ok hside
  have hplus : ∀ a b : Position, a.key = b.key →
      amountOf kind (a.plus b) = amountOf kind a + amountOf kind b := by
    intro a b hkey
    simp only [Position.key, Prod.mk.injEq] at hkey
    have hkind : (a.plus b).kind = a.kind := rfl
    unfold amountOf
    rw [hkind, ← hkey.2.2]
    split
    · rfl
    · rfl
  have hrows : total kind ((marks.flatMap inDollars).foldl addUp []) =
      total kind (marks.flatMap inDollars) := by
    rw [addUp_eq, total, Tallies.sum_foldl hplus, List.map_nil, List.sum_nil, zero_add, total]
  change total kind ((marks.flatMap inDollars).foldl addUp []) = _
  rw [hrows]
  clear hrows hside
  induction marks with
  | nil => rfl
  | cons x marks ih =>
    have happend : ∀ rows rows', total kind (rows ++ rows') = total kind rows + total kind rows' := by
      intro rows rows'
      rw [total, List.map_append, List.sum_append, total, total]
    unfold allRows at ih ⊢
    rw [List.flatMap_cons, List.map_cons, List.flatMap_cons, happend, happend, ih, total_inDollars]

end Autora.Disclosures
