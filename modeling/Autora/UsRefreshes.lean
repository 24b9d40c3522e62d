import Mathlib.Logic.Function.Basic
import Autora.UsPrices

/-! A refresh of a week leaves what is stored before it as it was: the stored bars are the
provider's as long as nothing has changed those. -/

namespace Autora.Prices

/-- The stored bars, and up to which day each symbol's last answered requests knew of splits and
dividends. -/
structure UsWorld where
  table : List PriceBar
  readTo : String → Nat

def UsWorld.figures (w : UsWorld) (symbol : String) (d : Date) : Option Figures :=
  figuresAt w.table "us" symbol d

variable {m : Tiingo} {r : UsRun} {ask : Ask} {w : UsWorld} {symbol : String} {d : Date}

variable (m) in
def UsWorld.step (w : UsWorld) (x : UsRun × Ask) : UsWorld where
  table := (refreshSymbolUs m x.1 w.table x.2).1
  readTo := if (x.1.rows m w.table x.2).isSome then
    Function.update w.readTo x.2.symbol x.1.upTo else w.readTo

theorem refreshUs_table (m : Tiingo) (r : UsRun) (w : UsWorld) :
    (refreshUs m r w.table).1 = ((r.asks.map (r, ·)).foldl (UsWorld.step m) w).table := by
  have hfold : ∀ (asks : List Ask) (w : UsWorld) (written : Nat),
      (asks.foldl (fun done ask => ((refreshSymbolUs m r done.1 ask).1,
        done.2 + (refreshSymbolUs m r done.1 ask).2)) (w.table, written)).1 =
      ((asks.map (r, ·)).foldl (UsWorld.step m) w).table := by
    intro asks
    induction asks with
    | nil => exact fun _ _ => rfl
    | cons ask asks ih => exact fun w written => ih (w.step m (r, ask)) _
  exact hfold r.asks w 0

/-! What one symbol's requests bring. -/

def dates (rows : List TiingoRow) : List Date := rows.map (·.day)

theorem mem_answer {start : Date} {row : TiingoRow} :
    row ∈ r.answer m symbol start ↔
      start.number ≤ row.day.number ∧ row.day.number ≤ r.today.number ∧
        history m symbol r.upTo row.day = some row.toFigures ∧
        row.splitFactor = m.split symbol row.day := by
  simp only [UsRun.answer, List.mem_filterMap, List.mem_range'_1, Option.map_eq_some_iff]
  constructor
  · intro h
    obtain ⟨n, ⟨hlow, hhigh⟩, f, hf, rfl⟩ := h
    refine ⟨?_, ?_, hf, rfl⟩
    · simpa using hlow
    · simp only [Date.number_ofNumber]
      omega
  · intro h
    obtain ⟨hlow, hhigh, hf, hsplit⟩ := h
    refine ⟨row.day.number, ⟨hlow, by omega⟩, row.toFigures, ?_, ?_⟩
    · rw [Date.ofNumber_number]
      exact hf
    · rw [Date.ofNumber_number, ← hsplit]

theorem rows_answer {rows : List TiingoRow} (h : r.rows m w.table ask = some rows) :
    ∃ start, rows = r.answer m ask.symbol start := by
  rw [UsRun.rows] at h
  dsimp only at h
  split at h
  · cases h
  · split at h
    · split at h
      · cases h
      · cases h
        exact ⟨_, rfl⟩
    · cases h
      exact ⟨_, rfl⟩

/-- A symbol's bars after its requests are answered. -/
theorem figures_step {rows : List TiingoRow} (h : r.rows m w.table ask = some rows) (d : Date) :
    (w.step m (r, ask)).figures ask.symbol d =
      if d ∈ dates rows then history m ask.symbol r.upTo d else w.figures ask.symbol d := by
  obtain ⟨start, hrows⟩ := rows_answer h
  have hbars : ∀ b ∈ rows.map (·.toBar), history m ask.symbol r.upTo b.day = some b.toFigures := by
    intro b hb
    obtain ⟨row, hrow, rfl⟩ := List.mem_map.mp hb
    rw [hrows] at hrow
    exact (mem_answer.mp hrow).2.2.1
  have hdates : (rows.map (·.toBar)).map (·.day) = dates rows := List.map_map
  rw [← hdates]
  simp only [UsWorld.figures, UsWorld.step, refreshSymbolUs, h]
  exact figuresAt_store hbars "Tiingo" w.table d

theorem figures_step_other (hs : symbol ≠ ask.symbol) (d : Date) :
    (w.step m (r, ask)).figures symbol d = w.figures symbol d := by
  simp only [UsWorld.figures, UsWorld.step, refreshSymbolUs]
  cases r.rows m w.table ask with
  | none => rfl
  | some rows => exact figuresAt_store_other hs _ "Tiingo" w.table d

theorem step_failed (h : r.rows m w.table ask = none) : w.step m (r, ask) = w := by
  simp only [UsWorld.step, refreshSymbolUs, h]
  rfl

/-! Runs. -/

variable (m) in
/-- Every stored bar is what the provider's history had when its symbol was last read. -/
def Current (w : UsWorld) : Prop :=
  ∀ symbol d f, w.figures symbol d = some f → history m symbol (w.readTo symbol) d = some f

variable (m) in
/-- What a symbol's refresh is to do: where its requests succeed, the bars stored are the
provider's current history on every day stored; no other symbol's bars change. -/
structure FollowsHistory (w : UsWorld) (x : UsRun × Ask) : Prop where
  current : (x.1.rows m w.table x.2).isSome → ∀ d f, (w.step m x).figures x.2.symbol d = some f →
    history m x.2.symbol x.1.upTo d = some f
  others : ∀ symbol, symbol ≠ x.2.symbol → ∀ d, (w.step m x).figures symbol d = w.figures symbol d

variable (m) in
/-- On every stored day that the answers leave out, the provider's bar is the one of the last
refresh: no split or dividend since then has changed it. -/
def Unchanged (w : UsWorld) (x : UsRun × Ask) : Prop :=
  ∀ rows, x.1.rows m w.table x.2 = some rows → ∀ d, (w.figures x.2.symbol d).isSome →
    d ∉ dates rows →
    history m x.2.symbol x.1.upTo d = history m x.2.symbol (w.readTo x.2.symbol) d

theorem follows_iff (h : Current m w) (x : UsRun × Ask) :
    FollowsHistory m w x ↔ Unchanged m w x := by
  obtain ⟨r, ask⟩ := x
  constructor
  · intro hfollows rows hrows d hstored hout
    obtain ⟨f, hf⟩ := Option.isSome_iff_exists.mp hstored
    have hstep := figures_step hrows d
    rw [if_neg hout] at hstep
    rw [hfollows.current (by simp [hrows]) d f (hstep.trans hf), h ask.symbol d f hf]
  · intro hsame
    refine ⟨fun hsome d f hf => ?_, fun symbol hs d => figures_step_other hs d⟩
    obtain ⟨rows, hrows⟩ := Option.isSome_iff_exists.mp hsome
    rw [figures_step hrows] at hf
    split at hf
    · exact hf
    · next hout =>
      rw [hsame rows hrows d (by simp [hf]) hout]
      exact h ask.symbol d f hf

theorem Current.step (h : Current m w) {x : UsRun × Ask} (hx : FollowsHistory m w x) :
    Current m (w.step m x) := by
  obtain ⟨r, ask⟩ := x
  cases hrows : r.rows m w.table ask with
  | none =>
    rw [step_failed hrows]
    exact h
  | some rows =>
    intro symbol d f hf
    have hread : (w.step m (r, ask)).readTo = Function.update w.readTo ask.symbol r.upTo := by
      simp only [UsWorld.step, hrows]
      rfl
    rw [hread]
    by_cases hs : symbol = ask.symbol
    · subst hs
      rw [Function.update_self]
      exact hx.current (by simp [hrows]) d f hf
    · rw [Function.update_of_ne hs]
      exact h symbol d f ((figures_step_other hs d).symm.trans hf)

variable (m) in
/-- A property of every symbol's refresh and of what is stored before it. -/
def Throughout (P : UsWorld → UsRun × Ask → Prop) (w : UsWorld) : List (UsRun × Ask) → Prop
  | [] => True
  | x :: xs => P w x ∧ Throughout P (w.step m x) xs

def symbolRefreshes (runs : List UsRun) : List (UsRun × Ask) := runs.flatMap fun r => r.asks.map (r, ·)

def noBars : UsWorld := ⟨[], fun _ => 0⟩

/-- In every sequence of runs the stored bars follow the provider's history iff each refresh
finds, on the stored days its answers leave out, that nothing has changed. -/
theorem follows_history_iff (m : Tiingo) (runs : List UsRun) :
    Throughout m (FollowsHistory m) noBars (symbolRefreshes runs) ↔
      Throughout m (Unchanged m) noBars (symbolRefreshes runs) := by
  have hrun : ∀ {w : UsWorld}, Current m w →
      (Throughout m (FollowsHistory m) w (symbolRefreshes runs) ↔
        Throughout m (Unchanged m) w (symbolRefreshes runs)) := by
    induction symbolRefreshes runs with
    | nil => exact fun _ => Iff.rfl
    | cons x xs ih =>
      intro w h
      rw [Throughout, Throughout, ← follows_iff h]
      exact and_congr_right fun hx => ih (h.step hx)
  exact hrun nofun

/-! Splits without dividends. -/

/-- Splits are shown by a trading day's row, and no dividend changes a price. -/
structure SplitsOnly (m : Tiingo) : Prop where
  shown : ∀ symbol d, m.split symbol d ≠ 1 → (m.traded symbol d).isSome ∧ m.split symbol d ≠ 0
  dividends : ∀ symbol d, m.dividend symbol d = 1

theorem history_isSome {upTo upTo' : Nat} {f : Figures} (h : history m symbol upTo d = some f)
    (hd : d.number < upTo') : (history m symbol upTo' d).isSome := by
  rw [history] at h ⊢
  rw [if_pos hd]
  split at h
  · obtain ⟨raw, hraw, -⟩ := Option.map_eq_some_iff.mp h
    simp [hraw]
  · cases h

/-- Where no split falls between two refreshes, the second finds the same bars. -/
theorem history_eq (hsplits : SplitsOnly m) {upTo upTo' : Nat} (hle : upTo ≤ upTo')
    (hd : d.number < upTo)
    (hnone : ∀ n, upTo ≤ n → n < upTo' → m.split symbol (.ofNumber n) = 1) :
    history m symbol upTo' d = history m symbol upTo d := by
  have hprice : priceFactor m symbol upTo upTo' = 1 := by
    apply Finset.prod_eq_one
    intro n hn
    obtain ⟨hlow, hhigh⟩ := Finset.mem_Ico.mp hn
    rw [hnone n hlow hhigh, hsplits.dividends, div_one]
  have hshares : shareFactor m symbol upTo upTo' = 1 := by
    apply Finset.prod_eq_one
    intro n hn
    obtain ⟨hlow, hhigh⟩ := Finset.mem_Ico.mp hn
    exact hnone n hlow hhigh
  have hprices : priceFactor m symbol (d.number + 1) upTo' =
      priceFactor m symbol (d.number + 1) upTo := by
    rw [priceFactor, ← Finset.prod_Ico_consecutive _ hd hle]
    exact (congrArg (_ * ·) hprice).trans (mul_one _)
  have hshare : shareFactor m symbol (d.number + 1) upTo' =
      shareFactor m symbol (d.number + 1) upTo := by
    rw [shareFactor, ← Finset.prod_Ico_consecutive _ hd hle]
    exact (congrArg (_ * ·) hshares).trans (mul_one _)
  rw [history, history, if_pos hd, if_pos (by omega), hprices, hshare]

theorem history_lt {upTo : Nat} {f : Figures} (h : history m symbol upTo d = some f) :
    d.number < upTo := by
  rw [history] at h
  split at h
  · next hlt => exact hlt
  · cases h

theorem lt_upTo {n : Nat} : n < r.upTo → n ≤ r.today.number := by
  rw [UsRun.upTo]
  split <;> omega

/-- A published day from the start on is in the answer. -/
theorem mem_dates {start : Date} {f : Figures} (hstart : start.number ≤ d.number)
    (h : history m symbol r.upTo d = some f) : d ∈ dates (r.answer m symbol start) :=
  List.mem_map.mpr ⟨⟨⟨f, d⟩, m.split symbol d⟩,
    mem_answer.mpr ⟨hstart, lt_upTo (history_lt h), h, rfl⟩, rfl⟩

theorem mem_daysOf : d ∈ daysOf w.table symbol ↔ (w.figures symbol d).isSome := by
  simp only [daysOf, days, UsWorld.figures, figuresAt, Option.isSome_map, List.find?_isSome,
    List.mem_map, List.mem_filter, PriceBar.isAt_iff, Bool.and_eq_true, decide_eq_true_eq, and_assoc]

/-- Splits alone are followed, as long as no stored day is older than the horizon. -/
theorem unchanged_of_splits (hsplits : SplitsOnly m) (h : Current m w)
    (hclock : w.readTo ask.symbol ≤ r.upTo)
    (hhorizon : ∀ d, (w.figures ask.symbol d).isSome → r.horizon.number ≤ d.number) :
    Unchanged m w (r, ask) := by
  intro rows hrows d hstored hout
  have hread : ∀ d, (w.figures ask.symbol d).isSome →
      ∃ f, history m ask.symbol (w.readTo ask.symbol) d = some f := by
    intro d hd
    obtain ⟨f, hf⟩ := Option.isSome_iff_exists.mp hd
    exact ⟨f, h ask.symbol d f hf⟩
  obtain ⟨f, hf⟩ := hread d hstored
  have hd := history_lt hf
  obtain ⟨f', hf'⟩ := Option.isSome_iff_exists.mp (history_isSome hf (hd.trans_le hclock))
  cases hlast : (daysOf w.table ask.symbol).argmax Date.number with
  | none =>
    have hmem := mem_daysOf.mpr hstored
    rw [List.argmax_eq_none.mp hlast] at hmem
    cases hmem
  | some last =>
    obtain ⟨g, hg⟩ := hread last (mem_daysOf.mp (List.argmax_mem hlast))
    simp only [UsRun.rows, hlast, Option.map_some, Option.getD_some, Option.isSome_some,
      true_and] at hrows
    split at hrows
    · cases hrows
    · split at hrows
      · split at hrows
        · cases hrows
        · rw [← Option.some_inj.mp hrows] at hout
          exact absurd (mem_dates (hhorizon d hstored) hf') hout
      · next hquiet =>
        apply history_eq hsplits hclock hd
        intro n hlow hhigh
        by_contra hsplit
        -- a split since the last refresh falls on a day after the last one stored
        obtain ⟨htraded, hzero⟩ := hsplits.shown ask.symbol (.ofNumber n) hsplit
        obtain ⟨raw, hraw⟩ := Option.isSome_iff_exists.mp htraded
        have hrow : (history m ask.symbol r.upTo (.ofNumber n)).isSome := by
          rw [history, Date.number_ofNumber, if_pos hhigh, hraw]
          rfl
        obtain ⟨shown, hshown⟩ := Option.isSome_iff_exists.mp hrow
        have hafter : last.weekBefore.number ≤ (Date.ofNumber n).number := by
          have hweek := last.weekBefore_le
          have hl := history_lt hg
          rw [Date.number_ofNumber]
          omega
        apply hquiet
        refine List.any_eq_true.mpr ⟨⟨⟨shown, .ofNumber n⟩, m.split ask.symbol (.ofNumber n)⟩,
          mem_answer.mpr ⟨hafter, lt_upTo (history_lt hshown), hshown, rfl⟩, ?_⟩
        simp [TiingoRow.shows, hzero, hsplit]

/-! A dividend a fortnight after the first of two stored days. -/

def january (day : Nat) (h : 1 ≤ day ∧ day ≤ 31) : Date := ⟨2026, 1, day, by decide, h⟩

def paying : Tiingo where
  traded := fun _ d =>
    if d.year = 2026 ∧ d.month = 1 ∧ (d.day = 5 ∨ d.day = 20 ∨ d.day = 21) then
      some ⟨100, 100, 100, 100, 1000⟩ else none
  split := fun _ _ => 1
  dividend := fun _ d => if d.year = 2026 ∧ d.month = 1 ∧ d.day = 21 then 9 / 10 else 1

def paidRuns : List UsRun :=
  [⟨january 20 (by decide), true, [⟨"KO", false, false⟩]⟩,
    ⟨january 21 (by decide), true, [⟨"KO", false, false⟩]⟩]

/-- What is stored after the two runs. -/
def afterPaid : UsWorld := (symbolRefreshes paidRuns).foldl (UsWorld.step paying) noBars

theorem dividend_missed :
    ¬ Throughout paying (FollowsHistory paying) noBars (symbolRefreshes paidRuns) := by
  intro h
  have hstored : (afterPaid.figures "KO" (january 5 (by decide))).map (·.close) = some 100 := by
    decide +kernel
  have hpaid : (history paying "KO" (paidRuns[1]).upTo (january 5 (by decide))).map (·.close) =
      some 90 := by decide +kernel
  obtain ⟨f, hf, hclose⟩ := Option.map_eq_some_iff.mp hstored
  have hcurrent := h.2.1.current (by decide +kernel) (january 5 (by decide)) f hf
  rw [show history paying "KO" (paidRuns[1]).upTo (january 5 (by decide)) = some f from hcurrent,
    Option.map_some, hclose] at hpaid
  revert hpaid
  decide +kernel

end Autora.Prices
