import Mathlib.Algebra.Ring.Nat
import Mathlib.Data.List.MinMax
import Mathlib.Data.List.FinRange
import Mathlib.Data.Rat.Defs

/-! Daily prices of the Taiwan stocks: what one refresh asks of the exchange, month
by month, and the bars it stores. -/

namespace Autora.Prices

/-- A date. Every month has 31 places here; the exchange trades on none of those a
short month lacks. -/
structure Date where
  year : Nat
  month : Nat
  day : Nat
  valid : (1 ≤ month ∧ month ≤ 12) ∧ 1 ≤ day ∧ day ≤ 31
  deriving DecidableEq

namespace Date

/-- The number of the date's month. -/
def months (d : Date) : Nat := 12 * d.year + (d.month - 1)

/-- Dates compare as their year, month and day do, in that order. -/
def number (d : Date) : Nat := 31 * d.months + (d.day - 1)

/-- `date.replace(day=1)` -/
def firstOf (d : Date) : Date where
  year := d.year
  month := d.month
  day := 1
  valid := ⟨d.valid.1, by omega⟩

def ofMonth (d : Date) (i : Fin 31) : Date where
  year := d.year
  month := d.month
  day := i + 1
  valid := ⟨d.valid.1, by omega⟩

def nextMonth (d : Date) : Date where
  year := if d.month = 12 then d.year + 1 else d.year
  month := if d.month = 12 then 1 else d.month + 1
  day := 1
  valid := by
    have hd := d.valid
    split <;> omega

theorem number_inj {d d' : Date} (h : d.number = d'.number) : d = d' := by
  have hd := d.valid
  have hd' := d'.valid
  simp only [number, months] at h
  cases d
  cases d'
  simp only [mk.injEq]
  simp only at h hd hd'
  omega

theorem months_le {d d' : Date} (h : d.number ≤ d'.number) : d.months ≤ d'.months := by
  have hd := d.valid
  have hd' := d'.valid
  simp only [number] at h
  omega

theorem number_lt {d d' : Date} (h : d.months < d'.months) : d.number < d'.number := by
  have hd := d.valid
  simp only [number]
  omega

@[simp] theorem firstOf_months (d : Date) : d.firstOf.months = d.months := rfl

@[simp] theorem ofMonth_months (d : Date) (i : Fin 31) : (d.ofMonth i).months = d.months := rfl

@[simp] theorem nextMonth_months (d : Date) : d.nextMonth.months = d.months + 1 := by
  have hd := d.valid
  simp only [months, nextMonth]
  split <;> omega

/-- Every date of a month is one of its places. -/
theorem exists_ofMonth {d month : Date} (h : d.months = month.months) :
    ∃ i, month.ofMonth i = d := by
  have hd := d.valid
  have hm := month.valid
  refine ⟨⟨d.day - 1, by omega⟩, number_inj ?_⟩
  show 31 * month.months + (d.day - 1 + 1 - 1) = 31 * d.months + (d.day - 1)
  omega

end Date

/-- `while (year, month) <= (last.year, last.month)`, from the month reached. -/
def monthsFrom (last : Date) : Nat → Date → List Date
  | 0, _ => []
  | n + 1, m =>
    if m.year < last.year ∨ m.year = last.year ∧ m.month ≤ last.month
    then m :: monthsFrom last n m.nextMonth
    else []

/-- The first day of every month from `first`'s to `last`'s, in order. -/
def monthsBetween (first last : Date) : List Date :=
  monthsFrom last (last.months + 1 - first.months) first.firstOf

theorem monthsFrom_months (last : Date) (n : Nat) (m : Date) :
    (monthsFrom last n m).map Date.months =
      List.range' m.months (min n (last.months + 1 - m.months)) := by
  have hl := last.valid
  induction n generalizing m with
  | zero => simp [monthsFrom]
  | succ n ih =>
    have hm := m.valid
    unfold monthsFrom
    by_cases hle : m.year < last.year ∨ m.year = last.year ∧ m.month ≤ last.month
    · have hmonths : m.months ≤ last.months := by
        simp only [Date.months]
        omega
      obtain ⟨k, hk⟩ : ∃ k, last.months + 1 - m.months = k + 1 := ⟨last.months - m.months, by omega⟩
      have hrest : last.months + 1 - m.nextMonth.months = k := by
        rw [Date.nextMonth_months]
        omega
      rw [if_pos hle, List.map_cons, ih, hrest, hk, Nat.add_min_add_right, List.range'_succ,
        Date.nextMonth_months]
    · have hmonths : last.months + 1 - m.months = 0 := by
        simp only [Date.months]
        omega
      rw [if_neg hle, hmonths]
      simp

theorem monthsBetween_months (first last : Date) :
    (monthsBetween first last).map Date.months =
      List.range' first.months (last.months + 1 - first.months) := by
  rw [monthsBetween, monthsFrom_months, Date.firstOf_months, Nat.min_self]

/-- `while month < 1: year, month = year - 1, month + 12` -/
def wrapMonth : Nat → Int → Nat × Nat
  | 0, month => (0, if month < 1 then 1 else month.toNat)
  | year + 1, month =>
    if month < 1 then wrapMonth year (month + 12) else (year + 1, month.toNat)

/-- The months wrapped are counted the same; nothing is older than year 0. -/
theorem wrapMonth_months {year : Nat} {month : Int} (h : month ≤ 12) :
    12 * (wrapMonth year month).1 + ((wrapMonth year month).2 - 1) =
      (12 * year + month - 1).toNat := by
  induction year generalizing month with
  | zero =>
    simp only [wrapMonth]
    split <;> omega
  | succ year ih =>
    unfold wrapMonth
    by_cases hm : month < 1
    · rw [if_pos hm, ih (by omega)]
      omega
    · rw [if_neg hm]
      simp only
      omega

theorem wrapMonth_valid {year : Nat} {month : Int} (h : month ≤ 12) :
    1 ≤ (wrapMonth year month).2 ∧ (wrapMonth year month).2 ≤ 12 := by
  induction year generalizing month with
  | zero =>
    simp only [wrapMonth]
    split <;> omega
  | succ year ih =>
    unfold wrapMonth
    by_cases hm : month < 1
    · rw [if_pos hm]
      exact ih (by omega)
    · rw [if_neg hm]
      simp only
      omega

def monthsBack (today : Date) (count : Nat) [NeZero count] : Date where
  year := (wrapMonth today.year (today.month - ((count : Int) - 1))).1
  month := (wrapMonth today.year (today.month - ((count : Int) - 1))).2
  day := 1
  valid := by
    have hd := today.valid
    have hc := NeZero.ne count
    exact ⟨wrapMonth_valid (by omega), by omega⟩

@[simp] theorem monthsBack_months (today : Date) (count : Nat) [NeZero count] :
    (monthsBack today count).months = today.months + 1 - count := by
  have hd := today.valid
  have hc := NeZero.ne count
  have hle : (today.month : Int) - ((count : Int) - 1) ≤ 12 := by omega
  have hw := @wrapMonth_months today.year _ hle
  have hm : (monthsBack today count).months = (12 * (today.year : Int) +
      (today.month - ((count : Int) - 1)) - 1).toNat := hw
  rw [hm, Date.months]
  omega

/-- `FIRST_FILL_MONTHS` -/
def firstFillMonths : Nat := 12

/-- `HISTORY_MONTHS` -/
def historyMonths : Nat := 60

instance : NeZero firstFillMonths := ⟨by decide⟩
instance : NeZero historyMonths := ⟨by decide⟩

structure Figures where
  openAt : Rat
  high : Rat
  low : Rat
  close : Rat
  volume : Int
  deriving DecidableEq

structure Bar extends Figures where
  day : Date
  deriving DecidableEq

structure PriceBar extends Bar where
  market : String
  symbol : String
  source : String
  deriving DecidableEq

/-- What the exchange has on each symbol's trading days. -/
abbrev Exchange := String → Date → Option Figures

/-- One call of `refresh_tw`: its arguments, whether the exchange has today's figures
out already, and which of its requests fail, by their number. -/
structure Run where
  today : Date
  symbols : List String
  exchanges : List (String × String)
  extend : Bool
  closed : Bool
  failed : Nat → Bool

/-- What the exchange has published of a day at the time of the run. -/
def Run.published (r : Run) (ex : Exchange) (symbol : String) (d : Date) : Option Figures :=
  if d.number < r.today.number ∨ r.closed ∧ d = r.today then ex symbol d else none

/-- The exchange's answer for one month. -/
def Run.answer (r : Run) (ex : Exchange) (symbol : String) (month : Date) : List Bar :=
  (List.finRange 31).filterMap fun i =>
    (r.published ex symbol (month.ofMonth i)).map fun f => ⟨f, month.ofMonth i⟩

/-- One month's bars; none when it could not be read. -/
def Run.monthOf (r : Run) (ex : Exchange) (symbol : String) (month : Date) (requests : Nat) :
    Option (List Bar) :=
  if r.failed requests then none else some (r.answer ex symbol month)

def PriceBar.isAt (p : PriceBar) (market symbol : String) (day : Date) : Bool :=
  p.market = market && p.symbol = symbol && p.day = day

/-- Insert, or on a conflict of market, symbol and day update. -/
def upsert (row : PriceBar) : List PriceBar → List PriceBar
  | [] => [row]
  | p :: ps =>
    if p.isAt row.market row.symbol row.day then row :: ps else p :: upsert row ps

/-- `_store` -/
def store (table : List PriceBar) (market symbol : String) (bars : List Bar) (source : String) :
    List PriceBar :=
  bars.foldl (fun t b => upsert ⟨b, market, symbol, source⟩ t) table

/-- The table, with the requests made and the bars written so far in the run. -/
structure Refreshing where
  table : List PriceBar
  requests : Nat
  written : Nat

/-- One more request answered and its bars stored. -/
def Refreshing.keep (st : Refreshing) (symbol source : String) (bars : List Bar) : Refreshing where
  table := store st.table "tw" symbol bars source
  requests := st.requests + 1
  written := st.written + bars.length

def days (table : List PriceBar) (market symbol : String) : List Date :=
  (table.filter fun p => p.market = market && p.symbol = symbol).map (·.day)

def firstDay (table : List PriceBar) (symbol : String) : Option Date :=
  (days table "tw" symbol).argmin Date.number

def lastDay (table : List PriceBar) (symbol : String) : Option Date :=
  (days table "tw" symbol).argmax Date.number

/-- A stored day's figures. -/
def figures? (table : List PriceBar) (symbol : String) (d : Date) : Option Figures :=
  (table.find? fun p => p.isAt "tw" symbol d).map (·.toFigures)

theorem PriceBar.isAt_iff {p : PriceBar} {market symbol : String} {d : Date} :
    p.isAt market symbol d ↔ p.market = market ∧ p.symbol = symbol ∧ p.day = d := by
  simp [PriceBar.isAt, and_assoc]

/-- A stored day's figures on any market. -/
def figuresAt (table : List PriceBar) (market symbol : String) (d : Date) : Option Figures :=
  (table.find? fun p => p.isAt market symbol d).map (·.toFigures)

theorem figuresAt_upsert (row : PriceBar) (table : List PriceBar) (market symbol : String)
    (d : Date) : figuresAt (upsert row table) market symbol d =
      if row.isAt market symbol d then some row.toFigures else figuresAt table market symbol d := by
  induction table with
  | nil =>
    simp only [upsert, figuresAt, List.find?_cons, List.find?_nil]
    cases row.isAt market symbol d <;> rfl
  | cons p ps ih =>
    simp only [figuresAt] at ih
    unfold upsert
    by_cases hp : p.isAt row.market row.symbol row.day
    · have hsame : p.isAt market symbol d = row.isAt market symbol d := by
        obtain ⟨hm, hs, hd⟩ := PriceBar.isAt_iff.mp hp
        simp only [PriceBar.isAt, hm, hs, hd]
      rw [if_pos hp]
      simp only [figuresAt, List.find?_cons, hsame]
      cases row.isAt market symbol d <;> rfl
    · rw [if_neg hp]
      simp only [figuresAt, List.find?_cons]
      cases hat : p.isAt market symbol d with
      | false => exact ih
      | true =>
        have hrow : ¬ row.isAt market symbol d := by
          intro hrow
          obtain ⟨hm, hs, hd⟩ := PriceBar.isAt_iff.mp hat
          obtain ⟨hm', hs', hd'⟩ := PriceBar.isAt_iff.mp hrow
          exact hp (PriceBar.isAt_iff.mpr ⟨hm.trans hm'.symm, hs.trans hs'.symm, hd.trans hd'.symm⟩)
        rw [if_neg hrow]

theorem figuresAt_store_other {market s symbol : String} (hs : s ≠ symbol) (bars : List Bar)
    (source : String) (table : List PriceBar) (d : Date) :
    figuresAt (store table market symbol bars source) market s d = figuresAt table market s d := by
  induction bars generalizing table with
  | nil => rfl
  | cons b bars ih =>
    have hrow : ¬ (PriceBar.mk b market symbol source).isAt market s d :=
      fun h => hs (PriceBar.isAt_iff.mp h).2.1.symm
    refine (ih _).trans ?_
    rw [figuresAt_upsert, if_neg hrow]

/-- Where the bars are a day's figures by `given`, so is what is stored of their days. -/
theorem figuresAt_store {market symbol : String} {bars : List Bar} {given : Date → Option Figures}
    (hbars : ∀ b ∈ bars, given b.day = some b.toFigures) (source : String)
    (table : List PriceBar) (d : Date) :
    figuresAt (store table market symbol bars source) market symbol d =
      if d ∈ bars.map (·.day) then given d else figuresAt table market symbol d := by
  induction bars generalizing table with
  | nil => simp [store]
  | cons b bars ih =>
    refine (ih (fun b' hb' => hbars b' (List.mem_cons_of_mem _ hb')) _).trans ?_
    by_cases hd : d ∈ bars.map (·.day)
    · rw [if_pos hd, if_pos (by simp [hd])]
    · rw [if_neg hd, figuresAt_upsert]
      by_cases hb : b.day = d
      · rw [if_pos (PriceBar.isAt_iff.mpr ⟨rfl, rfl, hb⟩), if_pos (by simp [hb]), ← hb,
          hbars b (by simp)]
      · rw [if_neg (fun h => hb (PriceBar.isAt_iff.mp h).2.2),
          if_neg (by simpa [Ne.symm hb] using hd)]

theorem figures?_store_other {s symbol : String} (hs : s ≠ symbol) (bars : List Bar)
    (source : String) (table : List PriceBar) (d : Date) :
    figures? (store table "tw" symbol bars source) s d = figures? table s d :=
  figuresAt_store_other hs bars source table d

theorem figures?_store {symbol : String} {bars : List Bar} {given : Date → Option Figures}
    (hbars : ∀ b ∈ bars, given b.day = some b.toFigures) (source : String)
    (table : List PriceBar) (d : Date) :
    figures? (store table "tw" symbol bars source) symbol d =
      if d ∈ bars.map (·.day) then given d else figures? table symbol d :=
  figuresAt_store hbars source table d

theorem Run.mem_answer {r : Run} {ex : Exchange} {symbol : String} {month : Date} {b : Bar} :
    b ∈ r.answer ex symbol month ↔
      b.day.months = month.months ∧ r.published ex symbol b.day = some b.toFigures := by
  simp only [Run.answer, List.mem_filterMap, List.mem_finRange, true_and, Option.map_eq_some_iff]
  constructor
  · rintro ⟨i, f, hf, rfl⟩
    exact ⟨rfl, hf⟩
  · rintro ⟨hm, hf⟩
    obtain ⟨i, hi⟩ := Date.exists_ofMonth hm
    exact ⟨i, b.toFigures, hi ▸ hf, by rw [hi]⟩

theorem Run.mem_answer_days {r : Run} {ex : Exchange} {symbol : String} {month d : Date} :
    d ∈ (r.answer ex symbol month).map (·.day) ↔
      d.months = month.months ∧ (r.published ex symbol d).isSome := by
  simp only [List.mem_map, Run.mem_answer]
  constructor
  · rintro ⟨b, ⟨hm, hf⟩, rfl⟩
    exact ⟨hm, by simp [hf]⟩
  · rintro ⟨hm, hsome⟩
    obtain ⟨f, hf⟩ := Option.isSome_iff_exists.mp hsome
    exact ⟨⟨f, d⟩, ⟨hm, hf⟩, rfl⟩

theorem mem_days {table : List PriceBar} {symbol : String} {d : Date} :
    d ∈ days table "tw" symbol ↔ (figures? table symbol d).isSome := by
  simp only [days, figures?, Option.isSome_map, List.find?_isSome, List.mem_map, List.mem_filter,
    PriceBar.isAt_iff, Bool.and_eq_true, decide_eq_true_eq, and_assoc]

theorem firstDay_some {table : List PriceBar} {symbol : String} {first : Date}
    (h : firstDay table symbol = some first) :
    (figures? table symbol first).isSome ∧
      ∀ d, (figures? table symbol d).isSome → first.months ≤ d.months :=
  ⟨mem_days.mp (List.argmin_mem h),
    fun _ hd => Date.months_le (List.le_of_mem_argmin (mem_days.mpr hd) h)⟩

theorem lastDay_some {table : List PriceBar} {symbol : String} {last : Date}
    (h : lastDay table symbol = some last) :
    (figures? table symbol last).isSome ∧
      ∀ d, (figures? table symbol d).isSome → d.months ≤ last.months :=
  ⟨mem_days.mp (List.argmax_mem h),
    fun _ hd => Date.months_le (List.le_of_mem_argmax (mem_days.mpr hd) h)⟩

theorem firstDay_none {table : List PriceBar} {symbol : String}
    (h : firstDay table symbol = none) (d : Date) : ¬ (figures? table symbol d).isSome := by
  have hnil := List.argmin_eq_none.mp h
  rw [← mem_days, hnil]
  simp

theorem lastDay_none {table : List PriceBar} {symbol : String}
    (h : lastDay table symbol = none) (d : Date) : ¬ (figures? table symbol d).isSome := by
  have hnil := List.argmax_eq_none.mp h
  rw [← mem_days, hnil]
  simp

section
variable (ex : Exchange) (r : Run) (symbol : String)

def Run.source : String := (r.exchanges.lookup symbol).getD "TWSE"

/-- The months from the last stored day's on. -/
def fillForward : List Date → Refreshing → Refreshing
  | [], st => st
  | month :: months, st =>
    let bars := r.monthOf ex symbol month st.requests
    fillForward months (st.keep symbol (r.source symbol) (bars.getD []))

/-- The months before the first stored day's, newest first. -/
def walkBack : List Date → Refreshing → Refreshing
  | [], st => st
  | month :: months, st =>
    let bars := r.monthOf ex symbol month st.requests
    if bars = some [] then st.keep symbol (r.source symbol) []  -- not listed yet
    else walkBack months (st.keep symbol (r.source symbol) (bars.getD []))

def Run.horizon : Date := monthsBack r.today historyMonths

/-- The months the first pass asks for. -/
def forwardMonths (table : List PriceBar) : List Date :=
  monthsBetween ((lastDay table symbol).getD (monthsBack r.today firstFillMonths)) r.today

/-- The months the second pass may ask for. -/
def backMonths (first : Option Date) : List Date :=
  match first with
  | none => []
  | some first =>
    if r.extend ∧ r.horizon.number < first.firstOf.number
    then (monthsBetween r.horizon first.firstOf).dropLast.reverse
    else []

def refreshSymbol (st : Refreshing) : Refreshing :=
  let first := firstDay st.table symbol
  let filled := fillForward ex r symbol (forwardMonths r symbol st.table) st
  let first := first.or (firstDay filled.table symbol)
  walkBack ex r symbol (backMonths r first) filled

end

/-- `refresh_tw`: the table, and how many bars were written. -/
def refreshTw (ex : Exchange) (r : Run) (table : List PriceBar) : List PriceBar × Nat :=
  let st := r.symbols.foldl (fun st symbol => refreshSymbol ex r symbol st) ⟨table, 0, 0⟩
  (st.table, st.written)

end Autora.Prices
