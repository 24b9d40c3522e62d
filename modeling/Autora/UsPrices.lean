import Mathlib.Algebra.BigOperators.Intervals
import Mathlib.Data.Rat.Floor
import Mathlib.Tactic.Ring
import Autora.Lib.Calendars
import Autora.PriceHistory

/-! Daily prices of the US stocks: the provider's history is adjusted for every split and dividend
so far, a refresh asks for its last week and for all of it when that week shows a split. -/

namespace Autora.Prices

namespace Date

/-- The day before, in the calendar; nothing is older than year 0. -/
def pred (d : Date) : Date :=
  if h : 1 < d.day then ⟨d.year, d.month, d.day - 1, by have := d.valid; omega⟩
  else if h : 1 < d.month then
    ⟨d.year, d.month - 1, Calendars.daysInMonth d.year (d.month - 1), by
      have hd := d.valid
      have hle := Calendars.one_le_daysInMonth d.year (d.month - 1)
      have hmax : Calendars.daysInMonth d.year (d.month - 1) ≤ 31 := by
        rw [Calendars.daysInMonth]
        split
        · split <;> omega
        · split <;> omega
      omega⟩
  else if d.year = 0 then d
  else ⟨d.year - 1, 12, 31, by omega⟩

/-- `d - timedelta(days=7)` -/
def weekBefore (d : Date) : Date := d.pred.pred.pred.pred.pred.pred.pred

/-- The date with a number. -/
def ofNumber (n : Nat) : Date where
  year := n / 31 / 12
  month := n / 31 % 12 + 1
  day := n % 31 + 1
  valid := by omega

@[simp] theorem number_ofNumber (n : Nat) : (ofNumber n).number = n := by
  simp only [number, months, ofNumber]
  omega

@[simp] theorem ofNumber_number (d : Date) : ofNumber d.number = d :=
  number_inj (number_ofNumber d.number)

theorem pred_le (d : Date) : d.pred.number ≤ d.number := by
  have hd := d.valid
  rw [pred]
  split
  · simp only [number, months]
    omega
  · split
    · next hmonth =>
      apply Nat.le_of_lt
      apply number_lt
      simp only [months]
      omega
    · split
      · exact Nat.le_refl _
      · next hmonth hyear =>
        apply Nat.le_of_lt
        apply number_lt
        simp only [months]
        omega

theorem weekBefore_le (d : Date) : d.weekBefore.number ≤ d.number :=
  (pred_le _).trans ((pred_le _).trans ((pred_le _).trans ((pred_le _).trans
    ((pred_le _).trans ((pred_le _).trans (pred_le d))))))

end Date

/-- What a US stock's raw prices are, and what its splits and dividends do to earlier ones. -/
structure Tiingo where
  traded : String → Date → Option Figures
  /-- `splitFactor`: how many shares one becomes on a day. -/
  split : String → Date → Rat
  /-- What a dividend of a day multiplies all earlier prices by. -/
  dividend : String → Date → Rat

structure TiingoRow extends Bar where
  splitFactor : Rat

structure Ask where
  symbol : String
  /-- Whether the request for the window fails, and the one for everything. -/
  windowFails : Bool
  fullFails : Bool

structure UsRun where
  today : Date
  /-- Whether the provider has today's bar already. -/
  closed : Bool
  asks : List Ask

/-- The days before this number are published. -/
def UsRun.upTo (r : UsRun) : Nat := r.today.number + if r.closed then 1 else 0

section
variable (m : Tiingo) (symbol : String)

/-- What prices before a day are multiplied by for what happens up to another. -/
def priceFactor (since upTo : Nat) : Rat :=
  ∏ n ∈ Finset.Ico since upTo, m.dividend symbol (.ofNumber n) / m.split symbol (.ofNumber n)

def shareFactor (since upTo : Nat) : Rat :=
  ∏ n ∈ Finset.Ico since upTo, m.split symbol (.ofNumber n)

def Figures.scaled (f : Figures) (price shares : Rat) : Figures where
  openAt := f.openAt * price
  high := f.high * price
  low := f.low * price
  close := f.close * price
  volume := ⌊f.volume * shares⌋

/-- The provider's bar of a day, adjusted for everything before `upTo`. -/
def history (upTo : Nat) (d : Date) : Option Figures :=
  if d.number < upTo then
    (m.traded symbol d).map fun f => f.scaled (priceFactor m symbol (d.number + 1) upTo)
      (shareFactor m symbol (d.number + 1) upTo)
  else none

/-- The rows from a day to today. -/
def UsRun.answer (r : UsRun) (start : Date) : List TiingoRow :=
  (List.range' start.number (r.today.number + 1 - start.number)).filterMap fun n =>
    (history m symbol r.upTo (.ofNumber n)).map fun f =>
      ⟨⟨f, .ofNumber n⟩, m.split symbol (.ofNumber n)⟩

end

def UsRun.horizon (r : UsRun) : Date := monthsBack r.today historyMonths

/-- `float(r.get("splitFactor") or 1) != 1` -/
def TiingoRow.shows (row : TiingoRow) : Bool :=
  (if row.splitFactor = 0 then 1 else row.splitFactor) ≠ 1

def daysOf (table : List PriceBar) (symbol : String) : List Date := days table "us" symbol

/-- The rows one symbol's requests bring; none where one of them fails. -/
def UsRun.rows (m : Tiingo) (r : UsRun) (table : List PriceBar) (ask : Ask) :
    Option (List TiingoRow) :=
  let last := (daysOf table ask.symbol).argmax Date.number
  let start := (last.map Date.weekBefore).getD r.horizon
  if ask.windowFails then none
  else
    let rows := r.answer m ask.symbol start
    if last.isSome ∧ rows.any (·.shows) then
      if ask.fullFails then none else some (r.answer m ask.symbol r.horizon)
    else some rows

/-- One symbol's refresh. -/
def refreshSymbolUs (m : Tiingo) (r : UsRun) (table : List PriceBar) (ask : Ask) :
    List PriceBar × Nat :=
  match r.rows m table ask with
  | none => (table, 0)
  | some rows => (store table "us" ask.symbol (rows.map (·.toBar)) "Tiingo", rows.length)

/-- `refresh_us`: the table, and how many bars were written. -/
def refreshUs (m : Tiingo) (r : UsRun) (table : List PriceBar) : List PriceBar × Nat :=
  r.asks.foldl (fun done ask =>
    let (table, written) := refreshSymbolUs m r done.1 ask
    (table, done.2 + written)) (table, 0)

end Autora.Prices
