import Mathlib.Order.Basic

/-! The calendar, walked month by month from the first of January 1970. -/

namespace Calendars

def isLeap (year : Nat) : Bool :=
  year % 4 = 0 && (year % 100 ≠ 0 || year % 400 = 0)

def daysInMonth (year month : Nat) : Nat :=
  if month = 2 then if isLeap year then 29 else 28
  else if month = 4 ∨ month = 6 ∨ month = 9 ∨ month = 11 then 30
  else 31

/-- A month by the number of its first day. -/
structure Month where
  year : Nat
  month : Nat
  firstDay : Nat
  deriving DecidableEq, Repr

def Month.next (m : Month) : Month where
  year := if m.month = 12 then m.year + 1 else m.year
  month := if m.month = 12 then 1 else m.month + 1
  firstDay := m.firstDay + daysInMonth m.year m.month

def epoch : Month := ⟨1970, 1, 0⟩

/-- The month of a day, starting from a month that is not later; the fuel counts months. -/
def walk : Nat → Month → Nat → Month
  | 0, m, _ => m
  | n + 1, m, day => if day < m.next.firstDay then m else walk n m.next day

def monthOf (day : Nat) : Month := walk day epoch day

theorem one_le_daysInMonth (year month : Nat) : 1 ≤ daysInMonth year month := by
  unfold daysInMonth
  split
  · split <;> omega
  · split <;> omega

theorem Month.firstDay_lt_next (m : Month) : m.firstDay < m.next.firstDay := by
  have h := one_le_daysInMonth m.year m.month
  simp only [Month.next]
  omega

/-- The first day of a later day's month is not earlier. -/
theorem walk_firstDay_mono {n n' : Nat} {m : Month} {day day' : Nat} (hn : n ≤ n')
    (hd : day ≤ day') : (walk n m day).firstDay ≤ (walk n' m day').firstDay := by
  have hle : ∀ (k : Nat) (m : Month) (d : Nat), m.firstDay ≤ (walk k m d).firstDay := by
    intro k
    induction k with
    | zero => exact fun m d => Nat.le_refl _
    | succ k ih =>
      intro m d
      unfold walk
      split
      · exact Nat.le_refl _
      · have h := m.firstDay_lt_next
        have hh := ih m.next d
        omega
  induction n generalizing n' m with
  | zero => exact hle n' m day'
  | succ n ih =>
    obtain ⟨k, rfl⟩ : ∃ k, n' = k + 1 := ⟨n' - 1, by omega⟩
    unfold walk
    by_cases h : day < m.next.firstDay
    · rw [if_pos h]
      split
      · exact Nat.le_refl _
      · have hlt := m.firstDay_lt_next
        have hh := hle k m.next day'
        omega
    · rw [if_neg h, if_neg (by omega)]
      exact ih (by omega)

/-- With enough fuel the walk stops in the month of the day. -/
theorem lt_walk_next {n : Nat} {m : Month} {day : Nat} (h : day ≤ m.firstDay + n) :
    day < (walk n m day).next.firstDay := by
  induction n generalizing m with
  | zero =>
    have hm := m.firstDay_lt_next
    simp only [walk]
    omega
  | succ n ih =>
    unfold walk
    split
    · assumption
    · have hm := m.firstDay_lt_next
      exact ih (by omega)

theorem lt_monthOf_next (day : Nat) : day < (monthOf day).next.firstDay := by
  apply lt_walk_next
  omega

/-- The month `n` months later. -/
def Month.later (m : Month) : Nat → Month
  | 0 => m
  | n + 1 => m.next.later n

theorem Month.firstDay_le_later (m : Month) (n : Nat) : m.firstDay ≤ (m.later n).firstDay := by
  induction n generalizing m with
  | zero => exact Nat.le_refl _
  | succ n ih =>
    have hm := m.firstDay_lt_next
    have hn := ih m.next
    simp only [Month.later]
    omega

/-- The same day of a later month, or that month's last day when it is too short. -/
def addMonths (n day : Nat) : Nat :=
  let m := (monthOf day).later n
  m.firstDay + min (day - (monthOf day).firstDay) (daysInMonth m.year m.month - 1)

theorem lt_addMonths {n : Nat} (hn : 0 < n) (day : Nat) : day < addMonths n day := by
  obtain ⟨k, rfl⟩ : ∃ k, n = k + 1 := ⟨n - 1, by omega⟩
  have hlt := lt_monthOf_next day
  have hle := (monthOf day).next.firstDay_le_later k
  show day < ((monthOf day).next.later k).firstDay + _
  omega

/-- The text of a number with at least `width` digits. -/
def digits (width n : Nat) : String :=
  let s := toString n
  String.ofList (List.replicate (width - s.length) '0') ++ s

end Calendars
