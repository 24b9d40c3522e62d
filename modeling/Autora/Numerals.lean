import Autora.Lib.Calendars
import Autora.Lib.Scans

/-! The numbers a text states, as the fact-check reads them. -/

namespace Autora.FactCheck

open Untyped Texts Scans

/-- The floating-point numbers and what is asked of them; `parse` reads digits with at most one
point between them. -/
structure Floats (F : Type) where
  parse : Str → F
  ofNat : Nat → F
  mul : F → F → F
  isclose : F → F → Bool
  round : F → Nat → F
  eq : F → F → Bool

/-! `_NUMBER` and `_GLUED`, which differ in what may not stand before. -/

structure Numeral where
  whole : Str
  fraction : Str
  scale : Str
  deriving DecidableEq, Repr

def scaleWords : List Str :=
  [lit "thousand", lit "millions", lit "million", lit "billions", lit "billion", lit "trillion",
    lit "千", lit "萬", lit "万", lit "億", lit "亿", lit "兆"]

/-- `_SCALE`. -/
def scaleOf (s : Str) : Option Nat :=
  if s = lit "thousand" then some 1000
  else if s = lit "million" then some 1000000
  else if s = lit "millions" then some 1000000
  else if s = lit "billion" then some 1000000000
  else if s = lit "billions" then some 1000000000
  else if s = lit "trillion" then some 1000000000000
  else if s = lit "千" then some 1000
  else if s = lit "萬" then some 10000
  else if s = lit "万" then some 10000
  else if s = lit "億" then some 100000000
  else if s = lit "亿" then some 100000000
  else if s = lit "兆" then some 1000000000000
  else none

section

variable {F : Type} (u : Characters) (floats : Floats F)

/-- How many groups of a comma and three digits a text begins with. -/
def groups : Str → Nat
  | 44 :: a :: b :: c :: s =>
    if u.isDigit a && u.isDigit b && u.isDigit c then groups s + 1 else 0
  | _ => 0

/-- `\d{1,3}(?:,\d{3})+|\d+` -/
def wholePart (s : Str) : Str :=
  let run := (u.digits s).length
  if run ≤ 3 then s.take (run + 4 * groups u (s.drop run)) else s.take run

def numeralAt (s : Str) : Option (Numeral × Nat) :=
  if u.digits s = [] then none
  else
    let whole := wholePart u s
    let s := s.drop whole.length
    let fraction := fractionPart u s
    let s := s.drop fraction.length
    let gap := spaces s
    let scale := (oneOf scaleWords (s.drop gap.length)).getD []
    some (⟨whole, fraction, scale⟩,
      whole.length + fraction.length + gap.length + scale.length)

/-- `[A-Za-z0-9.]`, where case does not count. -/
def letterOrDigit (c : Nat) : Bool :=
  (97 ≤ fold c && fold c ≤ 122) || (48 ≤ c && c ≤ 57) || c = 46

def numeral (prev : Option Nat) (s : Str) : Option (Numeral × Nat) :=
  if prev.any letterOrDigit then none else numeralAt u s

def glued (prev : Option Nat) (s : Str) : Option (Numeral × Nat) :=
  if prev.any fun c => (48 ≤ c && c ≤ 57) || c = 46 then none else numeralAt u s

/-- A scale word the table lacks counts as one. -/
def value (n : Numeral) : F :=
  let value := floats.parse (n.whole.filter (· ≠ 44) ++ n.fraction)
  if n.scale = [] then value
  else floats.mul value (floats.ofNat ((scaleOf (lower n.scale)).getD 1))

def numbers (text : Str) : List F := (findall (numeral u) text).map (value floats)

/-! Numbers in words and months. -/

/-- `_WORDS`. -/
def numberWords : List (Str × Nat) :=
  [(lit "one", 1), (lit "two", 2), (lit "three", 3), (lit "four", 4), (lit "five", 5),
    (lit "six", 6), (lit "seven", 7), (lit "eight", 8), (lit "nine", 9), (lit "ten", 10),
    (lit "eleven", 11), (lit "twelve", 12), (lit "thirteen", 13), (lit "fourteen", 14),
    (lit "fifteen", 15), (lit "sixteen", 16), (lit "seventeen", 17), (lit "eighteen", 18),
    (lit "nineteen", 19), (lit "twenty", 20), (lit "thirty", 30), (lit "forty", 40),
    (lit "fifty", 50), (lit "sixty", 60), (lit "seventy", 70), (lit "eighty", 80),
    (lit "ninety", 90), (lit "dozen", 12)]

def units : List Str :=
  [lit "one", lit "two", lit "three", lit "four", lit "five", lit "six", lit "seven",
    lit "eight", lit "nine"]

/-- `_MONTHS`. -/
def monthNumbers : List (Str × Nat) :=
  [(lit "jan", 1), (lit "feb", 2), (lit "mar", 3), (lit "apr", 4), (lit "may", 5), (lit "jun", 6),
    (lit "jul", 7), (lit "aug", 8), (lit "sep", 9), (lit "oct", 10), (lit "nov", 11),
    (lit "dec", 12)]

def monthNames : List Str :=
  [lit "january", lit "jan", lit "february", lit "feb", lit "march", lit "mar", lit "april",
    lit "apr", lit "may", lit "june", lit "jun", lit "july", lit "jul", lit "august", lit "aug",
    lit "september", lit "sept", lit "sep", lit "october", lit "oct", lit "november", lit "nov",
    lit "december", lit "dec"]

/-- `(?:-(one|two|three|four|five|six|seven|eight|nine))?` -/
def unitAfter : Str → Option Str
  | 45 :: s => wholeWord u units s
  | _ => none

/-- `_WORD`: the word with the unit after it. -/
def wordAt (prev : Option Nat) (s : Str) : Option ((Str × Str) × Nat) :=
  if u.boundary prev s then
    (wholeWord u (numberWords.map Prod.fst) s).map fun word =>
      match unitAfter u (s.drop word.length) with
      | some unit => ((word, unit), word.length + 1 + unit.length)
      | none => ((word, []), word.length)
  else none

/-- `_MONTH`. -/
def monthAt (prev : Option Nat) (s : Str) : Option (Str × Nat) :=
  if u.boundary prev s then
    (wholeWord u monthNames s).map fun month =>
      (month, month.length + if (s.drop month.length).head? = some 46 then 1 else 0)
  else none

def unitValue (unit : Str) : Except Error Nat :=
  if unit = [] then .ok 0 else lookup numberWords (lower unit)

def wordValue (w : Str × Str) : Except Error Nat := do
  let n ← lookup numberWords (lower w.1)
  let unit ← unitValue w.2
  pure (n + unit)

def monthValue (month : Str) : Except Error Nat := lookup monthNumbers ((lower month).take 3)

/-! Chinese numerals. -/

/-- `_CN_DIGITS`. -/
def chineseDigit (c : Nat) : Option Nat :=
  ([(lit "零", 0), (lit "〇", 0), (lit "一", 1), (lit "二", 2), (lit "兩", 2), (lit "两", 2),
    (lit "三", 3), (lit "四", 4), (lit "五", 5), (lit "六", 6), (lit "七", 7), (lit "八", 8),
    (lit "九", 9)] : List (Str × Nat)).lookup [c]

def ten : Nat := 0x5341

def hundred : Nat := 0x767E

def chineseNumeral (c : Nat) : Bool := (chineseDigit c).isSome || c = ten || c = hundred

/-- `_CN`. -/
def chineseAt (_ : Option Nat) (s : Str) : Option (Str × Nat) :=
  let run := (s.takeWhile chineseNumeral).take 5
  if run = [] then none else some (run, run.length)

/-- The loop of `_chinese`. -/
def chineseFrom (total current : Nat) : Str → Nat
  | [] => total + current
  | c :: s => match chineseDigit c with
    | some d => chineseFrom total d s
    | none =>
      if c = ten then chineseFrom (total + (if current = 0 then 1 else current) * 10) 0 s
      else if c = hundred then
        chineseFrom (total + (if current = 0 then 1 else current) * 100) 0 s
      else chineseFrom total current s

/-- `_chinese`. -/
def chinese (run : Str) : Option Nat :=
  let value := chineseFrom 0 0 run
  if value ≠ 0 || run.any fun c => c ∈ lit "零〇" then some value else none

def quoteNumbers (text : Str) : Except Error (List F) := do
  let values := numbers u floats text ++ (findall (glued u) text).map (value floats)
  let words ← (findall (wordAt u) text).mapM wordValue
  let months ← (findall (monthAt u) text).mapM monthValue
  let runs := (findall chineseAt text).filterMap chinese
  pure (values ++ (words ++ months ++ runs).map floats.ofNat)

def claimNumbers (text : Str) : List (F × Nat) :=
  (findall (numeral u) text).map fun n =>
    (value floats n, if n.fraction ≠ [] ∧ n.scale = [] then n.fraction.length - 1 else 0)

/-! Dates. -/

/-- `\d{n}` -/
def fixed (n : Nat) (s : Str) : Option Str :=
  if (s.take n).length = n ∧ (s.take n).all u.isDigit then some (s.take n) else none

/-- So many digits, whitespace and a mark; the first of the numbers of digits that matches. -/
def marked (ns : List Nat) (mark : Nat) (s : Str) : Option (List Str × Nat) :=
  ns.findSome? fun n => (fixed u n s).bind fun digits =>
    let gap := spaces (s.drop n)
    if (s.drop (n + gap.length)).head? = some mark then some ([digits], n + gap.length + 1)
    else none

/-- `(?<!\d)((?:19|20)\d{2})(?!\d)` -/
def yearAlone (prev : Option Nat) (s : Str) : Option (List Str × Nat) :=
  if prev.any u.isDigit then none
  else if s.take 2 ≠ lit "19" ∧ s.take 2 ≠ lit "20" then none
  else (fixed u 2 (s.drop 2)).bind fun _ =>
    if (s.drop 4).head?.any u.isDigit then none else some ([s.take 4], 4)

/-- `(\d{4})-(\d{1,2})-(\d{1,2})` -/
def dashed (s : Str) : Option (List Str × Nat) :=
  (fixed u 4 s).bind fun year =>
    [2, 1].findSome? fun m => (fixed u m (s.drop 5)).bind fun month =>
      [2, 1].findSome? fun d => (fixed u d (s.drop (6 + m))).bind fun day =>
        if s[4]? = some 45 ∧ s[5 + m]? = some 45 then some ([year, month, day], 6 + m + d)
        else none

/-- `_DATE_PARTS`. -/
def datePartsAt (prev : Option Nat) (s : Str) : Option (List Str × Nat) :=
  (marked u [4] 0x5E74 s).or <| (marked u [2, 1] 0x6708 s).or <|
    (marked u [2, 1] 0x65E5 s).or <| (yearAlone u prev s).or (dashed u s)

/-- `(?:,\s*(\d{4}))?` -/
def yearAfter : Str → Option (Str × Nat)
  | 44 :: s => (fixed u 4 (s.drop (spaces s).length)).map fun year =>
    (year, 1 + (spaces s).length + 4)
  | _ => none

/-- `_EN_DATE`. -/
def englishDateAt (prev : Option Nat) (s : Str) : Option (List Str × Nat) :=
  if u.boundary prev s then
    (oneOf (monthNumbers.map Prod.fst) s).bind fun month =>
      let letters := (s.drop month.length).takeWhile fun c => 97 ≤ fold c && fold c ≤ 122
      let named := month.length + letters.length
      let named := named + if (s.drop named).head? = some 46 then 1 else 0
      let gap := spaces (s.drop named)
      if gap = [] then none
      else [2, 1].findSome? fun d => (fixed u d (s.drop (named + gap.length))).map fun day =>
        match yearAfter u (s.drop (named + gap.length + d)) with
        | some (year, n) => ([day, year], named + gap.length + d + n)
        | none => ([day], named + gap.length + d)
  else none

def claimDateParts (text : Str) : List F :=
  ((findall (datePartsAt u) text).flatten ++ (findall (englishDateAt u) text).flatten).map
    floats.parse

end

structure Date where
  year : Nat
  month : Nat
  day : Nat
  valid : (1 ≤ year ∧ year ≤ 9999) ∧ (1 ≤ month ∧ month ≤ 12) ∧
    1 ≤ day ∧ day ≤ Calendars.daysInMonth year month
  deriving DecidableEq

/-- `date.min`. -/
def Date.min : Date := ⟨1, 1, 1, by decide⟩

/-- `d - timedelta(days=1)`. -/
def Date.yesterday (d : Date) : Except Error Date :=
  if hd : 1 < d.day then
    .ok ⟨d.year, d.month, d.day - 1, d.valid.1, d.valid.2.1, by have := d.valid.2.2; omega⟩
  else if hm : 1 < d.month then
    .ok ⟨d.year, d.month - 1, Calendars.daysInMonth d.year (d.month - 1), d.valid.1,
      by have := d.valid.2.1; omega, Calendars.one_le_daysInMonth _ _, Nat.le_refl _⟩
  else if hy : 1 < d.year then
    .ok ⟨d.year - 1, 12, 31, by have := d.valid.1; omega, by omega, by omega, Nat.le_refl 31⟩
  else .error .overflowError

def Date.parts (d : Date) : List Nat := [d.year, d.month, d.day]

def dated {F : Type} (floats : Floats F) (dates : List Date) : Except Error (List F) := do
  let days ← dates.mapM fun d => do
    let before ← d.yesterday
    pure (d.parts ++ before.parts)
  pure (days.flatten.map floats.ofNat)

theorem yesterday_succeeds {d : Date} : Succeeds d.yesterday ↔ d ≠ Date.min := by
  unfold Date.yesterday
  obtain ⟨year, month, day, hy, hm, hd⟩ := d
  simp only [Date.min, ne_eq, Date.mk.injEq]
  split
  · simp only [succeeds_ok, true_iff]
    omega
  · split
    · simp only [succeeds_ok, true_iff]
      omega
    · split
      · simp only [succeeds_ok, true_iff]
        omega
      · simp only [not_succeeds_error, false_iff]
        omega

/-! What can be read: a word that is spelled with a letter beyond ASCII is in no table. -/

section

variable {F : Type} {u : Characters} {floats : Floats F} {text : Str}

/-- The number words and the names of the months that are found have letters of ASCII only. -/
def AsciiWords (u : Characters) (text : Str) : Prop :=
  (∀ w ∈ findall (wordAt u) text, ∀ c ∈ w.1 ++ w.2, c < 128) ∧
    ∀ month ∈ findall (monthAt u) text, ∀ c ∈ month.take 3, c < 128

theorem wordAt_mem {prev : Option Nat} {s : Str} {w : Str × Str} {n : Nat}
    (h : wordAt u prev s = some (w, n)) :
    w.1.map fold ∈ numberWords.map Prod.fst ∧ (w.2 = [] ∨ w.2.map fold ∈ units) := by
  unfold wordAt at h
  split at h
  · obtain ⟨word, hw, he⟩ := Option.map_eq_some_iff.mp h
    have hword := wholeWord_mem hw
    split at he
    · next unit hu =>
      cases he
      refine ⟨hword, Or.inr ?_⟩
      unfold unitAfter at hu
      split at hu
      · exact wholeWord_mem hu
      · cases hu
    · cases he
      exact ⟨hword, Or.inl rfl⟩
  · cases h

theorem monthAt_mem {prev : Option Nat} {s month : Str} {n : Nat}
    (h : monthAt u prev s = some (month, n)) : month.map fold ∈ monthNames := by
  unfold monthAt at h
  split at h
  · obtain ⟨m, hm, he⟩ := Option.map_eq_some_iff.mp h
    cases he
    exact wholeWord_mem hm
  · cases h

theorem succeeds_wordValue {w : Str × Str} (hw : w.1.map fold ∈ numberWords.map Prod.fst)
    (hu : w.2 = [] ∨ w.2.map fold ∈ units) :
    Succeeds (wordValue w) ↔ ∀ c ∈ w.1 ++ w.2, c < 128 := by
  have hk : ∀ key ∈ numberWords.map Prod.fst, ∀ c ∈ key, c < 128 ∧ c ≠ 107 := by decide +kernel
  have hunits : ∀ w ∈ units, w ∈ numberWords.map Prod.fst := by decide +kernel
  have hunit : Succeeds (unitValue w.2) ↔ ∀ c ∈ w.2, c < 128 := by
    unfold unitValue
    split
    · next he => simp [he]
    · next hne => exact succeeds_lookup_lower hk (hunits _ (hu.resolve_left hne))
  unfold wordValue
  rw [succeeds_bind_iff (P := ∀ c ∈ w.2, c < 128) fun n _ => ?_, succeeds_lookup_lower hk hw,
    List.forall_mem_append]
  rw [← hunit]
  exact succeeds_bind_pure

theorem succeeds_monthValue {month : Str} (hm : month.map fold ∈ monthNames) :
    Succeeds (monthValue month) ↔ ∀ c ∈ month.take 3, c < 128 := by
  have hk : ∀ key ∈ monthNumbers.map Prod.fst, ∀ c ∈ key, (c < 128 ∧ c ≠ 107) ∧ c ≠ 105 := by
    decide +kernel
  have hnames : ∀ name ∈ monthNames, name.take 3 ∈ monthNumbers.map Prod.fst := by
    decide +kernel
  have hkey : (month.take 3).map fold ∈ monthNumbers.map Prod.fst := by
    rw [List.map_take]
    exact hnames _ hm
  have hdotless : ∀ c ∈ month.take 3, c ≠ 0x130 := by
    rintro c hc rfl
    exact (hk _ hkey _ (List.mem_map_of_mem hc)).2 rfl
  rw [monthValue, lower_take hdotless]
  exact succeeds_lookup_lower (fun key h c hc => (hk key h c hc).1) hkey

theorem succeeds_quoteNumbers :
    Succeeds (quoteNumbers u floats text) ↔ AsciiWords u text := by
  have hwords : Succeeds ((findall (wordAt u) text).mapM wordValue) ↔
      ∀ w ∈ findall (wordAt u) text, ∀ c ∈ w.1 ++ w.2, c < 128 := by
    rw [succeeds_mapM]
    refine forall₂_congr fun w hw => ?_
    obtain ⟨prev, rest, n, hm⟩ := matched_of_mem_findall hw
    obtain ⟨h1, h2⟩ := wordAt_mem hm
    exact succeeds_wordValue h1 h2
  have hmonths : Succeeds ((findall (monthAt u) text).mapM monthValue) ↔
      ∀ month ∈ findall (monthAt u) text, ∀ c ∈ month.take 3, c < 128 := by
    rw [succeeds_mapM]
    refine forall₂_congr fun month hw => ?_
    obtain ⟨prev, rest, n, hm⟩ := matched_of_mem_findall hw
    exact succeeds_monthValue (monthAt_mem hm)
  unfold quoteNumbers
  dsimp only
  rw [succeeds_bind_iff fun words _ => ?_, hwords]
  · rfl
  · rw [← hmonths]
    exact succeeds_bind_pure

theorem succeeds_dated (floats : Floats F) {dates : List Date} : Succeeds (dated floats dates) ↔
    Date.min ∉ dates := by
  unfold dated
  rw [succeeds_bind_pure, succeeds_mapM]
  have hone : ∀ d ∈ dates, Succeeds (do
      let before ← d.yesterday
      pure (d.parts ++ before.parts)) ↔ d ≠ Date.min := by
    intro d _
    rw [succeeds_bind_pure, yesterday_succeeds]
  rw [forall₂_congr hone]
  exact ⟨fun h hm => h _ hm rfl, fun h d hd he => h (he ▸ hd)⟩

end

end Autora.FactCheck
