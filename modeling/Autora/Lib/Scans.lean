import Autora.Lib.Texts

/-! Patterns looked for in a text: all the places one matches, from left to right. -/

namespace Scans

open Untyped Texts

/-- What a pattern has to know of the characters beyond ASCII: the digits with their values, and
the letters and digits. -/
structure Characters where
  digit : Nat → Option Nat
  alnum : Nat → Bool
  digit_ascii : ∀ c < 128, digit c = if 48 ≤ c ∧ c ≤ 57 then some (c - 48) else none
  digit_lt : ∀ c d, digit c = some d → d < 10
  alnum_ascii : ∀ c < 128, alnum c = decide ((48 ≤ c ∧ c ≤ 57) ∨ (65 ≤ c ∧ c ≤ 90) ∨
    (97 ≤ c ∧ c ≤ 122))
  digit_not_space : ∀ c d, digit c = some d → isSpace c = false

/-- The characters of ASCII alone, and the letters that count as a letter of ASCII. -/
def ascii : Characters where
  digit c := if 48 ≤ c ∧ c ≤ 57 then some (c - 48) else none
  alnum c := decide ((48 ≤ c ∧ c ≤ 57) ∨ (65 ≤ c ∧ c ≤ 90) ∨ (97 ≤ c ∧ c ≤ 122)) ||
    decide (c ∈ [0x130, 0x131, 0x17F, 0x212A])
  digit_ascii _ _ := rfl
  digit_lt := by
    intro c d h
    split at h
    · cases h
      omega
    · cases h
  alnum_ascii := by
    intro c hc
    have hnot : c ∉ [0x130, 0x131, 0x17F, 0x212A] := by
      simp only [List.mem_cons, List.not_mem_nil, or_false, not_or]
      omega
    rw [decide_eq_false hnot, Bool.or_false]
  digit_not_space := by
    intro c d h
    split at h
    · exact isSpace_of_ascii (by omega) (by omega)
    · cases h

namespace Characters

variable (u : Characters)

def isDigit (c : Nat) : Bool := (u.digit c).isSome

/-- `\w`. -/
def word (c : Nat) : Bool := u.alnum c || c = 95

/-- `\d+` at the start of a text, as long as it can be. -/
def digits (s : Str) : Str := s.takeWhile u.isDigit

/-- `\b` between the character before and the text. -/
def boundary (prev : Option Nat) (s : Str) : Bool :=
  prev.any u.word != s.head?.any u.word

end Characters

/-- `\s*` at the start of a text, as long as it can be. -/
def spaces (s : Str) : Str := s.takeWhile isSpace

/-- `(\.\d+)?` at the start of a text. -/
def fractionPart (u : Characters) : Str → Str
  | 46 :: s => if u.digits s = [] then [] else 46 :: u.digits s
  | _ => []

/-- A letter as it compares when case does not count. -/
def fold (c : Nat) : Nat :=
  if 65 ≤ c ∧ c ≤ 90 then c + 32
  else if c = 0x130 ∨ c = 0x131 then 105
  else if c = 0x17F then 115
  else if c = 0x212A then 107
  else c

/-- `str.lower` of what a pattern of letters of ASCII can match. -/
def lower (s : Str) : Str := s.flatMap fun c =>
  if 65 ≤ c ∧ c ≤ 90 then [c + 32]
  else if c = 0x130 then [105, 0x307]
  else if c = 0x212A then [107]
  else [c]

/-- A literal text, where case does not count. -/
def literal (w s : Str) : Option Nat :=
  if (s.take w.length).map fold = w then some w.length else none

/-- The first literal of a list that matches: what it matched. -/
def oneOf (ws : List Str) (s : Str) : Option Str :=
  (ws.findSome? fun w => literal w s).map s.take

/-- The first of the literals that matches with the end of a word after it. -/
def wholeWord (u : Characters) (ws : List Str) (s : Str) : Option Str :=
  (ws.findSome? fun w => (literal w s).filter fun n =>
    u.boundary (s.take n).getLast? (s.drop n)).map s.take

/-- `table[key]` -/
def lookup (table : List (Str × Nat)) (key : Str) : Except Error Nat :=
  match table.lookup key with
  | some n => .ok n
  | none => .error .keyError

/-- `findall` from a place on: the character before it, and how many characters the match before
still takes. A match is what it found with its length. -/
def scan {α : Type} (m : Option Nat → Str → Option (α × Nat)) :
    Option Nat → Nat → Str → List α
  | _, _, [] => []
  | _, skip + 1, c :: s => scan m (some c) skip s
  | prev, 0, c :: s => match m prev (c :: s) with
    | some (a, n) => a :: scan m (some c) (n - 1) s
    | none => scan m (some c) 0 s

def findall {α : Type} (m : Option Nat → Str → Option (α × Nat)) (s : Str) : List α :=
  scan m none 0 s

theorem literal_eq_some {w s : Str} {n : Nat} : literal w s = some n ↔
    n = w.length ∧ (s.take n).map fold = w := by
  unfold literal
  split
  · next h =>
    constructor
    · intro hn
      cases hn
      exact ⟨rfl, h⟩
    · rintro ⟨rfl, -⟩
      rfl
  · next h =>
    refine iff_of_false nofun ?_
    rintro ⟨rfl, hw⟩
    exact h hw

/-- What is found was matched somewhere. -/
theorem matched_of_mem_scan {α : Type} {m : Option Nat → Str → Option (α × Nat)} {s : Str} :
    ∀ {prev : Option Nat} {skip : Nat} {a : α}, a ∈ scan m prev skip s →
      ∃ prev rest n, m prev rest = some (a, n) := by
  induction s with
  | nil =>
    intro prev skip a h
    cases skip <;> cases h
  | cons c s ih =>
    intro prev skip a h
    cases skip with
    | succ skip => exact ih h
    | zero =>
      rw [scan] at h
      split at h
      · next b n hm =>
        rcases List.mem_cons.mp h with rfl | h
        · exact ⟨_, _, _, hm⟩
        · exact ih h
      · exact ih h

theorem matched_of_mem_findall {α : Type} {m : Option Nat → Str → Option (α × Nat)} {s : Str}
    {a : α} (h : a ∈ findall m s) : ∃ prev rest n, m prev rest = some (a, n) :=
  matched_of_mem_scan h

theorem lower_eq_fold {s : Str} (h : ∀ c ∈ s, c < 128) : lower s = s.map fold := by
  induction s with
  | nil => rfl
  | cons c s ih =>
    have hc := h c List.mem_cons_self
    have hrest := ih fun d hd => h d (List.mem_cons_of_mem c hd)
    change lower s = _ at hrest
    rw [lower, List.flatMap_cons, List.map_cons]
    change _ ++ lower s = _
    rw [hrest]
    by_cases hu : 65 ≤ c ∧ c ≤ 90
    · rw [if_pos hu, fold, if_pos hu]
      rfl
    · have h1 : c ≠ 0x130 := by omega
      have h2 : c ≠ 0x212A := by omega
      have h3 : ¬ (c = 0x130 ∨ c = 0x131) := by omega
      have h4 : c ≠ 0x17F := by omega
      rw [if_neg hu, if_neg h1, if_neg h2, fold, if_neg hu, if_neg h3, if_neg h4, if_neg h2]
      rfl

/-- A letter beyond ASCII that counts as one other than k stays beyond ASCII. -/
theorem lower_beyond {c : Nat} (h : 128 ≤ c) (hf : fold c < 128) (hk : fold c ≠ 107) :
    ∃ d ∈ lower [c], 128 ≤ d := by
  unfold fold at hf hk
  rw [if_neg (by omega)] at hf hk
  split at hf
  · next hi =>
    rcases hi with rfl | rfl
    · exact ⟨0x307, by decide, by decide⟩
    · exact ⟨0x131, by decide, by decide⟩
  · next hi =>
    rw [if_neg hi] at hk
    split at hf
    · next hs =>
      rw [hs]
      exact ⟨0x17F, by decide, by decide⟩
    · next hs =>
      rw [if_neg hs] at hk
      split at hf
      · next hl =>
        rw [if_pos hl] at hk
        exact absurd rfl hk
      · omega

theorem mem_lower {s : Str} {c d : Nat} (hc : c ∈ s) (hd : d ∈ lower [c]) : d ∈ lower s := by
  rw [lower, List.flatMap_singleton] at hd
  exact List.mem_flatMap.mpr ⟨c, hc, hd⟩

theorem lower_append (s t : Str) : lower (s ++ t) = lower s ++ lower t := List.flatMap_append

theorem lower_take {s : Str} : ∀ {n : Nat}, (∀ c ∈ s.take n, c ≠ 0x130) →
    (lower s).take n = lower (s.take n) := by
  induction s with
  | nil =>
    intro n _
    rw [List.take_nil]
    exact List.take_nil
  | cons c s ih =>
    intro n h
    cases n with
    | zero => rfl
    | succ n =>
      have hc : c ≠ 0x130 := h c List.mem_cons_self
      have hrest := @ih n fun d hd => h d (List.mem_cons_of_mem c hd)
      have hone : ∃ d, lower [c] = [d] := by
        rw [lower, List.flatMap_singleton, if_neg hc]
        split
        · exact ⟨_, rfl⟩
        · split
          · exact ⟨_, rfl⟩
          · exact ⟨_, rfl⟩
      obtain ⟨d, hd⟩ := hone
      have hs := lower_append [c] s
      have ht := lower_append [c] (s.take n)
      rw [List.singleton_append] at hs ht
      rw [List.take_succ_cons, hs, ht, hd, List.singleton_append, List.singleton_append,
        List.take_succ_cons, hrest]

theorem succeeds_lookup {table : List (Str × Nat)} {key : Str} :
    Succeeds (lookup table key) ↔ key ∈ table.map Prod.fst := by
  unfold lookup
  cases h : table.lookup key with
  | none =>
    rw [List.lookup_eq_none_iff] at h
    simp only [not_succeeds_error, false_iff, List.mem_map, not_exists, not_and]
    intro x hx hk
    have := h x hx
    simp [hk] at this
  | some n =>
    simp only [succeeds_ok, true_iff]
    obtain ⟨l, r, hs, -⟩ := List.lookup_eq_some_iff.mp h
    rw [hs]
    simp

theorem wholeWord_mem {u : Characters} {ws : List Str} {s word : Str} (h : wholeWord u ws s = some word) :
    word.map fold ∈ ws := by
  unfold wholeWord at h
  obtain ⟨n, hn, rfl⟩ := Option.map_eq_some_iff.mp h
  obtain ⟨w, hw, hl⟩ := List.exists_of_findSome?_eq_some hn
  obtain ⟨hlit, -⟩ := Option.filter_eq_some_iff.mp hl
  obtain ⟨rfl, hfold⟩ := literal_eq_some.mp hlit
  rwa [hfold]

theorem succeeds_lookup_lower {table : List (Str × Nat)} {s : Str}
    (hk : ∀ key ∈ table.map Prod.fst, ∀ c ∈ key, c < 128 ∧ c ≠ 107)
    (hs : s.map fold ∈ table.map Prod.fst) :
    Succeeds (lookup table (lower s)) ↔ ∀ c ∈ s, c < 128 := by
  rw [succeeds_lookup]
  constructor
  · intro h c hc
    by_contra hlt
    obtain ⟨hf, hk'⟩ := hk _ hs (fold c) (List.mem_map_of_mem hc)
    obtain ⟨d, hd, hge⟩ := lower_beyond (Nat.le_of_not_lt hlt) hf hk'
    have := (hk _ h d (mem_lower hc hd)).1
    omega
  · intro h
    rwa [lower_eq_fold h]

end Scans
