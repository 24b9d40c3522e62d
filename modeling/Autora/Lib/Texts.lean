import Mathlib.Data.List.DropRight
import Autora.Lib.Untyped

/-! Whitespace of a text, a text without the whitespace around it, and the place of one text
in another. -/

namespace Texts

open Untyped

/-- `char.isspace()`. -/
def isSpace (c : Nat) : Bool :=
  (9 ≤ c && c ≤ 13) || (28 ≤ c && c ≤ 32) || c = 0x85 || c = 0xA0 || c = 0x1680 ||
    (0x2000 ≤ c && c ≤ 0x200A) || c = 0x2028 || c = 0x2029 || c = 0x202F || c = 0x205F ||
    c = 0x3000

/-- `text.strip()`. -/
def strip (s : Str) : Str := (s.dropWhile isSpace).rdropWhile isSpace

/-- A text without whitespace at its ends stays as it is. -/
theorem strip_of_ends {s : Str} (hh : ∀ c, s.head? = some c → isSpace c = false)
    (hl : ∀ c, s.getLast? = some c → isSpace c = false) : strip s = s := by
  have hd : s.dropWhile isSpace = s := by
    cases s with
    | nil => rfl
    | cons c s =>
      apply List.dropWhile_cons_of_neg
      rw [hh c rfl]
      decide
  rw [strip, hd, List.rdropWhile_eq_self_iff]
  intro hne
  rw [hl _ (List.getLast?_eq_some_getLast hne)]
  decide

theorem strip_eq_self {s : Str} (h : ∀ c ∈ s, isSpace c = false) : strip s = s :=
  strip_of_ends (fun c hc => h c (List.mem_of_mem_head? hc)) fun c hc =>
    h c (List.mem_of_mem_getLast? hc)

theorem strip_sublist (s : Str) : (strip s).Sublist s :=
  (List.rdropWhile_prefix _ _).sublist.trans (List.dropWhile_sublist _)

theorem strip_eq_nil {s : Str} : strip s = [] ↔ ∀ c ∈ s, isSpace c = true := by
  rw [strip, List.rdropWhile_eq_nil_iff]
  constructor
  · intro h c hc
    rw [← List.takeWhile_append_dropWhile (p := isSpace) (l := s), List.mem_append] at hc
    exact hc.elim List.mem_takeWhile_imp (h c)
  · exact fun h c hc => h c ((List.dropWhile_sublist _).subset hc)

/-- A stripped text begins with no whitespace. -/
theorem strip_head {s : Str} {c : Nat} (h : (strip s).head? = some c) : isSpace c = false := by
  obtain ⟨rest, hrest⟩ := List.rdropWhile_prefix isSpace (s.dropWhile isSpace)
  have hpre : (s.dropWhile isSpace).head? = some c := by
    rw [← hrest, List.head?_append]
    exact congrArg (·.or rest.head?) h
  have hnot := List.head?_dropWhile_not isSpace s
  rw [hpre] at hnot
  simpa using hnot

/-- A stripped text ends with no whitespace. -/
theorem strip_last {s : Str} {c : Nat} (h : (strip s).getLast? = some c) : isSpace c = false := by
  have hne : strip s ≠ [] := by
    intro hnil
    rw [hnil] at h
    cases h
  have hlast := List.rdropWhile_last_not isSpace (s.dropWhile isSpace) hne
  rw [List.getLast?_eq_some_getLast hne, Option.some.injEq] at h
  rw [← h]
  exact Bool.eq_false_iff.mpr hlast

theorem strip_append {s t : Str} (hs : s ≠ []) (hh : ∀ c, s.head? = some c → isSpace c = false)
    (ht : t.rdropWhile isSpace ≠ []) : strip (s ++ t) = s ++ t.rdropWhile isSpace := by
  have hd : (s ++ t).dropWhile isSpace = s ++ t := by
    cases s with
    | nil => exact absurd rfl hs
    | cons c s =>
      apply List.dropWhile_cons_of_neg
      rw [hh c rfl]
      decide
  have hne : (t.reverse.dropWhile isSpace).isEmpty = false := by
    rw [List.isEmpty_eq_false_iff]
    exact fun he => ht (by rw [List.rdropWhile, he]; rfl)
  rw [strip, hd, List.rdropWhile, List.reverse_append, List.dropWhile_append, hne]
  simp [List.rdropWhile]

/-- Whitespace at an end of a text is taken away. -/
theorem count_strip {s : Str} {c : Nat} (hc : isSpace c = true)
    (h : s.head? = some c ∨ s.getLast? = some c) : (strip s).count c < s.count c := by
  have hlast : ∀ {t : Str}, (t.rdropWhile isSpace).Sublist t :=
    (List.rdropWhile_prefix _ _).sublist
  rcases h with h | h
  · obtain ⟨t, rfl⟩ := List.head?_eq_some_iff.mp h
    have hsub : (strip (c :: t)).Sublist t := by
      rw [strip, List.dropWhile_cons_of_pos hc]
      exact hlast.trans (List.dropWhile_sublist _)
    have hle := hsub.count_le c
    rw [List.count_cons_self]
    omega
  · obtain ⟨t, rfl⟩ := List.getLast?_eq_some_iff.mp h
    have hsub : (strip (t ++ [c])).Sublist t := by
      rw [strip]
      rcases List.suffix_concat_iff.mp (List.dropWhile_suffix isSpace (l := t ++ [c])) with
        he | ⟨d, he, hd⟩
      · rw [he]
        exact List.nil_sublist t
      · rw [he, List.rdropWhile_concat_pos _ _ _ hc]
        exact hlast.trans hd.sublist
    have hle := hsub.count_le c
    rw [List.count_append, List.count_singleton_self]
    omega

theorem isSpace_of_ascii {c : Nat} (h : 33 ≤ c) (h' : c < 128) : isSpace c = false := by
  simp only [isSpace, Bool.or_eq_false_iff, Bool.and_eq_false_iff, decide_eq_false_iff_not]
  omega

/-- `text.find(needle)`; none where it is -1. -/
def find (needle : Str) : Str → Option Nat
  | [] => if needle = [] then some 0 else none
  | c :: rest =>
    if needle.isPrefixOf (c :: rest) then some 0 else (find needle rest).map (· + 1)

theorem find_starts {needle hay : Str} {i : Nat} (h : find needle hay = some i) :
    needle <+: hay.drop i := by
  induction hay generalizing i with
  | nil =>
    unfold find at h
    split at h
    · next hn =>
      rw [hn]
      exact List.nil_prefix
    · cases h
  | cons c rest ih =>
    unfold find at h
    split at h
    · next hp =>
      cases h
      exact List.isPrefixOf_iff_prefix.mp hp
    · obtain ⟨j, hj, rfl⟩ := Option.map_eq_some_iff.mp h
      exact ih hj

theorem find_first {needle hay : Str} {i j : Nat} (h : find needle hay = some i)
    (hj : needle <+: hay.drop j) : i ≤ j := by
  induction hay generalizing i j with
  | nil =>
    unfold find at h
    split at h
    · cases h
      exact Nat.zero_le j
    · cases h
  | cons c rest ih =>
    unfold find at h
    split at h
    · cases h
      exact Nat.zero_le j
    · next hp =>
      obtain ⟨k, hk, rfl⟩ := Option.map_eq_some_iff.mp h
      cases j with
      | zero => exact absurd (List.isPrefixOf_iff_prefix.mpr hj) hp
      | succ j => exact Nat.succ_le_succ (ih hk hj)

theorem find_some_iff {needle hay : Str} :
    (∃ i, find needle hay = some i) ↔ needle <:+: hay := by
  constructor
  · rintro ⟨i, hi⟩
    exact (find_starts hi).isInfix.trans (List.drop_suffix i hay).isInfix
  · intro h
    induction hay with
    | nil => exact ⟨0, by rw [find, if_pos (List.infix_nil.mp h)]⟩
    | cons c rest ih =>
      unfold find
      split
      · exact ⟨0, rfl⟩
      · next hp =>
        rcases List.infix_cons_iff.mp h with hpre | hin
        · exact absurd (List.isPrefixOf_iff_prefix.mpr hpre) hp
        · obtain ⟨i, hi⟩ := ih hin
          exact ⟨i + 1, by rw [hi]; rfl⟩

end Texts
