import Mathlib.Data.List.Basic

/-! Spans of a sequence, from one place up to another, and lists of them in order. -/

namespace Spans

abbrev Span := Nat × Nat

variable {lo mid hi i : Nat} {s t : Span} {spans rest : List Span}

/-- Spans that are not empty, in order and apart, between two places. -/
def Within (lo : Nat) : List Span → Nat → Prop
  | [], hi => lo ≤ hi
  | s :: rest, hi => lo ≤ s.1 ∧ s.1 < s.2 ∧ Within s.2 rest hi

/-- Spans that follow each other from one place to another. -/
def Tiles (lo : Nat) : List Span → Nat → Prop
  | [], hi => lo = hi
  | s :: rest, hi => s.1 = lo ∧ s.1 < s.2 ∧ Tiles s.2 rest hi

def Inside (spans : List Span) (i : Nat) : Prop := ∃ s ∈ spans, s.1 ≤ i ∧ i < s.2

theorem Within.le (h : Within lo spans hi) : lo ≤ hi := by
  induction spans generalizing lo with
  | nil => exact h
  | cons s rest ih =>
    have hle := ih h.2.2
    have hlo := h.1
    have hlt := h.2.1
    omega

theorem Within.mem (h : Within lo spans hi) (hs : s ∈ spans) :
    lo ≤ s.1 ∧ s.1 < s.2 ∧ s.2 ≤ hi := by
  induction spans generalizing lo with
  | nil => cases hs
  | cons t rest ih =>
    rcases List.mem_cons.mp hs with rfl | hs
    · exact ⟨h.1, h.2.1, h.2.2.le⟩
    · have hrest := ih h.2.2 hs
      have hlo := h.1
      have hlt := h.2.1
      omega

theorem Within.append (h : Within lo spans mid) (h' : Within mid rest hi) :
    Within lo (spans ++ rest) hi := by
  induction spans generalizing lo with
  | nil =>
    cases rest with
    | nil => exact Nat.le_trans h h'
    | cons t rest => exact ⟨Nat.le_trans h h'.1, h'.2⟩
  | cons s spans ih => exact ⟨h.1, h.2.1, ih h.2.2⟩

theorem Within.mono {lo' : Nat} (h : Within lo spans hi) (hlo : lo' ≤ lo) :
    Within lo' spans hi := by
  cases spans with
  | nil => exact Nat.le_trans hlo h
  | cons s rest => exact ⟨Nat.le_trans hlo h.1, h.2⟩

theorem Within.pairwise (h : Within lo spans hi) : spans.Pairwise fun s t => s.2 ≤ t.1 := by
  induction spans generalizing lo with
  | nil => exact List.Pairwise.nil
  | cons s rest ih => exact List.Pairwise.cons (fun t ht => (h.2.2.mem ht).1) (ih h.2.2)

/-- A place lies in one span at most. -/
theorem Within.unique (h : Within lo spans hi) (hs : s ∈ spans) (ht : t ∈ spans)
    (his : s.1 ≤ i ∧ i < s.2) (hit : t.1 ≤ i ∧ i < t.2) : s = t := by
  induction spans generalizing lo with
  | nil => cases hs
  | cons u rest ih =>
    rcases List.mem_cons.mp hs with hsu | hs'
    · rcases List.mem_cons.mp ht with htu | ht'
      · rw [hsu, htu]
      · have hle := (h.2.2.mem ht').1
        rw [hsu] at his
        omega
    · rcases List.mem_cons.mp ht with htu | ht'
      · have hle := (h.2.2.mem hs').1
        rw [htu] at hit
        omega
      · exact ih h.2.2 hs' ht'

theorem Within.nodup (h : Within lo spans hi) : spans.Nodup := by
  refine List.Pairwise.imp_of_mem (fun {s t} hs ht hle heq => ?_) h.pairwise
  have hlt := (h.mem ht).2.1
  rw [heq] at hle
  omega

theorem Tiles.within (h : Tiles lo spans hi) : Within lo spans hi := by
  induction spans generalizing lo with
  | nil => exact Nat.le_of_eq h
  | cons s rest ih => exact ⟨Nat.le_of_eq h.1.symm, h.2.1, ih h.2.2⟩

theorem Tiles.append (h : Tiles lo spans mid) (h' : Tiles mid rest hi) :
    Tiles lo (spans ++ rest) hi := by
  induction spans generalizing lo with
  | nil =>
    have hlo : lo = mid := h
    rw [hlo]
    exact h'
  | cons s spans ih => exact ⟨h.1, h.2.1, ih h.2.2⟩

theorem Tiles.inside (h : Tiles lo spans hi) (hlo : lo ≤ i) (hhi : i < hi) : Inside spans i := by
  induction spans generalizing lo with
  | nil =>
    have heq : lo = hi := h
    omega
  | cons s rest ih =>
    by_cases hi' : i < s.2
    · exact ⟨s, List.mem_cons_self, by have := h.1; omega, hi'⟩
    · obtain ⟨t, ht, hit⟩ := ih h.2.2 (by omega)
      exact ⟨t, List.mem_cons_of_mem s ht, hit⟩

theorem Tiles.first (h : Tiles lo spans hi) (hlt : lo < hi) :
    ∃ s, spans.head? = some s ∧ s.1 = lo ∧ s.1 < s.2 := by
  cases spans with
  | nil =>
    have heq : lo = hi := h
    omega
  | cons s rest => exact ⟨s, rfl, h.1, h.2.1⟩

theorem Tiles.last (h : Tiles lo spans hi) (hlt : lo < hi) :
    ∃ s, spans.getLast? = some s ∧ s.2 = hi ∧ s.1 < s.2 := by
  induction spans generalizing lo with
  | nil =>
    have heq : lo = hi := h
    omega
  | cons s rest ih =>
    cases rest with
    | nil => exact ⟨s, rfl, h.2.2, h.2.1⟩
    | cons t rest =>
      have hle := h.2.2.2.2.within.le
      have hlt' := h.2.2.2.1
      have hst := h.2.2.1
      obtain ⟨u, hu, hend⟩ := ih h.2.2 (by omega)
      exact ⟨u, by rw [List.getLast?_cons_cons]; exact hu, hend⟩

theorem Inside.cons (h : Inside spans i) : Inside (s :: spans) i := by
  obtain ⟨t, ht, hi⟩ := h
  exact ⟨t, List.mem_cons_of_mem s ht, hi⟩

theorem inside_cons : Inside (s :: spans) i ↔ (s.1 ≤ i ∧ i < s.2) ∨ Inside spans i := by
  constructor
  · intro h
    obtain ⟨t, ht, hi⟩ := h
    rcases List.mem_cons.mp ht with rfl | ht
    · exact Or.inl hi
    · exact Or.inr ⟨t, ht, hi⟩
  · intro h
    rcases h with hi | h
    · exact ⟨s, List.mem_cons_self, hi⟩
    · exact h.cons

/-! The elements in a span. -/

variable {α : Type} {l : List α} {a b c k m : Nat}

/-- `l[a:b]`. -/
def slice (l : List α) (a b : Nat) : List α := (l.drop a).take (b - a)

theorem slice_self : slice l a a = [] := by
  rw [slice, Nat.sub_self, List.take_zero]

theorem length_slice (h : b ≤ l.length) : (slice l a b).length = b - a := by
  rw [slice, List.length_take, List.length_drop]
  omega

theorem slice_ne_nil (hlt : a < b) (h : b ≤ l.length) : slice l a b ≠ [] := by
  intro hnil
  have hlen := congrArg List.length hnil
  rw [length_slice h, List.length_nil] at hlen
  omega

theorem getElem?_slice (h : a + k < b) : (slice l a b)[k]? = l[a + k]? := by
  rw [slice, List.getElem?_take_of_lt (by omega), List.getElem?_drop]

theorem mem_slice {x : α} : x ∈ slice l a b ↔ ∃ j, a ≤ j ∧ j < b ∧ l[j]? = some x := by
  rw [List.mem_iff_getElem?]
  constructor
  · intro h
    obtain ⟨j, hj⟩ := h
    have hlt : j < b - a := by
      have hlen := (List.getElem?_eq_some_iff.mp hj).1
      rw [slice, List.length_take] at hlen
      omega
    rw [getElem?_slice (by omega)] at hj
    exact ⟨a + j, by omega, by omega, hj⟩
  · intro h
    obtain ⟨j, hle, hlt, hj⟩ := h
    refine ⟨j - a, ?_⟩
    rw [getElem?_slice (by omega), show a + (j - a) = j by omega]
    exact hj

theorem slice_cons {x : α} (h : a < b) (hx : l[a]? = some x) :
    slice l a b = x :: slice l (a + 1) b := by
  obtain ⟨hlt, rfl⟩ := List.getElem?_eq_some_iff.mp hx
  rw [slice, slice, List.drop_eq_getElem_cons hlt, show b - a = b - (a + 1) + 1 by omega,
    List.take_succ_cons]

theorem slice_slice (h : a + k + m ≤ b) : ((slice l a b).drop k).take m = slice l (a + k) (a + k + m) := by
  rw [slice, slice, List.drop_take, List.take_take, List.drop_drop,
    show a + k + m - (a + k) = m by omega, show min m (b - a - k) = m by omega]

theorem drop_slice : (slice l a b).drop k = slice l (a + k) b := by
  rw [slice, slice, List.drop_take, List.drop_drop, Nat.sub_add_eq]

theorem slice_append (hab : a ≤ b) (hbc : b ≤ c) : slice l a b ++ slice l b c = slice l a c := by
  have hsplit := List.take_append_drop (b - a) (slice l a c)
  rw [drop_slice, show a + (b - a) = b by omega] at hsplit
  rw [← hsplit]
  congr 1
  have htake := slice_slice (l := l) (a := a) (k := 0) (m := b - a) (b := c) (by omega)
  rw [List.drop_zero, Nat.add_zero, show a + (b - a) = b by omega] at htake
  exact htake.symm

theorem slice_snoc {x : α} (h : a ≤ b) (hx : l[b]? = some x) :
    slice l a (b + 1) = slice l a b ++ [x] := by
  rw [← slice_append h (Nat.le_succ b), slice_cons (Nat.lt_succ_self b) hx, slice_self]

/-- The first element of a slice, and the others. -/
theorem slice_uncons {x : α} {rest : List α} (hb : b ≤ l.length) (h : slice l a b = x :: rest) :
    a < b ∧ l[a]? = some x ∧ slice l (a + 1) b = rest := by
  have hlen := congrArg List.length h
  rw [length_slice hb, List.length_cons] at hlen
  have hx : (slice l a b)[0]? = some x := by
    rw [h]
    rfl
  have htail : (slice l a b).drop 1 = rest := by
    rw [h]
    rfl
  rw [getElem?_slice (by omega), Nat.add_zero] at hx
  rw [drop_slice] at htail
  exact ⟨by omega, hx, htail⟩

end Spans
