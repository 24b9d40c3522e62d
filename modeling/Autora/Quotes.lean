import Autora.Lib.Texts

/-! Finding a quote in an evidence text, up to typography. -/

namespace Autora.Quotes

open Untyped Texts

/-- `_EQUIVALENT.get(char, char)`. -/
def equivalent (c : Nat) : Nat :=
  if c ∈ [0x201C, 0x201D, 0x201E, 0x2033, 0xFF02] then 34
  else if c ∈ [0x2018, 0x2019, 0x201A, 0x2032, 0xFF07] then 39
  else if c ∈ [0x2010, 0x2011, 0x2012, 0x2013, 0x2014, 0x2212] then 45
  else c

/-- `_cjk`. -/
def cjk (c : Nat) : Bool :=
  (0x3000 ≤ c && c ≤ 0x303F) || (0x3400 ≤ c && c ≤ 0x9FFF) || (0xF900 ≤ c && c ≤ 0xFAFF) ||
    (0xFF00 ≤ c && c ≤ 0xFFEF)

/-- The space a pending whitespace run leaves before a character, between the last one that was
written and it. -/
def space (last pending : Option Nat) (c : Nat) : List (Nat × Nat) :=
  match pending, last with
  | some p, some l => if cjk l || cjk c then [] else [(32, p)]
  | _, _ => []

/-- The loop of `_normalize`: each character of the normal form, and where it came from. -/
def normalizeFrom (last pending : Option Nat) (index : Nat) : Str → List (Nat × Nat)
  | [] => []
  | c :: rest =>
    if isSpace c then normalizeFrom last (pending.or (some index)) (index + 1) rest
    else space last pending c ++ (equivalent c, index) ::
      normalizeFrom (some (equivalent c)) none (index + 1) rest

/-- `_normalize`. -/
def normalize (text : Str) : List (Nat × Nat) := normalizeFrom none none 0 text

def normalForm (text : Str) : Str := (normalize text).map Prod.fst

/-- `text[start:stop]`. -/
def slice (text : Str) (start stop : Nat) : Str := (text.drop start).take (stop - start)

structure Located where
  start : Nat
  stop : Nat
  text : Str
  deriving DecidableEq, Repr

def locate (quote text : Str) : Option Located :=
  let needle := normalForm quote
  if needle = [] then none
  else match find needle (normalForm text) with
    | none => none
    | some i => match (normalize text)[i]?, (normalize text)[i + needle.length - 1]? with
      | some (_, start), some (_, last) =>
        some ⟨start, last + 1, slice text start (last + 1)⟩
      | _, _ => none

/-- `check_length`: whether the quote has a length it may have. -/
def lengthAllowed (quote : Str) : Bool :=
  4 ≤ (normalForm quote).length && (normalForm quote).length ≤ 500

variable {last pending last' pending' : Option Nat} {index : Nat} {s t : Str}

theorem equivalent_ne_space {c : Nat} (h : isSpace c = false) : equivalent c ≠ 32 := by
  unfold equivalent
  split
  · decide
  · split
    · decide
    · split
      · decide
      · rintro rfl
        cases h

theorem mem_space {c : Nat} {x : Nat × Nat} (h : x ∈ space last pending c) :
    x.1 = 32 ∧ pending = some x.2 := by
  unfold space at h
  split at h
  · split at h
    · cases h
    · cases List.mem_singleton.mp h
      exact ⟨rfl, rfl⟩
  · cases h

theorem normalizeFrom_space {c : Nat} (h : isSpace c = true) :
    normalizeFrom last pending index (c :: s) =
      normalizeFrom last (pending.or (some index)) (index + 1) s := by
  rw [normalizeFrom, if_pos h]

theorem normalizeFrom_kept {c : Nat} (h : isSpace c = false) :
    normalizeFrom last pending index (c :: s) =
      space last pending c ++ (equivalent c, index) ::
        normalizeFrom (some (equivalent c)) none (index + 1) s := by
  rw [normalizeFrom, h]
  rfl

theorem fst_space {c : Nat} (h : pending.isSome = pending'.isSome) :
    (space last pending c).map Prod.fst = (space last pending' c).map Prod.fst := by
  cases pending <;> cases pending' <;> cases last <;> simp_all [space]
  split <;> rfl

/-- The normal form does not depend on where the text stands. -/
theorem fst_normalizeFrom (s : Str) : ∀ {last pending pending' : Option Nat} {i j : Nat},
    pending.isSome = pending'.isSome →
      (normalizeFrom last pending i s).map Prod.fst =
        (normalizeFrom last pending' j s).map Prod.fst := by
  induction s with
  | nil => exact fun _ => rfl
  | cons c s ih =>
    intro last pending pending' i j h
    by_cases hc : isSpace c = true
    · rw [normalizeFrom_space hc, normalizeFrom_space hc]
      exact ih (by cases pending <;> cases pending' <;> simp_all)
    · rw [Bool.not_eq_true] at hc
      have hs := @fst_space last pending pending' c h
      rw [normalizeFrom_kept hc, normalizeFrom_kept hc, List.map_append, List.map_append, hs,
        List.map_cons, List.map_cons, ih rfl]

/-- A character that was kept came from the text. -/
theorem origin_range (s : Str) : ∀ {last pending : Option Nat} {i : Nat} {x : Nat × Nat},
    x ∈ normalizeFrom last pending i s → x.1 ≠ 32 → i ≤ x.2 ∧ x.2 < i + s.length := by
  induction s with
  | nil => exact fun h => absurd h List.not_mem_nil
  | cons c s ih =>
    intro last pending i x hx hne
    by_cases hc : isSpace c = true
    · rw [normalizeFrom_space hc] at hx
      have := ih hx hne
      rw [List.length_cons]
      omega
    · rw [Bool.not_eq_true] at hc
      rw [normalizeFrom_kept hc] at hx
      rw [List.length_cons]
      rcases List.mem_append.mp hx with hx | hx
      · exact absurd (mem_space hx).1 hne
      · rcases List.mem_cons.mp hx with rfl | hx
        · dsimp only
          omega
        · have := ih hx hne
          omega

/-- From a character that was kept on, the normal form is that of the text from it on. -/
theorem normalizeFrom_drop (s : Str) : ∀ {last pending : Option Nat} {i j k c : Nat}, c ≠ 32 →
    (normalizeFrom last pending i s)[k]? = some (c, i + j) →
      (normalizeFrom last pending i s).drop k = normalizeFrom none none (i + j) (s.drop j) := by
  induction s with
  | nil =>
    intro last pending i j k c _ h
    cases h
  | cons x s ih =>
    intro last pending i j k c hne h
    by_cases hx : isSpace x = true
    · rw [normalizeFrom_space hx] at h ⊢
      have hj := (origin_range s (List.mem_of_getElem? h) hne).1
      obtain ⟨m, rfl⟩ : ∃ m, j = m + 1 := ⟨j - 1, by dsimp only at hj; omega⟩
      have hi : i + (m + 1) = i + 1 + m := by omega
      rw [hi] at h ⊢
      exact ih hne h
    · rw [Bool.not_eq_true] at hx
      rw [normalizeFrom_kept hx] at h ⊢
      by_cases hlt : k < (space last pending x).length
      · rw [List.getElem?_append_left hlt] at h
        exact absurd (mem_space (List.mem_of_getElem? h)).1 hne
      · obtain ⟨m, rfl⟩ := Nat.exists_eq_add_of_le (Nat.not_lt.mp hlt)
        rw [List.getElem?_append_right (Nat.le_add_right _ _), Nat.add_sub_cancel_left] at h
        rw [List.drop_length_add_append]
        cases m with
        | zero =>
          rw [List.getElem?_cons_zero, Option.some.injEq, Prod.mk.injEq] at h
          obtain rfl : j = 0 := by omega
          rw [List.drop_zero, List.drop_zero, normalizeFrom_kept hx]
          rfl
        | succ m =>
          rw [List.getElem?_cons_succ] at h
          have hj := (origin_range s (List.mem_of_getElem? h) hne).1
          obtain ⟨n, rfl⟩ : ∃ n, j = n + 1 := ⟨j - 1, by dsimp only at hj; omega⟩
          have hi : i + (n + 1) = i + 1 + n := by omega
          rw [hi] at h ⊢
          exact ih hne h

/-- Up to a character that was kept, the normal form is that of the text up to it. -/
theorem normalizeFrom_take (s : Str) : ∀ {last pending : Option Nat} {i j k c : Nat}, c ≠ 32 →
    (normalizeFrom last pending i s)[k]? = some (c, i + j) →
      (normalizeFrom last pending i s).take (k + 1) =
        normalizeFrom last pending i (s.take (j + 1)) := by
  induction s with
  | nil =>
    intro last pending i j k c _ h
    cases h
  | cons x s ih =>
    intro last pending i j k c hne h
    rw [List.take_succ_cons]
    by_cases hx : isSpace x = true
    · rw [normalizeFrom_space hx] at h
      rw [normalizeFrom_space hx, normalizeFrom_space hx]
      have hj := (origin_range s (List.mem_of_getElem? h) hne).1
      obtain ⟨m, rfl⟩ : ∃ m, j = m + 1 := ⟨j - 1, by dsimp only at hj; omega⟩
      have hi : i + (m + 1) = i + 1 + m := by omega
      rw [hi] at h
      exact ih hne h
    · rw [Bool.not_eq_true] at hx
      rw [normalizeFrom_kept hx] at h
      rw [normalizeFrom_kept hx, normalizeFrom_kept hx]
      by_cases hlt : k < (space last pending x).length
      · rw [List.getElem?_append_left hlt] at h
        exact absurd (mem_space (List.mem_of_getElem? h)).1 hne
      · obtain ⟨m, rfl⟩ := Nat.exists_eq_add_of_le (Nat.not_lt.mp hlt)
        rw [List.getElem?_append_right (Nat.le_add_right _ _), Nat.add_sub_cancel_left] at h
        rw [Nat.add_assoc, List.take_length_add_append, List.take_succ_cons]
        cases m with
        | zero =>
          rw [List.getElem?_cons_zero, Option.some.injEq, Prod.mk.injEq] at h
          obtain rfl : j = 0 := by omega
          rfl
        | succ m =>
          rw [List.getElem?_cons_succ] at h
          have hj := (origin_range s (List.mem_of_getElem? h) hne).1
          obtain ⟨n, rfl⟩ : ∃ n, j = n + 1 := ⟨j - 1, by dsimp only at hj; omega⟩
          have hi : i + (n + 1) = i + 1 + n := by omega
          rw [hi] at h
          rw [ih hne h]

/-- The characters come from the text in its order. -/
theorem origins_increase (s : Str) : ∀ {last pending : Option Nat} {i low : Nat},
    (∀ p, pending = some p → low ≤ p ∧ p < i) → low ≤ i →
      (normalizeFrom last pending i s).Pairwise (fun x y => x.2 < y.2) ∧
        ∀ x ∈ normalizeFrom last pending i s, low ≤ x.2 := by
  induction s with
  | nil =>
    intro last pending i low _ _
    exact ⟨List.Pairwise.nil, fun x hx => absurd hx List.not_mem_nil⟩
  | cons c s ih =>
    intro last pending i low hp hlow
    by_cases hc : isSpace c = true
    · rw [normalizeFrom_space hc]
      refine ih (fun p h => ?_) (Nat.le_succ_of_le hlow)
      cases hpend : pending with
      | none =>
        rw [hpend] at h
        cases h
        exact ⟨hlow, Nat.lt_succ_self i⟩
      | some p' =>
        have hp' := hp p' hpend
        rw [hpend] at h
        cases h
        exact ⟨hp'.1, Nat.lt_succ_of_lt hp'.2⟩
    · rw [Bool.not_eq_true] at hc
      obtain ⟨hpair, hge⟩ := @ih (some (equivalent c)) none (i + 1) (i + 1) nofun (Nat.le_refl _)
      rw [normalizeFrom_kept hc]
      have hspace : ∀ x ∈ space last pending c, low ≤ x.2 ∧ x.2 < i :=
        fun x hx => hp x.2 (mem_space hx).2
      refine ⟨?_, ?_⟩
      · rw [List.pairwise_append, List.pairwise_cons]
        refine ⟨?_, ⟨fun y hy => hge y hy, hpair⟩, ?_⟩
        · unfold space
          split
          · split
            · exact List.Pairwise.nil
            · exact List.pairwise_singleton _ _
          · exact List.Pairwise.nil
        · intro x hx y hy
          have hxi := (hspace x hx).2
          rcases List.mem_cons.mp hy with rfl | hy
          · exact hxi
          · exact Nat.lt_trans hxi (hge y hy)
      · intro x hx
        rcases List.mem_append.mp hx with hx | hx
        · exact (hspace x hx).1
        · rcases List.mem_cons.mp hx with rfl | hx
          · exact hlow
          · exact Nat.le_trans hlow (Nat.le_of_succ_le (hge x hx))

/-- The normal form of a beginning is a beginning of the normal form. -/
theorem normalizeFrom_starts (s t : Str) : ∀ {last pending : Option Nat} {i : Nat},
    normalizeFrom last pending i s <+: normalizeFrom last pending i (s ++ t) := by
  induction s with
  | nil => exact List.nil_prefix
  | cons c s ih =>
    intro last pending i
    rw [List.cons_append]
    by_cases hc : isSpace c = true
    · rw [normalizeFrom_space hc, normalizeFrom_space hc]
      exact ih
    · rw [Bool.not_eq_true] at hc
      rw [normalizeFrom_kept hc, normalizeFrom_kept hc, List.prefix_append_right_inj,
        List.prefix_cons_inj]
      exact ih

/-- Whitespace that comes first leaves nothing. -/
theorem normalizeFrom_leading {pre : Str} (h : ∀ c ∈ pre, isSpace c = true) :
    ∀ {pending : Option Nat} {i : Nat}, ∃ pending', normalizeFrom none pending i (pre ++ s) =
      normalizeFrom none pending' (i + pre.length) s := by
  induction pre with
  | nil => exact fun {pending} {_} => ⟨pending, rfl⟩
  | cons c pre ih =>
    intro pending i
    have hc := h c List.mem_cons_self
    obtain ⟨pending', hp⟩ := @ih (fun x hx => h x (List.mem_cons_of_mem c hx))
      (pending.or (some i)) (i + 1)
    refine ⟨pending', ?_⟩
    rw [List.cons_append, normalizeFrom_space hc, hp, List.length_cons]
    congr 1
    omega

/-- Before anything is written, a pending run leaves nothing. -/
theorem fst_normalizeFrom_none (s : Str) : ∀ {pending pending' : Option Nat} {i j : Nat},
    (normalizeFrom none pending i s).map Prod.fst =
      (normalizeFrom none pending' j s).map Prod.fst := by
  induction s with
  | nil => exact rfl
  | cons c s ih =>
    intro pending pending' i j
    by_cases hc : isSpace c = true
    · rw [normalizeFrom_space hc, normalizeFrom_space hc]
      exact ih
    · rw [Bool.not_eq_true] at hc
      have hs : ∀ p : Option Nat, space none p c = [] := by
        intro p
        cases p <;> rfl
      rw [normalizeFrom_kept hc, normalizeFrom_kept hc, hs, hs, List.nil_append, List.nil_append,
        List.map_cons, List.map_cons]
      exact congrArg _ (fst_normalizeFrom s rfl)

/-- A character that is kept has its place in the normal form. -/
theorem kept_place {c : Nat} (hc : isSpace c = false) (s rest : Str) :
    ∀ {last pending : Option Nat} {i : Nat}, ∃ k : Nat,
      (normalizeFrom last pending i (s ++ c :: rest))[k]? = some (equivalent c, i + s.length) := by
  induction s with
  | nil =>
    intro last pending i
    refine ⟨(space last pending c).length, ?_⟩
    rw [List.nil_append, normalizeFrom_kept hc, List.getElem?_append_right (Nat.le_refl _),
      Nat.sub_self]
    rfl
  | cons x s ih =>
    intro last pending i
    rw [List.cons_append, List.length_cons]
    have hi : i + (s.length + 1) = i + 1 + s.length := by omega
    rw [hi]
    by_cases hx : isSpace x = true
    · rw [normalizeFrom_space hx]
      exact ih
    · rw [Bool.not_eq_true] at hx
      obtain ⟨k, hk⟩ := @ih (some (equivalent x)) none (i + 1)
      refine ⟨(space last pending x).length + (k + 1), ?_⟩
      rw [normalizeFrom_kept hx, List.getElem?_append_right (Nat.le_add_right _ _),
        Nat.add_sub_cancel_left, List.getElem?_cons_succ, hk]

theorem head_kept (s : Str) : ∀ {pending : Option Nat} {i : Nat} {x : Nat × Nat},
    (normalizeFrom none pending i s).head? = some x → x.1 ≠ 32 := by
  induction s with
  | nil => exact nofun
  | cons c s ih =>
    intro pending i x h
    by_cases hc : isSpace c = true
    · rw [normalizeFrom_space hc] at h
      exact ih h
    · rw [Bool.not_eq_true] at hc
      have hs : space none pending c = [] := by cases pending <;> rfl
      rw [normalizeFrom_kept hc, hs] at h
      cases h
      exact equivalent_ne_space hc

theorem last_kept (s : Str) : ∀ {last pending : Option Nat} {i : Nat} {x : Nat × Nat},
    (normalizeFrom last pending i s).getLast? = some x → x.1 ≠ 32 := by
  induction s with
  | nil => exact nofun
  | cons c s ih =>
    intro last pending i x h
    by_cases hc : isSpace c = true
    · rw [normalizeFrom_space hc] at h
      exact ih h
    · rw [Bool.not_eq_true] at hc
      rw [normalizeFrom_kept hc, List.getLast?_append_cons] at h
      cases hr : normalizeFrom (some (equivalent c)) none (i + 1) s with
      | nil =>
        rw [hr] at h
        cases h
        exact equivalent_ne_space hc
      | cons y l =>
        rw [hr, List.getLast?_cons_cons] at h
        exact ih (hr ▸ h)

/-- A normal form neither begins nor ends with a space. -/
theorem normalForm_ends {c : Nat} : ((normalForm s).head? = some c → c ≠ 32) ∧
    ((normalForm s).getLast? = some c → c ≠ 32) := by
  unfold normalForm normalize
  rw [List.head?_map, List.getLast?_map]
  constructor
  · intro h
    obtain ⟨x, hx, rfl⟩ := Option.map_eq_some_iff.mp h
    exact head_kept s hx
  · intro h
    obtain ⟨x, hx, rfl⟩ := Option.map_eq_some_iff.mp h
    exact last_kept s hx

theorem getElem?_normalForm {k c : Nat} :
    (normalForm s)[k]? = some c ↔ ∃ o, (normalize s)[k]? = some (c, o) := by
  unfold normalForm
  rw [List.getElem?_map, Option.map_eq_some_iff]
  constructor
  · rintro ⟨⟨x, o⟩, hx, rfl⟩
    exact ⟨o, hx⟩
  · rintro ⟨o, ho⟩
    exact ⟨_, ho, rfl⟩

/-- A stretch of the normal form that begins and ends with kept characters, and the stretch of
the text it is the normal form of. -/
theorem stretch {needle : Str} {k c d : Nat} (hn : needle <+: (normalForm t).drop k)
    (hc : needle.head? = some c) (hd : needle.getLast? = some d) (hc' : c ≠ 32) (hd' : d ≠ 32) :
    ∃ start last, (normalize t)[k]? = some (c, start) ∧
      (normalize t)[k + needle.length - 1]? = some (d, last) ∧
      start < last + 1 ∧ last + 1 ≤ t.length ∧
      normalForm (slice t start (last + 1)) = needle := by
  obtain ⟨post, hpost⟩ := hn
  have hpos : 0 < needle.length := by
    cases needle with
    | nil => cases hc
    | cons x l => exact Nat.succ_pos _
  have hget : ∀ m < needle.length, (normalForm t)[k + m]? = needle[m]? := by
    intro m hm
    rw [← List.getElem?_drop, ← hpost, List.getElem?_append_left hm]
  have hfirst : (normalForm t)[k]? = some c := by
    have := hget 0 hpos
    rwa [Nat.add_zero, ← List.head?_eq_getElem?, hc] at this
  have hlast : (normalForm t)[k + needle.length - 1]? = some d := by
    have := hget (needle.length - 1) (by omega)
    rw [← List.getLast?_eq_getElem?, hd] at this
    rwa [Nat.add_sub_assoc hpos]
  obtain ⟨start, hs⟩ := getElem?_normalForm.mp hfirst
  obtain ⟨last, hl⟩ := getElem?_normalForm.mp hlast
  have hdrop := @normalizeFrom_drop t none none 0 start k c hc' (by rw [Nat.zero_add]; exact hs)
  rw [Nat.zero_add] at hdrop
  change (normalize t).drop k = _ at hdrop
  have hl' : (normalizeFrom none none start (t.drop start))[needle.length - 1]? =
      some (d, last) := by
    rw [← hdrop, List.getElem?_drop, ← Nat.add_sub_assoc hpos]
    exact hl
  have hrange := origin_range _ (List.mem_of_getElem? hl') hd'
  have hend := origin_range _ (List.mem_of_getElem? hl) hd'
  obtain ⟨j, hj⟩ := Nat.exists_eq_add_of_le hrange.1
  dsimp only at hj hend
  have htake := @normalizeFrom_take (t.drop start) none none start j (needle.length - 1) d hd'
    (by rw [← hj]; exact hl')
  have hlen : needle.length - 1 + 1 = needle.length := by omega
  rw [hlen, ← hdrop] at htake
  have hneedle : ((normalize t).drop k).map Prod.fst = needle ++ post := by
    rw [List.map_drop]
    exact hpost.symm
  refine ⟨start, last, hs, hl, by omega, by omega, ?_⟩
  have hslice : slice t start (last + 1) = (t.drop start).take (j + 1) := by
    rw [slice]
    congr 1
    omega
  rw [hslice]
  calc normalForm ((t.drop start).take (j + 1))
      = (normalizeFrom none none start ((t.drop start).take (j + 1))).map Prod.fst :=
        fst_normalizeFrom _ rfl
    _ = (((normalize t).drop k).map Prod.fst).take needle.length := by
        rw [← htake, List.map_take]
    _ = needle := by rw [hneedle, List.take_left]

variable {q : Str} {loc : Located}

theorem ends_of_ne_nil {needle : Str} (h : needle ≠ []) :
    ∃ c d, needle.head? = some c ∧ needle.getLast? = some d :=
  ⟨needle.head h, needle.getLast h, List.head?_eq_some_head h, List.getLast?_eq_some_getLast h⟩

/-- What the quote is looked for and found as. -/
theorem locate_eq_some : locate q t = some loc ↔ normalForm q ≠ [] ∧ ∃ k c d start last,
    find (normalForm q) (normalForm t) = some k ∧
    (normalize t)[k]? = some (c, start) ∧
    (normalize t)[k + (normalForm q).length - 1]? = some (d, last) ∧
    loc = ⟨start, last + 1, slice t start (last + 1)⟩ := by
  unfold locate
  dsimp only
  by_cases hq : normalForm q = []
  · rw [if_pos hq]
    exact iff_of_false nofun fun h => h.1 hq
  · rw [if_neg hq, and_iff_right hq]
    cases hf : find (normalForm q) (normalForm t) with
    | none => exact iff_of_false nofun fun ⟨k, _, _, _, _, hk, _⟩ => by cases hk
    | some k =>
      dsimp only
      constructor
      · intro h
        split at h
        · next hs hl =>
          cases h
          exact ⟨k, _, _, _, _, rfl, hs, hl, rfl⟩
        · cases h
      · rintro ⟨k', c, d, start, last, hk, hc, hd, rfl⟩
        cases hk
        rw [hc, hd]

theorem locate_some_iff : (∃ loc, locate q t = some loc) ↔
    normalForm q ≠ [] ∧ normalForm q <:+: normalForm t := by
  constructor
  · rintro ⟨loc, h⟩
    obtain ⟨hq, k, c, d, start, last, hf, -⟩ := locate_eq_some.mp h
    exact ⟨hq, find_some_iff.mp ⟨k, hf⟩⟩
  · rintro ⟨hq, hin⟩
    obtain ⟨k, hf⟩ := find_some_iff.mpr hin
    obtain ⟨c, d, hc, hd⟩ := ends_of_ne_nil hq
    obtain ⟨start, last, hs, hl, -⟩ := stretch (find_starts hf) hc hd
      (normalForm_ends.1 hc) (normalForm_ends.2 hd)
    exact ⟨_, locate_eq_some.mpr ⟨hq, k, c, d, start, last, hf, hs, hl, rfl⟩⟩

/-- What is found is a stretch of the text with the normal form of the quote. -/
theorem locate_sound (h : locate q t = some loc) : loc.start < loc.stop ∧
    loc.stop ≤ t.length ∧ loc.text = slice t loc.start loc.stop ∧
    normalForm loc.text = normalForm q := by
  obtain ⟨hq, k, c, d, start, last, hf, hs, hl, rfl⟩ := locate_eq_some.mp h
  obtain ⟨c', d', hc, hd⟩ := ends_of_ne_nil hq
  obtain ⟨start', last', hs', hl', hlt, hle, hnorm⟩ := stretch (find_starts hf) hc hd
    (normalForm_ends.1 hc) (normalForm_ends.2 hd)
  rw [hs] at hs'
  rw [hl] at hl'
  cases hs'
  cases hl'
  exact ⟨hlt, hle, rfl, hnorm⟩

/-- A text is all whitespace, or whitespace up to a character that is none. -/
theorem blank_or_kept (s : Str) : (∀ c ∈ s, isSpace c = true) ∨
    ∃ pre c post, s = pre ++ c :: post ∧ (∀ x ∈ pre, isSpace x = true) ∧ isSpace c = false := by
  induction s with
  | nil => exact Or.inl fun c hc => absurd hc List.not_mem_nil
  | cons c s ih =>
    by_cases hc : isSpace c = true
    · rcases ih with hall | ⟨pre, d, post, rfl, hpre, hd⟩
      · exact Or.inl (List.forall_mem_cons.mpr ⟨hc, hall⟩)
      · exact Or.inr ⟨c :: pre, d, post, rfl, List.forall_mem_cons.mpr ⟨hc, hpre⟩, hd⟩
    · rw [Bool.not_eq_true] at hc
      exact Or.inr ⟨[], c, s, rfl, fun x hx => absurd hx List.not_mem_nil, hc⟩

theorem normalForm_blank (h : ∀ c ∈ s, isSpace c = true) : normalForm s = [] := by
  obtain ⟨p, hp⟩ := @normalizeFrom_leading [] _ h none 0
  rw [List.append_nil] at hp
  rw [normalForm, normalize, hp]
  rfl

theorem normalForm_leading {pre : Str} (h : ∀ c ∈ pre, isSpace c = true) :
    normalForm (pre ++ s) = normalForm s := by
  obtain ⟨p, hp⟩ := @normalizeFrom_leading s _ h none 0
  rw [normalForm, normalize, hp]
  exact fst_normalizeFrom_none s

theorem normalize_order {k k' : Nat} {x y : Nat × Nat} (hk : k ≤ k')
    (hx : (normalize t)[k]? = some x) (hy : (normalize t)[k']? = some y) : x.2 ≤ y.2 := by
  rcases Nat.eq_or_lt_of_le hk with rfl | hlt
  · rw [hx] at hy
    cases hy
    exact Nat.le_refl _
  · have hpair := (@origins_increase t none none 0 0 nofun (Nat.le_refl 0)).1
    rw [List.pairwise_iff_getElem] at hpair
    obtain ⟨hlk, rfl⟩ := List.getElem?_eq_some_iff.mp hx
    obtain ⟨hlk', rfl⟩ := List.getElem?_eq_some_iff.mp hy
    exact Nat.le_of_lt (hpair k k' hlk hlk' hlt)

/-- A stretch that begins earlier with the same normal form begins with whitespace up to it. -/
theorem locate_first (h : locate q t = some loc) {i j : Nat} (hi : i < loc.start)
    (hn : normalForm (slice t i j) = normalForm q) :
    ∀ c ∈ slice t i loc.start, isSpace c = true := by
  obtain ⟨hq, k, c₀, d₀, start, last, hf, hs, hl, rfl⟩ := locate_eq_some.mp h
  dsimp only at hi ⊢
  rcases blank_or_kept (slice t i j) with hblank | ⟨pre, c, post, hsplit, hpre, hc⟩
  · exact absurd (hn.symm.trans (normalForm_blank hblank)) hq
  · -- the place of the first character that is kept of the earlier stretch
    obtain ⟨hlt, hle, -⟩ := locate_sound h
    dsimp only at hlt hle
    obtain ⟨rest, hdrop⟩ : ∃ rest, t.drop i = pre ++ c :: (post ++ rest) := by
      refine ⟨(t.drop i).drop (j - i), ?_⟩
      have := (List.take_append_drop (j - i) (t.drop i)).symm
      change t.drop i = slice t i j ++ _ at this
      rw [hsplit] at this
      simpa using this
    have ht : t = (t.take i ++ pre) ++ c :: (post ++ rest) := by
      rw [List.append_assoc, ← hdrop, List.take_append_drop]
    have hlen : (t.take i ++ pre).length = i + pre.length := by
      rw [List.length_append, List.length_take]
      omega
    obtain ⟨k', hk'⟩ := @kept_place c hc (t.take i ++ pre) (post ++ rest) none none 0
    rw [← ht, hlen] at hk'
    have hkept := @normalizeFrom_drop t none none 0 (i + pre.length) k' _
      (equivalent_ne_space hc) hk'
    have hrest : t.drop (0 + (i + pre.length)) = c :: post ++ rest := by
      rw [Nat.zero_add, ← List.drop_drop, hdrop, List.drop_left]
      rfl
    have hneedle : normalForm q <+: (normalForm t).drop k' := by
      have hform : normalForm q = normalForm (c :: post) := by
        rw [← hn, hsplit, normalForm_leading hpre]
      rw [Nat.zero_add] at hrest hkept
      rw [hform, normalForm, normalForm, ← List.map_drop]
      change _ <+: ((normalizeFrom none none 0 t).drop k').map Prod.fst
      rw [hkept, hrest]
      have hpost : (normalize (c :: post)).map Prod.fst =
          (normalizeFrom none none (i + pre.length) (c :: post)).map Prod.fst :=
        fst_normalizeFrom _ rfl
      rw [hpost]
      exact (normalizeFrom_starts (c :: post) _).map _
    have horder := normalize_order (find_first hf hneedle) hs hk'
    dsimp only at horder
    intro x hx
    apply hpre x
    rw [slice, hdrop, List.take_append_of_le_length (by omega)] at hx
    exact List.mem_of_mem_take hx

end Autora.Quotes
