import Mathlib.Logic.Relation
import Autora.Quotes

/-! What typography changes of finding a quote. -/

namespace Autora.Quotes

open Untyped Texts

/-! A text as its characters that are kept, each with whether whitespace stands before it. -/

def words (gap : Bool) : Str → List (Bool × Nat)
  | [] => []
  | c :: s => if isSpace c then words true s else (gap, c) :: words false s

/-- Whitespace after the last character that is kept. -/
def trails (gap : Bool) : Str → Bool
  | [] => gap
  | c :: s => trails (isSpace c) s

def render (last : Option Nat) : List (Bool × Nat) → Str
  | [] => []
  | (gap, c) :: ws =>
    (if gap && last.any (fun l => !(cjk l || cjk c)) then [32] else []) ++ equivalent c ::
      render (some (equivalent c)) ws

theorem normalizeFrom_words (s : Str) : ∀ {last pending : Option Nat} {i : Nat},
    (normalizeFrom last pending i s).map Prod.fst = render last (words pending.isSome s) := by
  induction s with
  | nil => exact rfl
  | cons c s ih =>
    intro last pending i
    by_cases hc : isSpace c = true
    · rw [normalizeFrom_space hc, words, if_pos hc, ih]
      cases pending <;> rfl
    · rw [words, if_neg hc]
      rw [Bool.not_eq_true] at hc
      rw [normalizeFrom_kept hc, List.map_append, List.map_cons, ih, render]
      congr 1
      cases pending with
      | none => rfl
      | some p =>
        cases last with
        | none => rfl
        | some l =>
          simp only [space, Option.isSome_some, Bool.true_and, Option.any_some]
          cases cjk l || cjk c <;> rfl

theorem normalForm_words (s : Str) : normalForm s = render none (words false s) :=
  normalizeFrom_words s

theorem words_kept (s : Str) : ∀ {gap : Bool}, ∀ x ∈ words gap s, isSpace x.2 = false := by
  induction s with
  | nil => exact fun x hx => absurd hx List.not_mem_nil
  | cons c s ih =>
    intro gap
    rw [words]
    split
    · exact ih
    · next hc =>
      rw [Bool.not_eq_true] at hc
      exact List.forall_mem_cons.mpr ⟨hc, ih⟩

/-! Texts that differ in typography. -/

/-- One character for another of its class, or one whitespace run for another. -/
inductive Retyped : Str → Str → Prop
  | char (pre post : Str) {c c' : Nat} (h : equivalent c = equivalent c') :
      Retyped (pre ++ c :: post) (pre ++ c' :: post)
  | whitespace (pre post : Str) {run run' : Str} (h : run ≠ [] ∧ ∀ c ∈ run, isSpace c = true)
      (h' : run' ≠ [] ∧ ∀ c ∈ run', isSpace c = true) :
      Retyped (pre ++ run ++ post) (pre ++ run' ++ post)

abbrev Variant := Relation.ReflTransGen Retyped

/-- The same characters but for their classes, with whitespace between the same of them. -/
def SameWords : List (Bool × Nat) → List (Bool × Nat) → Prop :=
  List.Forall₂ fun x y => x.1 = y.1 ∧ equivalent x.2 = equivalent y.2

def mark (c : Nat) : Bool := c = 34 || c = 39

/-- The characters that are written otherwise in a normal form. -/
def styled : List Nat :=
  [0x201C, 0x201D, 0x201E, 0x2033, 0xFF02, 0x2018, 0x2019, 0x201A, 0x2032, 0xFF07,
    0x2010, 0x2011, 0x2012, 0x2013, 0x2014, 0x2212]

theorem equivalent_cases (c : Nat) : c ∈ styled ∨ equivalent c = c := by
  by_cases h : c ∈ styled
  · exact Or.inl h
  · refine Or.inr ?_
    simp only [styled, List.mem_cons, not_or] at h
    unfold equivalent
    simp [h]

theorem isSpace_equivalent (c : Nat) : isSpace (equivalent c) = isSpace c := by
  rcases equivalent_cases c with h | h
  · have hall : ∀ d ∈ styled, isSpace (equivalent d) = isSpace d := by decide +kernel
    exact hall c h
  · rw [h]

theorem cjk_equivalent {c : Nat} (h : cjk (equivalent c) = true) : cjk c = true := by
  rcases equivalent_cases c with hs | he
  · have hall : ∀ d ∈ styled, cjk (equivalent d) = false := by decide +kernel
    rw [hall c hs] at h
    cases h
  · rwa [he] at h

/-- Only a quotation mark has a member of its class that is CJK and one that is not. -/
theorem mark_of_styled {c : Nat} (h : cjk (equivalent c) ≠ cjk c) : mark (equivalent c) = true := by
  rcases equivalent_cases c with hs | he
  · have hall : ∀ d ∈ styled, cjk (equivalent d) ≠ cjk d → mark (equivalent d) = true := by
      decide +kernel
    exact hall c hs h
  · exact absurd (by rw [he]) h

theorem cjk_of_not_mark {c c' : Nat} (h : equivalent c = equivalent c')
    (hm : mark (equivalent c) = false) : cjk c = cjk c' := by
  have hc : cjk (equivalent c) = cjk c := by
    by_contra hne
    rw [mark_of_styled hne] at hm
    cases hm
  have hc' : cjk (equivalent c') = cjk c' := by
    by_contra hne
    rw [h, mark_of_styled hne] at hm
    cases hm
  rw [← hc, ← hc', h]

theorem words_append (s t : Str) : ∀ {gap : Bool},
    words gap (s ++ t) = words gap s ++ words (trails gap s) t := by
  induction s with
  | nil => exact rfl
  | cons c s ih =>
    intro gap
    rw [List.cons_append, words, words, trails]
    by_cases hc : isSpace c = true
    · rw [if_pos hc, if_pos hc, ih, hc]
    · rw [if_neg hc, if_neg hc, ih]
      rw [Bool.not_eq_true] at hc
      rw [hc]
      rfl

theorem trails_append (s t : Str) : ∀ {gap : Bool},
    trails gap (s ++ t) = trails (trails gap s) t := by
  induction s with
  | nil => exact rfl
  | cons c s ih =>
    intro gap
    rw [List.cons_append, trails, trails, ih]

theorem words_blank {run : Str} (h : ∀ c ∈ run, isSpace c = true) (hne : run ≠ []) :
    ∀ {gap : Bool}, words gap run = [] ∧ trails gap run = true := by
  induction run with
  | nil => exact absurd rfl hne
  | cons c run ih =>
    intro gap
    have hc := h c List.mem_cons_self
    rw [words, if_pos hc, trails, hc]
    cases run with
    | nil => exact ⟨rfl, rfl⟩
    | cons d run => exact ih (fun x hx => h x (List.mem_cons_of_mem c hx)) (List.cons_ne_nil d run)

theorem SameWords.refl (ws : List (Bool × Nat)) : SameWords ws ws :=
  List.forall₂_same.mpr fun _ _ => ⟨rfl, rfl⟩

theorem SameWords.trans {ws vs us : List (Bool × Nat)} (h : SameWords ws vs)
    (h' : SameWords vs us) : SameWords ws us := by
  induction h generalizing us with
  | nil => exact h'
  | cons hx _ ih =>
    cases h' with
    | cons hy hrest => exact .cons ⟨hx.1.trans hy.1, hx.2.trans hy.2⟩ (ih hrest)

theorem Retyped.words {s s' : Str} (h : Retyped s s') : SameWords (words false s) (words false s') := by
  cases h with
  | char pre post h =>
    rename_i c c'
    have hspace : isSpace c = isSpace c' := by
      rw [← isSpace_equivalent c, h, isSpace_equivalent c']
    rw [words_append, words_append]
    refine List.rel_append (SameWords.refl _) ?_
    rw [Quotes.words, Quotes.words, ← hspace]
    split
    · exact SameWords.refl _
    · exact .cons ⟨rfl, h⟩ (SameWords.refl _)
  | whitespace pre post h h' =>
    rw [words_append, words_append, words_append, words_append]
    obtain ⟨hw, -⟩ := @words_blank _ h.2 h.1 (trails false pre)
    obtain ⟨hw', -⟩ := @words_blank _ h'.2 h'.1 (trails false pre)
    rw [trails_append, trails_append, hw, hw', (@words_blank _ h.2 h.1 _).2,
      (@words_blank _ h'.2 h'.1 _).2]
    exact SameWords.refl _

theorem Variant.words {s s' : Str} (h : Variant s s') :
    SameWords (words false s) (words false s') := by
  induction h with
  | refl => exact SameWords.refl _
  | tail _ hstep ih => exact ih.trans hstep.words

/-! The two ends of what typography can do: every quotation mark full width, and every one plain. -/

def widened (c : Nat) : Nat :=
  if equivalent c = 34 then 0xFF02 else if equivalent c = 39 then 0xFF07 else c

def plained (c : Nat) : Nat := if mark (equivalent c) then equivalent c else c

def wide (s : Str) : Str := s.map widened

def plain (s : Str) : Str := s.map plained

theorem equivalent_widened (c : Nat) : equivalent (widened c) = equivalent c := by
  unfold widened
  split
  · next h =>
    rw [h]
    decide
  · split
    · next h =>
      rw [h]
      decide
    · rfl

theorem mark_cases {c : Nat} (h : mark c = true) : c = 34 ∨ c = 39 := by
  simpa [mark] using h

theorem equivalent_plained (c : Nat) : equivalent (plained c) = equivalent c := by
  unfold plained
  split
  · next h =>
    rcases mark_cases h with h | h
    · rw [h]
      decide
    · rw [h]
      decide
  · rfl

theorem cjk_widened {c : Nat} (h : mark (equivalent c) = true) : cjk (widened c) = true := by
  unfold widened
  rcases mark_cases h with h | h
  · rw [if_pos h]
    decide
  · rw [if_neg (by omega), if_pos h]
    decide

theorem cjk_plained {c : Nat} (h : mark (equivalent c) = true) : cjk (plained c) = false := by
  unfold plained
  rw [if_pos h]
  rcases mark_cases h with h | h
  · rw [h]
    decide
  · rw [h]
    decide

theorem Variant.map {f : Nat → Nat} (hf : ∀ c, equivalent (f c) = equivalent c) (s : Str) :
    ∀ {pre : Str}, Variant (pre ++ s) (pre ++ s.map f) := by
  induction s with
  | nil => exact .refl
  | cons c s ih =>
    intro pre
    have hstep : Retyped (pre ++ c :: s) (pre ++ f c :: s) := .char pre s (hf c).symm
    have hrest := @ih (pre ++ [f c])
    rw [List.append_assoc, List.append_assoc] at hrest
    exact Relation.ReflTransGen.head hstep hrest

theorem variant_wide (s : Str) : Variant s (wide s) := @Variant.map _ equivalent_widened s []

theorem variant_plain (s : Str) : Variant s (plain s) :=
  @Variant.map _ equivalent_plained s []

theorem words_map {f : Nat → Nat} (hf : ∀ c, equivalent (f c) = equivalent c) (s : Str) :
    ∀ {gap : Bool}, words gap (s.map f) = (words gap s).map fun x => (x.1, f x.2) := by
  have hspace : ∀ c, isSpace (f c) = isSpace c := by
    intro c
    rw [← isSpace_equivalent (f c), hf c, isSpace_equivalent]
  induction s with
  | nil => exact rfl
  | cons c s ih =>
    intro gap
    rw [List.map_cons, words, words, hspace c]
    split
    · exact ih
    · rw [ih]
      rfl

/-! A space directly before a quotation mark is what the width of the mark decides. -/

/-- The text without the spaces that stand directly before a quotation mark. -/
def tighten : Str → Str
  | [] => []
  | c :: s => if c = 32 ∧ s.head?.any mark then tighten s else c :: tighten s

/-- The first text is the second one without some of those spaces. -/
inductive Thin : Str → Str → Prop
  | nil : Thin [] []
  | keep (c : Nat) {s t : Str} (h : Thin s t) : Thin (c :: s) (c :: t)
  | drop {s t : Str} (hm : t.head?.any mark = true) (h : Thin s t) : Thin s (32 :: t)

/-- No space stands directly before a quotation mark. -/
def Tight (s : Str) : Prop := ∀ m, mark m = true → ¬ [32, m] <:+: s

theorem tighten_cons (c : Nat) (s : Str) : tighten (c :: s) =
    if c = 32 ∧ s.head?.any mark = true then tighten s else c :: tighten s := rfl

theorem tighten_kept {c : Nat} (h : c ≠ 32) (s : Str) : tighten (c :: s) = c :: tighten s := by
  rw [tighten_cons, if_neg fun hh => h hh.1]

theorem tighten_of_tight {s : Str} (h : Tight s) : tighten s = s := by
  induction s with
  | nil => rfl
  | cons c s ih =>
    have hs : Tight s := fun m hm hin => h m hm (List.infix_cons hin)
    rw [tighten, ih hs, if_neg]
    rintro ⟨rfl, hm⟩
    cases s with
    | nil => cases hm
    | cons d s => exact h d hm (List.prefix_append [32, d] s).isInfix

theorem tighten_append (s t : Str) : ∃ s', tighten (s ++ t) = s' ++ tighten t := by
  induction s with
  | nil => exact ⟨[], rfl⟩
  | cons c s ih =>
    obtain ⟨s', hs⟩ := ih
    rw [List.cons_append, tighten, hs]
    split
    · exact ⟨s', rfl⟩
    · exact ⟨c :: s', rfl⟩

/-- A text that does not end in a space loses the same spaces wherever it stands. -/
theorem tighten_prefix {s : Str} (t : Str) (h : s.getLast? ≠ some 32) :
    tighten s <+: tighten (s ++ t) := by
  induction s with
  | nil => exact List.nil_prefix
  | cons c s ih =>
    cases s with
    | nil =>
      have hc : c ≠ 32 := fun hc => h (by rw [hc]; rfl)
      rw [List.cons_append, tighten_kept hc, tighten_kept hc]
      exact List.cons_prefix_cons.mpr ⟨rfl, List.nil_prefix⟩
    | cons d s =>
      have hrest := ih (by rwa [List.getLast?_cons_cons] at h)
      rw [List.cons_append, tighten_cons c (d :: s), tighten_cons c (d :: s ++ t)]
      rw [List.head?_append_of_ne_nil _ (List.cons_ne_nil d s)]
      split
      · exact hrest
      · exact List.cons_prefix_cons.mpr ⟨rfl, hrest⟩

theorem tighten_infix {s t : Str} (h : s.getLast? ≠ some 32) (hin : s <:+: t) :
    tighten s <:+: tighten t := by
  obtain ⟨pre, post, rfl⟩ := hin
  obtain ⟨pre', hp⟩ := tighten_append pre (s ++ post)
  obtain ⟨rest, hr⟩ := tighten_prefix post h
  refine ⟨pre', rest, ?_⟩
  rw [List.append_assoc, List.append_assoc, hp, hr]

theorem Thin.split {s a b : Str} (h : Thin s (a ++ b)) : ∃ a' b', s = a' ++ b' ∧ Thin b' b := by
  induction a generalizing s with
  | nil => exact ⟨[], s, rfl, h⟩
  | cons c a ih =>
    rw [List.cons_append] at h
    cases h with
    | keep _ h =>
      obtain ⟨a', b', rfl, hb⟩ := ih h
      exact ⟨c :: a', b', rfl, hb⟩
    | drop _ h => exact ih h

/-- A text without such spaces, that does not end in one, is kept as it is. -/
theorem Thin.starts {x s b : Str} (hx : Tight x) (hlast : x.getLast? ≠ some 32)
    (h : Thin s (x ++ b)) : x <+: s := by
  induction x generalizing s with
  | nil => exact List.nil_prefix
  | cons c x ih =>
    have hx' : Tight x := fun m hm hin => hx m hm (List.infix_cons hin)
    have hlast' : x.getLast? ≠ some 32 := by
      cases x with
      | nil => exact nofun
      | cons d x => rwa [List.getLast?_cons_cons] at hlast
    rw [List.cons_append] at h
    cases h with
    | keep _ h => exact List.cons_prefix_cons.mpr ⟨rfl, ih hx' hlast' h⟩
    | drop hm h =>
      exfalso
      cases x with
      | nil => exact hlast rfl
      | cons d x => exact hx d hm (List.prefix_append [32, d] x).isInfix

theorem Thin.within {x s t : Str} (hx : Tight x) (hlast : x.getLast? ≠ some 32) (h : Thin s t)
    (hin : x <:+: t) : x <:+: s := by
  obtain ⟨pre, post, rfl⟩ := hin
  rw [List.append_assoc] at h
  obtain ⟨a', b', rfl, hb⟩ := h.split
  exact (hb.starts hx hlast).isInfix.trans (List.suffix_append a' b').isInfix

theorem Thin.eq_of_tight {s t : Str} (h : Thin s t) (ht : Tight t) : s = t := by
  induction h with
  | nil => rfl
  | keep c _ ih => rw [ih fun m hm hin => ht m hm (List.infix_cons hin)]
  | @drop s t hm _ _ =>
    exfalso
    cases t with
    | nil => cases hm
    | cons d t => exact ht d hm (List.prefix_append [32, d] t).isInfix

/-! Between the two ends lie the normal forms of all the variants. -/

/-- Whether a space is written before a character. -/
def glued (gap : Bool) (last : Option Nat) (c : Nat) : Bool :=
  gap && last.any (fun l => !(cjk l || cjk c))

theorem glued_plained {c c' : Nat} (h : equivalent c = equivalent c') {gap : Bool}
    {last : Option Nat} : glued gap last c = glued gap last (plained c') ∨
      glued gap last c = false ∧ mark (equivalent c) = true := by
  cases hm : mark (equivalent c) with
  | false =>
    have hc : cjk c = cjk (plained c') :=
      cjk_of_not_mark (h.trans (equivalent_plained c').symm) hm
    rw [glued, glued, hc]
    exact Or.inl rfl
  | true =>
    have hp := cjk_plained (h ▸ hm)
    cases hg : glued gap last c with
    | false => exact Or.inr ⟨rfl, rfl⟩
    | true =>
      refine Or.inl ?_
      simp only [glued, Bool.and_eq_true] at hg ⊢
      cases last with
      | none => cases hg.2
      | some l => simp_all

theorem glued_widened {c c' : Nat} (h : equivalent c = equivalent c') {gap : Bool}
    {last : Option Nat} : glued gap last (widened c') =
      (glued gap last c && !mark (equivalent c)) := by
  cases hm : mark (equivalent c) with
  | false =>
    have hc : cjk c = cjk (widened c') :=
      cjk_of_not_mark (h.trans (equivalent_widened c').symm) hm
    rw [glued, glued, hc, Bool.not_false, Bool.and_true]
  | true =>
    have hw := cjk_widened (h ▸ hm)
    cases last <;> simp [glued, hw]

theorem render_cons (last : Option Nat) (gap : Bool) (c : Nat) (ws : List (Bool × Nat)) :
    render last ((gap, c) :: ws) = (if glued gap last c then [32] else []) ++ equivalent c ::
      render (some (equivalent c)) ws := rfl

theorem thin_render {ws vs : List (Bool × Nat)} (h : SameWords ws vs) : ∀ {last : Option Nat},
    Thin (render last ws) (render last (vs.map fun x => (x.1, plained x.2))) := by
  induction h with
  | nil => exact .nil
  | @cons x y ws vs hxy _ ih =>
    intro last
    obtain ⟨gap, c⟩ := x
    obtain ⟨gap', c'⟩ := y
    obtain ⟨rfl, he⟩ := hxy
    dsimp only at he
    rw [List.map_cons, render_cons, render_cons, equivalent_plained, ← he]
    have hrest := Thin.keep (equivalent c) (@ih (some (equivalent c)))
    rcases @glued_plained c c' he gap last with hg | ⟨hg, hm⟩
    · rw [hg]
      split
      · exact .keep 32 hrest
      · exact hrest
    · rw [hg]
      cases glued gap last (plained c') with
      | false => exact hrest
      | true =>
        have hhead : (List.head? (equivalent c ::
            render (some (equivalent c)) (vs.map fun x => (x.1, plained x.2)))).any mark = true := hm
        exact .drop hhead hrest

theorem tighten_render {ws vs : List (Bool × Nat)} (h : SameWords ws vs)
    (hk : ∀ x ∈ ws, isSpace x.2 = false) : ∀ {last : Option Nat},
      tighten (render last ws) = render last (vs.map fun x => (x.1, widened x.2)) := by
  induction h with
  | nil => exact rfl
  | @cons x y ws vs hxy _ ih =>
    intro last
    obtain ⟨gap, c⟩ := x
    obtain ⟨gap', c'⟩ := y
    obtain ⟨rfl, he⟩ := hxy
    dsimp only at he
    have hspace : isSpace c = false := hk (gap, c) List.mem_cons_self
    have hc := equivalent_ne_space hspace
    have hrest := @ih (fun x hx => hk x (List.mem_cons_of_mem _ hx)) (some (equivalent c))
    rw [List.map_cons, render_cons, render_cons, equivalent_widened, ← he, ← hrest,
      glued_widened he]
    have hkeep := tighten_kept hc (render (some (equivalent c)) ws)
    cases hg : glued gap last c with
    | false => exact hkeep
    | true =>
      rw [if_pos rfl, List.singleton_append, tighten_cons, hkeep]
      cases hm : mark (equivalent c) <;> simp [hm]

theorem tight_render {ws : List (Bool × Nat)} (hk : ∀ x ∈ ws, isSpace x.2 = false) :
    ∀ {last : Option Nat}, Tight (render last (ws.map fun x => (x.1, widened x.2))) := by
  induction ws with
  | nil =>
    intro last m _ h
    cases List.infix_nil.mp h
  | cons x ws ih =>
    intro last m hm h
    obtain ⟨gap, c⟩ := x
    have hspace : isSpace c = false := hk (gap, c) List.mem_cons_self
    have hc := equivalent_ne_space hspace
    have hrest := @ih (fun x hx => hk x (List.mem_cons_of_mem _ hx)) (some (equivalent c)) m hm
    have hkept : ¬ [32, m] <:+: equivalent c ::
        render (some (equivalent c)) (ws.map fun x => (x.1, widened x.2)) := by
      intro hin
      rcases List.infix_cons_iff.mp hin with hin | hin
      · exact hc (List.cons_prefix_cons.mp hin).1.symm
      · exact hrest hin
    rw [List.map_cons, render_cons, equivalent_widened, @glued_widened c c rfl] at h
    cases hg : glued gap last c && !mark (equivalent c) with
    | false =>
      rw [hg] at h
      exact hkept h
    | true =>
      rw [hg] at h
      rcases List.infix_cons_iff.mp h with hin | hin
      · have he := (List.cons_prefix_cons.mp (List.cons_prefix_cons.mp hin).2).1
        rw [← he, hm, Bool.not_true, Bool.and_false] at hg
        cases hg
      · exact hkept hin

theorem Thin.normalForm {s s' : Str} (h : Variant s s') :
    Thin (normalForm s') (normalForm (plain s)) := by
  have hw := h.words
  have hsymm : SameWords (words false s') (words false s) := hw.flip.imp fun _ _ hh =>
    ⟨hh.1.symm, hh.2.symm⟩
  rw [normalForm_words, normalForm_words, plain, words_map equivalent_plained]
  exact thin_render hsymm

theorem tighten_normalForm {s s' : Str} (h : Variant s s') :
    tighten (normalForm s') = normalForm (wide s) := by
  have hw := h.words
  have hsymm : SameWords (words false s') (words false s) := hw.flip.imp fun _ _ hh =>
    ⟨hh.1.symm, hh.2.symm⟩
  rw [normalForm_words, normalForm_words, wide, words_map equivalent_widened]
  exact tighten_render hsymm (words_kept s')

theorem tight_normalForm (s : Str) : Tight (normalForm (wide s)) := by
  rw [normalForm_words, wide, words_map equivalent_widened]
  exact tight_render (words_kept s)

theorem Tight.mono {s t : Str} (h : Tight t) (hin : s <:+: t) : Tight s :=
  fun m hm hs => h m hm (hs.trans hin)

theorem normalForm_last (s : Str) : (normalForm s).getLast? ≠ some 32 :=
  fun h => normalForm_ends.2 h rfl

/-! Whether typography decides what is found. -/

def Found (q t : Str) : Prop := ∃ loc, locate q t = some loc

def Steady (q t : Str) : Prop :=
  ∀ q' t', Variant q q' → Variant t t' → (Found q' t' ↔ Found q t)

/-- Wherever the quote is found with its quotation marks and those of the text full width, the
width of the marks takes no space away. -/
def WidthSettled (q t : Str) : Prop :=
  normalForm (wide q) ≠ [] → normalForm (wide q) <:+: normalForm (wide t) →
    normalForm (plain q) = normalForm (wide q) ∧ normalForm (wide q) <:+: normalForm (plain t)

theorem tighten_ne_nil {s : Str} (h : s.getLast? ≠ some 32) (hne : s ≠ []) : tighten s ≠ [] := by
  induction s with
  | nil => exact absurd rfl hne
  | cons c s ih =>
    rw [tighten_cons]
    split
    · next hc =>
      cases s with
      | nil => cases hc.2
      | cons d s => exact ih (by rwa [List.getLast?_cons_cons] at h) (List.cons_ne_nil d s)
    · exact List.cons_ne_nil _ _

/-- A quote that is found is found with all the marks full width. -/
theorem Found.wide {q t q' t' : Str} (hq : Variant q q') (ht : Variant t t') (h : Found q' t') :
    normalForm (wide q) ≠ [] ∧ normalForm (wide q) <:+: normalForm (wide t) := by
  obtain ⟨hne, hin⟩ := locate_some_iff.mp h
  rw [← tighten_normalForm hq, ← tighten_normalForm ht]
  exact ⟨tighten_ne_nil (normalForm_last q') hne, tighten_infix (normalForm_last q') hin⟩

theorem Found.of_settled {q t q' t' : Str} (h : WidthSettled q t) (hq : Variant q q')
    (ht : Variant t t') (hne : normalForm (Quotes.wide q) ≠ [])
    (hin : normalForm (Quotes.wide q) <:+: normalForm (Quotes.wide t)) : Found q' t' := by
  obtain ⟨heq, hplain⟩ := h hne hin
  have htight : Tight (normalForm (Quotes.wide q)) := tight_normalForm q
  have hform : normalForm q' = normalForm (Quotes.wide q) := by
    have hthin := Thin.normalForm hq
    rw [heq] at hthin
    exact hthin.eq_of_tight htight
  refine locate_some_iff.mpr ⟨hform ▸ hne, ?_⟩
  rw [hform]
  exact (Thin.normalForm ht).within htight (normalForm_last _) hplain

theorem steady_iff {q t : Str} : Steady q t ↔ WidthSettled q t := by
  constructor
  · intro h hne hin
    have hwide : Found (wide q) (wide t) := locate_some_iff.mpr ⟨hne, hin⟩
    have hfound := (h _ _ (variant_wide q) (variant_wide t)).mp hwide
    obtain ⟨-, hmixed⟩ := locate_some_iff.mp ((h _ _ (variant_plain q) (variant_wide t)).mpr hfound)
    obtain ⟨-, hplain⟩ := locate_some_iff.mp ((h _ _ (variant_wide q) (variant_plain t)).mpr hfound)
    refine ⟨?_, hplain⟩
    -- the plain quote stands in the wide text, so it has no space before a mark
    have htight : Tight (normalForm (plain q)) := (tight_normalForm t).mono hmixed
    rw [← tighten_normalForm (variant_plain q), tighten_of_tight htight]
  · intro h q' t' hq ht
    constructor
    · intro hf
      obtain ⟨hne, hin⟩ := hf.wide hq ht
      exact .of_settled h .refl .refl hne hin
    · intro hf
      obtain ⟨hne, hin⟩ := hf.wide .refl .refl
      exact .of_settled h hq ht hne hin

/-! What a quote and the text that is found for it may differ in. -/

/-- Whitespace that one of two texts has and the other has not stands next to a CJK character. -/
def Layout (last next : Option Nat) (gap gap' : Bool) : Prop :=
  gap = true → gap' = false → last.any cjk = true ∨ next.any cjk = true

/-- Character by character of the same class, with whitespace in the same places but for
layout. -/
def Alike (close close' : Bool) (last last' : Option Nat) :
    List (Bool × Nat) → List (Bool × Nat) → Prop
  | [], [] => Layout last none close close' ∧ Layout last' none close' close
  | (gap, c) :: ws, (gap', c') :: vs =>
    equivalent c = equivalent c' ∧ Layout last (some c) gap gap' ∧
      Layout last' (some c') gap' gap ∧ Alike close close' (some c) (some c') ws vs
  | _, _ => False

def OnlyTypography (s t : Str) : Prop :=
  Alike (trails false s) (trails false t) none none (words false s) (words false t)

def kept (s : Str) : Str := s.filter fun c => !isSpace c

/-- Whitespace at an end of the quote stands next to a CJK character. -/
def EdgesLayout (q : Str) : Prop :=
  (q.head?.any isSpace = true → (kept q).head?.any cjk = true) ∧
    (q.getLast?.any isSpace = true → (kept q).getLast?.any cjk = true)

theorem words_snd (s : Str) : ∀ {gap : Bool}, (words gap s).map Prod.snd = kept s := by
  induction s with
  | nil => exact rfl
  | cons c s ih =>
    intro gap
    rw [words, kept, List.filter_cons]
    by_cases hc : isSpace c = true
    · rw [if_pos hc, ih, hc]
      rfl
    · rw [if_neg hc, List.map_cons, ih]
      rw [Bool.not_eq_true] at hc
      rw [hc]
      rfl

theorem words_gap (s : Str) : ∀ {gap : Bool} {x : Bool × Nat}, (words gap s).head? = some x →
    x.1 = (gap || s.head?.any isSpace) := by
  induction s with
  | nil => exact nofun
  | cons c s ih =>
    intro gap x h
    rw [words] at h
    rw [List.head?_cons, Option.any_some]
    by_cases hc : isSpace c = true
    · rw [if_pos hc] at h
      rw [ih h, hc, Bool.true_or, Bool.or_true]
    · rw [if_neg hc] at h
      cases h
      rw [Bool.not_eq_true] at hc
      rw [hc, Bool.or_false]

theorem trails_last (s : Str) : ∀ {gap : Bool}, s ≠ [] →
    trails gap s = s.getLast?.any isSpace := by
  induction s with
  | nil => exact fun h => absurd rfl h
  | cons c s ih =>
    intro gap _
    rw [trails]
    cases s with
    | nil => rfl
    | cons d s =>
      rw [ih (List.cons_ne_nil d s), List.getLast?_cons_cons]

/-- One character of two normal forms that are equal. -/
theorem render_inj {last last' : Option Nat} {gap gap' : Bool} {c c' : Nat}
    {ws vs : List (Bool × Nat)} (hc : isSpace c = false) (hc' : isSpace c' = false)
    (h : render last ((gap, c) :: ws) = render last' ((gap', c') :: vs)) :
    glued gap last c = glued gap' last' c' ∧ equivalent c = equivalent c' ∧
      render (some (equivalent c)) ws = render (some (equivalent c')) vs := by
  have hne := equivalent_ne_space hc
  have hne' := equivalent_ne_space hc'
  rw [render_cons, render_cons] at h
  cases hg : glued gap last c with
  | false =>
    cases hg' : glued gap' last' c' with
    | false =>
      rw [hg, hg'] at h
      obtain ⟨he, hr⟩ := List.cons.inj h
      exact ⟨rfl, he, hr⟩
    | true =>
      rw [hg, hg'] at h
      exact absurd (List.cons.inj h).1 hne
  | true =>
    cases hg' : glued gap' last' c' with
    | false =>
      rw [hg, hg'] at h
      exact absurd (List.cons.inj h).1.symm hne'
    | true =>
      rw [hg, hg'] at h
      obtain ⟨he, hr⟩ := List.cons.inj (List.cons.inj h).2
      exact ⟨rfl, he, hr⟩

theorem layout_of_glued {l l' c c' : Nat} {gap gap' : Bool}
    (h : glued gap (some (equivalent l)) c = glued gap' (some (equivalent l')) c') :
    Layout (some l) (some c) gap gap' := by
  rintro rfl rfl
  cases hl : cjk (equivalent l) with
  | true => exact Or.inl (cjk_equivalent hl)
  | false =>
    have hc : cjk c = true := by simpa [glued, hl] using h
    exact Or.inr hc

theorem alike_of_render {close : Bool} (ws : List (Bool × Nat)) : ∀ {vs : List (Bool × Nat)}
    {l l' : Nat}, (∀ x ∈ ws, isSpace x.2 = false) → (∀ x ∈ vs, isSpace x.2 = false) →
    render (some (equivalent l)) ws = render (some (equivalent l')) vs →
      (Alike close false (some l) (some l') ws vs ↔
        (close = true → cjk ((ws.map Prod.snd).getLastD l) = true)) := by
  induction ws with
  | nil =>
    intro vs l l' _ _ h
    cases vs with
    | nil =>
      constructor
      · intro ha hcl
        rcases ha.1 hcl rfl with hl | hn
        · exact hl
        · cases hn
      · exact fun hclose => ⟨fun hcl _ => Or.inl (hclose hcl), nofun⟩
    | cons y vs =>
      rw [render_cons] at h
      cases List.append_ne_nil_of_right_ne_nil _ (List.cons_ne_nil _ _) h.symm
  | cons x ws ih =>
    intro vs l l' hk hk' h
    obtain ⟨gap, c⟩ := x
    cases vs with
    | nil => cases List.append_ne_nil_of_right_ne_nil _ (List.cons_ne_nil _ _) h
    | cons y vs =>
      obtain ⟨gap', c'⟩ := y
      have hc : isSpace c = false := hk (gap, c) List.mem_cons_self
      have hc' : isSpace c' = false := hk' (gap', c') List.mem_cons_self
      obtain ⟨hg, he, hr⟩ := render_inj hc hc' h
      have hrest := ih (fun x hx => hk x (List.mem_cons_of_mem _ hx))
        (fun x hx => hk' x (List.mem_cons_of_mem _ hx)) hr
      rw [List.map_cons, List.getLastD_cons, ← hrest]
      exact ⟨fun ha => ha.2.2.2, fun ha => ⟨he, layout_of_glued hg, layout_of_glued hg.symm, ha⟩⟩

/-- Texts of one normal form, the second of them without whitespace at its ends. -/
theorem alike_iff {s t : Str} (hs : normalForm s ≠ []) (h : normalForm s = normalForm t)
    (hfirst : t.head?.any isSpace = false) (hlast : t.getLast?.any isSpace = false) :
    OnlyTypography s t ↔ EdgesLayout s := by
  have hne : s ≠ [] := by
    rintro rfl
    exact hs rfl
  have hne' : t ≠ [] := by
    rintro rfl
    exact hs h
  have hks := @words_kept s false
  have hkt := @words_kept t false
  rw [OnlyTypography, EdgesLayout, ← @words_snd s false, trails_last s hne, trails_last t hne',
    hlast]
  rw [normalForm_words, normalForm_words] at h
  rw [normalForm_words] at hs
  cases hw : words false s with
  | nil => exact absurd (by rw [hw]; rfl) hs
  | cons x ws =>
    cases hv : words false t with
    | nil =>
      rw [hv] at h
      exact absurd h hs
    | cons y vs =>
      obtain ⟨gap, c⟩ := x
      obtain ⟨gap', c'⟩ := y
      have hgap := words_gap s (by rw [hw]; rfl)
      have hgap' := words_gap t (by rw [hv]; rfl)
      dsimp only at hgap hgap'
      rw [Bool.false_or] at hgap hgap'
      rw [hfirst] at hgap'
      rw [hw] at hks h
      rw [hv] at hkt h
      obtain ⟨-, he, hr⟩ := render_inj (hks _ List.mem_cons_self) (hkt _ List.mem_cons_self) h
      rw [← hgap, hgap']
      have hrest := @alike_of_render (s.getLast?.any isSpace) ws vs c c'
        (fun x hx => hks x (List.mem_cons_of_mem _ hx))
        (fun x hx => hkt x (List.mem_cons_of_mem _ hx)) hr
      rw [List.map_cons, List.head?_cons, Option.any_some, List.getLast?_cons, Option.any_some,
        ← List.getLastD_eq_getLast?, ← hrest]
      constructor
      · rintro ⟨-, hlead, -, ha⟩
        refine ⟨fun hg => ?_, ha⟩
        rcases hlead hg rfl with hn | hc
        · cases hn
        · exact hc
      · rintro ⟨hlead, ha⟩
        exact ⟨he, fun hg _ => Or.inr (hlead hg), nofun, ha⟩

/-- A character of the normal form that is no space is one of the text. -/
theorem origin_kept (s : Str) : ∀ {last pending : Option Nat} {i : Nat} {x : Nat × Nat},
    x ∈ normalizeFrom last pending i s → x.1 ≠ 32 →
      ∃ j c, x.2 = i + j ∧ s[j]? = some c ∧ isSpace c = false := by
  induction s with
  | nil => exact fun h => absurd h List.not_mem_nil
  | cons c s ih =>
    intro last pending i x hx hne
    have hlater : ∀ {last pending}, x ∈ normalizeFrom last pending (i + 1) s →
        ∃ j d, x.2 = i + j ∧ (c :: s)[j]? = some d ∧ isSpace d = false := by
      intro last pending h
      obtain ⟨j, d, hj, hd, hkept⟩ := ih h hne
      exact ⟨j + 1, d, by omega, hd, hkept⟩
    by_cases hc : isSpace c = true
    · rw [normalizeFrom_space hc] at hx
      exact hlater hx
    · rw [Bool.not_eq_true] at hc
      rw [normalizeFrom_kept hc] at hx
      rcases List.mem_append.mp hx with hx | hx
      · exact absurd (mem_space hx).1 hne
      · rcases List.mem_cons.mp hx with rfl | hx
        · exact ⟨0, c, rfl, rfl, hc⟩
        · exact hlater hx

theorem normalize_kept {t : Str} {k c i : Nat} (h : (normalize t)[k]? = some (c, i))
    (hne : c ≠ 32) : ∃ d, t[i]? = some d ∧ isSpace d = false := by
  obtain ⟨j, d, hj, hd, hkept⟩ := origin_kept t (List.mem_of_getElem? h) hne
  rw [Nat.zero_add] at hj
  dsimp only at hj
  exact ⟨d, hj ▸ hd, hkept⟩

/-- What is found has no whitespace at its ends. -/
theorem located_edges {q t : Str} {loc : Located} (h : locate q t = some loc) :
    loc.text.head?.any isSpace = false ∧ loc.text.getLast?.any isSpace = false := by
  obtain ⟨hlt, hle, htext, -⟩ := locate_sound h
  obtain ⟨hq, k, c, d, start, last, hf, hs, hl, rfl⟩ := locate_eq_some.mp h
  obtain ⟨c', d', hc, hd⟩ := ends_of_ne_nil hq
  obtain ⟨start', last', hs', hl', -⟩ := stretch (find_starts hf) hc hd
    (normalForm_ends.1 hc) (normalForm_ends.2 hd)
  have hcs := hs.symm.trans hs'
  have hdl := hl.symm.trans hl'
  simp only [Option.some.injEq, Prod.mk.injEq] at hcs hdl
  obtain ⟨x, hx, hkx⟩ := normalize_kept hs (hcs.1 ▸ normalForm_ends.1 hc)
  obtain ⟨y, hy, hky⟩ := normalize_kept hl (hdl.1 ▸ normalForm_ends.2 hd)
  dsimp only at hlt hle ⊢
  constructor
  · rw [slice, List.head?_take, if_neg (by omega), List.head?_drop, hx]
    exact hkx
  · have hlen : (slice t start (last + 1)).length = last + 1 - start := by
      rw [slice, List.length_take, List.length_drop]
      omega
    have hend : start + (last + 1 - start - 1) = last := by omega
    rw [List.getLast?_eq_getElem?, hlen, slice, List.getElem?_take_of_lt (by omega),
      List.getElem?_drop, hend, hy]
    exact hky

/-- Typography never matters and only typography differs, when the width of the quotation marks
takes no space away and the quote has no whitespace at its ends but for layout. -/
theorem only_typography_iff (q t : Str) :
    (Steady q t ∧ ∀ loc, locate q t = some loc → OnlyTypography q loc.text) ↔
      (normalForm (wide q) ≠ [] → normalForm (wide q) <:+: normalForm (wide t) →
        normalForm (plain q) = normalForm (wide q) ∧
          normalForm (wide q) <:+: normalForm (plain t) ∧ EdgesLayout q) := by
  have hedges : ∀ {loc}, locate q t = some loc →
      (OnlyTypography q loc.text ↔ EdgesLayout q) := by
    intro loc h
    obtain ⟨-, -, -, hform⟩ := locate_sound h
    obtain ⟨hne, -⟩ := locate_some_iff.mp ⟨loc, h⟩
    obtain ⟨hfirst, hlast⟩ := located_edges h
    exact alike_iff hne hform.symm hfirst hlast
  rw [steady_iff]
  constructor
  · rintro ⟨hs, hdiffer⟩ hne hin
    obtain ⟨heq, hplain⟩ := hs hne hin
    obtain ⟨loc, hloc⟩ := Found.of_settled hs .refl .refl hne hin
    exact ⟨heq, hplain, (hedges hloc).mp (hdiffer loc hloc)⟩
  · intro h
    refine ⟨fun hne hin => ⟨(h hne hin).1, (h hne hin).2.1⟩, fun loc hloc => ?_⟩
    obtain ⟨hne, hin⟩ := Found.wide .refl .refl ⟨loc, hloc⟩
    exact (hedges hloc).mpr (h hne hin).2.2

/-- A full-width quotation mark takes the space before it away, a plain one does not. -/
theorem full_width_mark_not_found : ¬ ∀ q t, Steady q t ∧
    ∀ loc, locate q t = some loc → OnlyTypography q loc.text := by
  intro h
  have hstep : Retyped (lit "a " ++ 34 :: lit "b") (lit "a " ++ 0xFF02 :: lit "b") :=
    .char _ _ (by decide)
  have hsame := (h (lit "a " ++ 34 :: lit "b") (lit "a " ++ 34 :: lit "b")).1 _ _ .refl
    (Relation.ReflTransGen.single hstep)
  obtain ⟨loc, hloc⟩ := hsame.mpr ⟨⟨0, 4, lit "a " ++ 34 :: lit "b"⟩, by decide +kernel⟩
  have hnone : locate (lit "a " ++ 34 :: lit "b") (lit "a " ++ 0xFF02 :: lit "b") = none := by
    decide +kernel
  rw [hnone] at hloc
  cases hloc

end Autora.Quotes
