import Mathlib.Data.List.Forall2
import Mathlib.Data.List.Sort

/-! Two runs of one computation over lists that are related place by place. -/

namespace TwoRuns

open List

variable {α β γ : Type} {R : α → β → Prop} {l : List α} {l' : List β}

theorem map_eq {f : α → γ} {g : β → γ} (h : Forall₂ R l l') (hfg : ∀ a b, R a b → f a = g b) :
    l.map f = l'.map g := by
  induction h with
  | nil => rfl
  | cons hr _ ih => rw [map_cons, map_cons, hfg _ _ hr, ih]

theorem filter {p : α → Bool} {q : β → Bool} (h : Forall₂ R l l')
    (hpq : ∀ a b, R a b → p a = q b) : Forall₂ R (l.filter p) (l'.filter q) := by
  refine rel_filter ?_ h
  intro a b hr
  exact Bool.eq_iff_iff.mp (hpq a b hr)

theorem find? {p : α → Bool} {q : β → Bool} (h : Forall₂ R l l')
    (hpq : ∀ a b, R a b → p a = q b) : Option.Rel R (l.find? p) (l'.find? q) := by
  induction h with
  | nil => exact Option.Rel.none
  | @cons a b l l' hr _ ih =>
    rw [find?_cons, find?_cons, hpq a b hr]
    cases q b with
    | true => exact Option.Rel.some hr
    | false => exact ih

theorem flatMap {f : γ → List α} {g : γ → List β} {xs : List γ}
    (h : ∀ x ∈ xs, Forall₂ R (f x) (g x)) : Forall₂ R (xs.flatMap f) (xs.flatMap g) := by
  induction xs with
  | nil => exact Forall₂.nil
  | cons x xs ih =>
    rw [flatMap_cons, flatMap_cons]
    exact rel_append (h x mem_cons_self) (ih fun y hy => h y (mem_cons_of_mem _ hy))

theorem imp_of_mem {S : α → β → Prop} (h : Forall₂ R l l')
    (hs : ∀ a ∈ l, ∀ b ∈ l', R a b → S a b) : Forall₂ S l l' := by
  induction h with
  | nil => exact Forall₂.nil
  | cons hr _ ih =>
    refine Forall₂.cons (hs _ mem_cons_self _ mem_cons_self hr) (ih fun a ha b hb => ?_)
    exact hs a (mem_cons_of_mem _ ha) b (mem_cons_of_mem _ hb)

/-- Related lists are the two sides of one list of pairs. -/
theorem exists_pairs (h : Forall₂ R l l') :
    ∃ ps : List (α × β), (∀ p ∈ ps, R p.1 p.2) ∧ ps.map Prod.fst = l ∧ ps.map Prod.snd = l' := by
  induction h with
  | nil => exact ⟨[], fun p hp => absurd hp not_mem_nil, rfl, rfl⟩
  | @cons a b l l' hr _ ih =>
    obtain ⟨ps, hps, hl, hl'⟩ := ih
    refine ⟨(a, b) :: ps, ?_, by rw [map_cons, hl], by rw [map_cons, hl']⟩
    intro p hp
    rcases mem_cons.mp hp with rfl | hp
    · exact hr
    · exact hps p hp

theorem of_pairs {ps : List (α × β)} (h : ∀ p ∈ ps, R p.1 p.2) :
    Forall₂ R (ps.map Prod.fst) (ps.map Prod.snd) := by
  rw [forall₂_map_left_iff, forall₂_map_right_iff, forall₂_same]
  exact h

/-- Both raise the same, or both return what is related. -/
def Both {ε δ : Type} (S : γ → δ → Prop) : Except ε γ → Except ε δ → Prop
  | .ok a, .ok b => S a b
  | .error e, .error e' => e = e'
  | _, _ => False

section

variable {ε δ : Type} {S : γ → δ → Prop} {f : α → Except ε γ} {g : β → Except ε δ}

theorem mapM (h : Forall₂ R l l') (hfg : ∀ a b, R a b → Both S (f a) (g b)) :
    Both (Forall₂ S) (l.mapM f) (l'.mapM g) := by
  induction h with
  | nil => exact Forall₂.nil
  | @cons a b l l' hr _ ih =>
    rw [mapM_cons, mapM_cons]
    have hab := hfg a b hr
    cases hfa : f a <;> cases hgb : g b <;> rw [hfa, hgb] at hab
    · exact hab
    · exact hab.elim
    · exact hab.elim
    · cases hl : l.mapM f <;> cases hl' : l'.mapM g <;> rw [hl, hl'] at ih
      · exact ih
      · exact ih.elim
      · exact ih.elim
      · exact Forall₂.cons hab ih

end

/-- Both runs sort alike where the relation keeps the order. -/
theorem insertionSort {r : α → α → Prop} {s : β → β → Prop} [DecidableRel r] [DecidableRel s]
    (h : Forall₂ R l l') (hrs : ∀ a b c d, R a b → R c d → (r a c ↔ s b d)) :
    Forall₂ R (l.insertionSort r) (l'.insertionSort s) := by
  obtain ⟨ps, hps, rfl, rfl⟩ := exists_pairs h
  have hl := map_insertionSort (r := fun p q : α × β => r p.1 q.1) (s := r) Prod.fst ps
    fun p _ q _ => Iff.rfl
  have hl' := map_insertionSort (r := fun p q : α × β => r p.1 q.1) (s := s) Prod.snd ps
    fun p hp q hq => hrs _ _ _ _ (hps p hp) (hps q hq)
  rw [← hl, ← hl']
  exact of_pairs fun p hp => hps p ((mem_insertionSort _).mp hp)

/-- A list is known by its pages. -/
theorem eq_of_pages {l l' : List α} {k : Nat} (hk : 0 < k)
    (h : ∀ n, (l.drop n).take k = (l'.drop n).take k) : l = l' := by
  have hread : ∀ (l : List α) (n : Nat), l[n]? = ((l.drop n).take k).head? := by
    intro l n
    rw [head?_take, if_neg (by omega), head?_drop]
  apply ext_getElem?
  intro n
  rw [hread l n, hread l' n, h n]

end TwoRuns
