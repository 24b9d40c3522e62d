import Mathlib

/-! The worklist search for everything reachable from a list of starting points
in a finite graph: sound always, complete once the fuel covers every edge. -/

namespace Worklists

variable {α : Type} [DecidableEq α]

/-- Take the top of the stack; when it is new, record it and push what it leads to. -/
def explore (next : α → List α) : Nat → List α → List α → List α
  | 0, seen, _ => seen
  | _ + 1, seen, [] => seen
  | n + 1, seen, x :: todo =>
    if x ∈ seen then explore next n seen todo
    else explore next n (x :: seen) ((next x).reverse ++ todo)

/-- One edge of the graph. -/
def Edge (next : α → List α) (a b : α) : Prop := b ∈ next a

theorem explore_sound {next : α → List α} {n : Nat} {seen todo : List α} {x : α}
    (h : x ∈ explore next n seen todo) :
    x ∈ seen ∨ ∃ d ∈ todo, Relation.ReflTransGen (Edge next) d x := by
  induction n generalizing seen todo with
  | zero => exact .inl h
  | succ n ih =>
    cases todo with
    | nil => exact .inl h
    | cons y todo =>
      unfold explore at h
      split at h
      · rcases ih h with hs | ⟨d, hd, hr⟩
        · exact .inl hs
        · exact .inr ⟨d, List.mem_cons_of_mem _ hd, hr⟩
      · rcases ih h with hs | ⟨d, hd, hr⟩
        · rcases List.mem_cons.mp hs with rfl | hs
          · exact .inr ⟨x, by simp, .refl⟩
          · exact .inl hs
        · rcases List.mem_append.mp hd with hd | hd
          · exact .inr ⟨y, by simp, .head (List.mem_reverse.mp hd) hr⟩
          · exact .inr ⟨d, List.mem_cons_of_mem _ hd, hr⟩

/-- The edges still to be pushed: those out of the nodes not seen yet. -/
def pending (next : α → List α) (nodes seen : List α) : Nat :=
  ((nodes.filter (· ∉ seen)).map fun x => (next x).length).sum

theorem pending_cons_le (next : α → List α) (nodes seen : List α) (x : α) :
    pending next nodes (x :: seen) ≤ pending next nodes seen := by
  induction nodes with
  | nil => exact Nat.le_refl _
  | cons y nodes ih =>
    by_cases hy : y ∈ seen
    · simpa [pending, List.filter_cons, hy] using ih
    · by_cases hyx : y = x
      · simp only [pending, List.filter_cons, List.mem_cons, hyx, true_or, not_true_eq_false,
          decide_false, Bool.false_eq_true, if_false] at ih ⊢
        split
        · simp only [List.map_cons, List.sum_cons]
          omega
        · exact ih
      · simp only [pending, List.filter_cons, List.mem_cons, hyx, hy, or_self,
          not_false_eq_true, decide_true, if_true, List.map_cons, List.sum_cons] at ih ⊢
        omega

theorem pending_cons {next : α → List α} {nodes seen : List α} {x : α}
    (hx : x ∈ nodes) (hs : x ∉ seen) :
    pending next nodes (x :: seen) + (next x).length ≤ pending next nodes seen := by
  induction nodes with
  | nil => simp at hx
  | cons y nodes ih =>
    by_cases hxy : x = y
    · subst x
      have hle := pending_cons_le next nodes seen y
      simp only [pending, List.filter_cons, List.mem_cons, true_or, not_true_eq_false,
        decide_false, Bool.false_eq_true, if_false, hs, not_false_eq_true, decide_true,
        if_true, List.map_cons, List.sum_cons] at hle ⊢
      omega
    · have hh := ih (by simpa [hxy] using hx)
      have hyx : ¬ y = x := fun e => hxy e.symm
      by_cases hy : y ∈ seen
      · simpa [pending, List.filter_cons, hy] using hh
      · simp only [pending, List.filter_cons, List.mem_cons, hyx, hy, or_self,
          not_false_eq_true, decide_true, if_true, List.map_cons, List.sum_cons] at hh ⊢
        omega

/-- With enough fuel the search ends with its stack empty: what it returns
contains what it started from and everything one edge away from its members. -/
theorem explore_closed {next : α → List α} {nodes : List α}
    (hnext : ∀ x ∈ nodes, ∀ y ∈ next x, y ∈ nodes) {n : Nat} {seen todo : List α}
    (htodo : ∀ x ∈ todo, x ∈ nodes) (hfuel : todo.length + pending next nodes seen ≤ n)
    (hseen : ∀ x ∈ seen, ∀ y ∈ next x, y ∈ seen ∨ y ∈ todo) :
    (∀ x, x ∈ seen ∨ x ∈ todo → x ∈ explore next n seen todo) ∧
      ∀ x ∈ explore next n seen todo, ∀ y ∈ next x, y ∈ explore next n seen todo := by
  induction n generalizing seen todo with
  | zero =>
    have ht : todo = [] := List.eq_nil_of_length_eq_zero (by omega)
    subst ht
    exact ⟨fun x hx => hx.elim id (by simp), fun x hx y hy => (hseen x hx y hy).elim id (by simp)⟩
  | succ n ih =>
    cases todo with
    | nil =>
      exact ⟨fun x hx => hx.elim id (by simp),
        fun x hx y hy => (hseen x hx y hy).elim id (by simp)⟩
    | cons z todo =>
      have hz := htodo z (by simp)
      unfold explore
      split
      · next hin =>
        simp only [List.length_cons] at hfuel
        have hh := @ih seen todo (fun x hx => htodo x (by simp [hx]))
          (by omega) (fun x hx y hy => by
            rcases hseen x hx y hy with h | h
            · exact .inl h
            · rcases List.mem_cons.mp h with rfl | h
              · exact .inl hin
              · exact .inr h)
        refine ⟨fun x hx => hh.1 x ?_, hh.2⟩
        rcases hx with hx | hx
        · exact .inl hx
        · rcases List.mem_cons.mp hx with rfl | hx
          · exact .inl hin
          · exact .inr hx
      · next hin =>
        have hp : pending next nodes (z :: seen) + (next z).length ≤ pending next nodes seen :=
          pending_cons hz hin
        simp only [List.length_cons] at hfuel
        have hh := @ih (z :: seen) ((next z).reverse ++ todo)
          (fun x hx => by
            rcases List.mem_append.mp hx with hx | hx
            · exact hnext z hz x (List.mem_reverse.mp hx)
            · exact htodo x (by simp [hx]))
          (by simp only [List.length_append, List.length_reverse]; omega)
          (fun x hx y hy => by
            rcases List.mem_cons.mp hx with rfl | hx
            · exact .inr (by simp [hy])
            · rcases hseen x hx y hy with h | h
              · exact .inl (by simp [h])
              · rcases List.mem_cons.mp h with rfl | h
                · exact .inl (by simp)
                · exact .inr (by simp [h]))
        refine ⟨fun x hx => hh.1 x ?_, hh.2⟩
        rcases hx with hx | hx
        · exact .inl (by simp [hx])
        · rcases List.mem_cons.mp hx with rfl | hx
          · exact .inl (by simp)
          · exact .inr (by simp [hx])

/-- The search from an empty record returns exactly what the stack leads to. -/
theorem mem_explore_iff {next : α → List α} {nodes : List α}
    (hnext : ∀ x ∈ nodes, ∀ y ∈ next x, y ∈ nodes) {n : Nat} {todo : List α}
    (htodo : ∀ x ∈ todo, x ∈ nodes) (hfuel : todo.length + pending next nodes [] ≤ n) {x : α} :
    x ∈ explore next n [] todo ↔ ∃ d ∈ todo, Relation.ReflTransGen (Edge next) d x := by
  obtain ⟨hstart, hclosed⟩ := explore_closed hnext htodo hfuel (by simp)
  constructor
  · intro h
    rcases explore_sound h with hs | hd
    · simp at hs
    · exact hd
  · rintro ⟨d, hd, hr⟩
    induction hr with
    | refl => exact hstart d (.inr hd)
    | tail _ he ih => exact hclosed _ ih _ he

end Worklists
