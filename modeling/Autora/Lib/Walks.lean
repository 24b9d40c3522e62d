import Mathlib.Data.List.Chain

/-! Walks along a relation, counted by their steps, and the lists of what they pass. -/

namespace Walks

variable {α : Type} {r : α → α → Prop} {a b c : α} {path : List α} {n : Nat}

/-- `n` steps from `a` to the last argument. -/
inductive Walk (r : α → α → Prop) (a : α) : Nat → α → Prop
  | start : Walk r a 0 a
  | step {n : Nat} {b c : α} : Walk r a n b → r b c → Walk r a (n + 1) c

/-- What is passed on the way from `a` to `b`, without `a`. -/
structure Route (r : α → α → Prop) (a : α) (path : List α) (b : α) : Prop where
  chain : (a :: path).IsChain r
  last : (a :: path).getLast? = some b

/-- No route is shorter. -/
def Shortest (r : α → α → Prop) (a : α) (path : List α) (b : α) : Prop :=
  Route r a path b ∧ ∀ other, Route r a other b → path.length ≤ other.length

theorem Route.nil : Route r a [] a := ⟨List.isChain_singleton a, rfl⟩

theorem Route.snoc (h : Route r a path b) (hr : r b c) : Route r a (path ++ [c]) c := by
  refine ⟨?_, by rw [← List.cons_append, List.getLast?_concat]⟩
  rw [← List.cons_append, List.isChain_append]
  refine ⟨h.chain, List.isChain_singleton c, ?_⟩
  intro x hx y hy
  rw [h.last, Option.mem_some_iff] at hx
  rw [List.head?_cons, Option.mem_some_iff] at hy
  rw [← hx, ← hy]
  exact hr

theorem Route.unsnoc (h : Route r a (path ++ [c]) b) : ∃ d, Route r a path d ∧ r d c ∧ c = b := by
  have hlast := h.last
  have hchain := h.chain
  rw [← List.cons_append, List.getLast?_concat, Option.some.injEq] at hlast
  rw [← List.cons_append, List.isChain_append] at hchain
  have hd := List.getLast?_eq_some_getLast (List.cons_ne_nil a path)
  exact ⟨_, ⟨hchain.1, hd⟩, hchain.2.2 _ (Option.mem_def.mpr hd) c rfl, hlast⟩

theorem Route.walk (h : Route r a path b) : Walk r a path.length b := by
  induction path using List.reverseRecOn generalizing b with
  | nil =>
    have hab : a = b := Option.some.inj h.last
    rw [← hab]
    exact Walk.start
  | append_singleton path c ih =>
    obtain ⟨d, hd, hr, rfl⟩ := h.unsnoc
    rw [List.length_append]
    exact (ih hd).step hr

/-- What holds at the start and is kept by every step holds where a walk ends. -/
theorem Walk.invariant {I : α → Prop} (h : Walk r a n b) (ha : I a)
    (hstep : ∀ x y, I x → r x y → I y) : I b := by
  induction h with
  | start => exact ha
  | step _ hr ih => exact hstep _ _ ih hr

theorem Shortest.of_walks (h : Route r a path b) (hmin : ∀ n, Walk r a n b → path.length ≤ n) :
    Shortest r a path b :=
  ⟨h, fun _ hother => hmin _ hother.walk⟩

end Walks
