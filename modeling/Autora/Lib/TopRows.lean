import Mathlib.Data.List.Perm.Basic
import Mathlib.Data.List.Sort
import Mathlib.Order.Lattice.Nat

/-! Queries for the newest rows: `order by key desc limit n`, where rows of one key may come in any
order. -/

namespace TopRows

variable {α : Type} {key : α → Nat} {n : Nat} {xs out : List α}

/-- A possible answer to the query. -/
def IsTop (key : α → Nat) (n : Nat) (xs out : List α) : Prop :=
  ∃ rest, (out ++ rest).Perm xs ∧ out.Pairwise (fun a b => key b ≤ key a) ∧
    (∀ a ∈ out, ∀ b ∈ rest, key b ≤ key a) ∧ out.length = min n xs.length

/-- The first rows of a sorted list come before the others. -/
theorem take_before_drop {r : α → α → Prop} (hsorted : xs.Pairwise r) (n : Nat) :
    ∀ a ∈ xs.take n, ∀ b ∈ xs.drop n, r a b := by
  rw [← List.take_append_drop n xs, List.pairwise_append] at hsorted
  exact hsorted.2.2

/-- `order by key desc, tie desc`. -/
def Before (key tie : α → Nat) (a b : α) : Prop :=
  key b < key a ∨ key b = key a ∧ tie b ≤ tie a

instance {tie : α → Nat} : DecidableRel (Before key tie) := fun a b =>
  inferInstanceAs (Decidable (key b < key a ∨ key b = key a ∧ tie b ≤ tie a))

instance {tie : α → Nat} : Std.Total (Before key tie) where
  total a b := by
    unfold Before
    omega

instance {tie : α → Nat} : IsTrans α (Before key tie) where
  trans a b c hab hbc := by
    unfold Before at *
    omega

theorem Before.le {tie : α → Nat} {a b : α} (h : Before key tie a b) : key b ≤ key a := by
  unfold Before at h
  omega

/-- The first rows in that order. -/
def top (key tie : α → Nat) (n : Nat) (xs : List α) : List α :=
  (xs.insertionSort (Before key tie)).take n

theorem top_isTop {tie : α → Nat} : IsTop key n xs (top key tie n xs) := by
  have hsorted := List.pairwise_insertionSort (Before key tie) xs
  refine ⟨(xs.insertionSort (Before key tie)).drop n, ?_, ?_, fun a ha b hb => ?_, ?_⟩
  · rw [top, List.take_append_drop]
    exact List.perm_insertionSort _ xs
  · exact (hsorted.imp fun h => h.le).sublist (List.take_sublist _ _)
  · exact (take_before_drop hsorted n a ha b hb).le
  · rw [top, List.length_take, List.length_insertionSort]

end TopRows
