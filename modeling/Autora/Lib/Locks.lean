import Mathlib.Logic.Function.Basic

/-! Locks that are held to the end: by their keys, at most one holder each. -/

namespace Locks

variable {κ ι : Type} {locks : κ → Option ι} {k k' : κ} {i j : ι}

/-- No key has two holders. -/
theorem holder_eq (hi : locks k = some i) (hj : locks k = some j) : i = j :=
  Option.some.inj (hi.symm.trans hj)

section Release

variable [DecidableEq ι]

def Free (locks : κ → Option ι) (k : κ) (i : ι) : Prop := locks k = none ∨ locks k = some i

instance : Decidable (Free locks k i) := inferInstanceAs (Decidable (_ ∨ _))

/-- The holder gives back all it holds. -/
def release (locks : κ → Option ι) (i : ι) (k : κ) : Option ι :=
  if locks k = some i then none else locks k

theorem release_other (hj : j ≠ i) (h : locks k = some j) : release locks i k = some j := by
  have hne : locks k ≠ some i := by
    rw [h]
    exact fun heq => hj (Option.some.inj heq)
  exact (if_neg hne).trans h

end Release

section Take

variable [DecidableEq κ]

def take (locks : κ → Option ι) (k : κ) (i : ι) : κ → Option ι := Function.update locks k (some i)

theorem take_self : take locks k i k = some i := Function.update_self _ _ _

theorem take_other (h : k' ≠ k) : take locks k i k' = locks k' := Function.update_of_ne h _ _

theorem take_kept (hfree : locks k = none ∨ locks k = some i) (h : locks k' = some j) :
    take locks k i k' = some j := by
  by_cases hkey : k' = k
  · subst hkey
    rw [take_self]
    rcases hfree with hnone | hown
    · cases hnone.symm.trans h
    · rw [← h, hown]
  · rw [take_other hkey, h]

end Take

end Locks
