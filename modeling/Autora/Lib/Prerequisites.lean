import Mathlib.Logic.Relation

/-! Items that need other items first. Nothing here depends on what the items
are: waiting reaches something live, and death spreads to whatever needs it. -/

namespace Prerequisites

variable {α : Type} {needs : α → α → Prop}

/-- When needing lowers a rank and whatever waits needs something that waits or
lives, whatever waits leads to something live. -/
theorem exists_live {rank : α → Nat} {waiting live : α → Prop}
    (hrank : ∀ a b, needs a b → rank b < rank a)
    (hneeds : ∀ a, waiting a → ∃ b, needs a b ∧ (waiting b ∨ live b)) {a : α} (ha : waiting a) :
    ∃ b, live b ∧ Relation.TransGen needs a b := by
  generalize hn : rank a = n
  induction n using Nat.strongRecOn generalizing a with
  | _ n ih =>
    obtain ⟨b, hab, hb⟩ := hneeds a ha
    rcases hb with hb | hb
    · have hlt := hrank a b hab
      obtain ⟨c, hc, hbc⟩ := ih (rank b) (by omega) hb rfl
      exact ⟨c, hc, .head hab hbc⟩
    · exact ⟨b, hb, .single hab⟩

/-- What spreads along one need spreads along a chain of them. -/
theorem spreads {dead : α → Prop} (h : ∀ a b, needs a b → dead b → dead a) {a b : α}
    (hab : Relation.TransGen needs a b) (hb : dead b) : dead a := by
  induction hab using Relation.TransGen.head_induction_on with
  | single hab => exact h _ _ hab hb
  | head hab _ ih => exact h _ _ hab ih

end Prerequisites
