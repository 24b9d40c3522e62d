import Mathlib.Data.List.Basic

/-! The elements of a list that were not seen before, each at its first place. -/

namespace Firsts

variable {α : Type} [DecidableEq α] {seen : List α} {a b : α} {l : List α}

def fresh (seen : List α) : List α → List α
  | [] => []
  | a :: l => if a ∈ seen then fresh seen l else a :: fresh (a :: seen) l

theorem fresh_seen (h : a ∈ seen) : fresh seen (a :: l) = fresh seen l := by
  simp [fresh, h]

theorem fresh_new (h : a ∉ seen) : fresh seen (a :: l) = a :: fresh (a :: seen) l := by
  simp [fresh, h]

theorem mem_fresh : b ∈ fresh seen l ↔ b ∈ l ∧ b ∉ seen := by
  induction l generalizing seen with
  | nil => simp [fresh]
  | cons a l ih =>
    by_cases ha : a ∈ seen
    · rw [fresh_seen ha, ih, List.mem_cons]
      constructor
      · exact fun h => ⟨Or.inr h.1, h.2⟩
      · intro h
        refine ⟨h.1.resolve_left fun hb => h.2 (hb ▸ ha), h.2⟩
    · rw [fresh_new ha, List.mem_cons, List.mem_cons, ih, List.mem_cons]
      constructor
      · intro h
        rcases h with rfl | h
        · exact ⟨Or.inl rfl, ha⟩
        · exact ⟨Or.inr h.1, fun hb => h.2 (Or.inr hb)⟩
      · intro h
        by_cases hba : b = a
        · exact Or.inl hba
        · exact Or.inr ⟨h.1.resolve_left hba, fun hb => hb.elim hba h.2⟩

theorem nodup_fresh : (fresh seen l).Nodup := by
  induction l generalizing seen with
  | nil => exact List.nodup_nil
  | cons a l ih =>
    by_cases ha : a ∈ seen
    · rw [fresh_seen ha]
      exact ih
    · rw [fresh_new ha]
      refine List.nodup_cons.mpr ⟨fun h => ?_, ih⟩
      exact (mem_fresh.mp h).2 List.mem_cons_self

/-- Only what is in `seen` counts, not its order. -/
theorem fresh_congr {seen' : List α} (h : ∀ a, a ∈ seen ↔ a ∈ seen') :
    fresh seen l = fresh seen' l := by
  induction l generalizing seen seen' with
  | nil => rfl
  | cons a l ih =>
    by_cases ha : a ∈ seen
    · rw [fresh_seen ha, fresh_seen ((h a).mp ha), ih h]
    · rw [fresh_new ha, fresh_new fun ha' => ha ((h a).mpr ha')]
      have hcons : ∀ b, b ∈ a :: seen ↔ b ∈ a :: seen' := by
        intro b
        rw [List.mem_cons, List.mem_cons, h b]
      rw [ih hcons]

end Firsts
