import Mathlib.Algebra.Order.BigOperators.Group.List
import Mathlib.Data.List.Nodup

/-! What the rows that count add up to. -/

namespace Totals

variable {α κ M : Type} [AddCommMonoid M] {p q : α → Bool} {amount : α → M} {rows : List α} {a : α}

def total (counts : α → Bool) (amount : α → M) (rows : List α) : M :=
  ((rows.filter counts).map amount).sum

@[simp] theorem total_nil : total p amount [] = 0 := rfl

theorem total_cons :
    total p amount (a :: rows) = (if p a then amount a else 0) + total p amount rows := by
  cases h : p a <;> simp [total, h]

theorem total_append {more : List α} :
    total p amount (rows ++ more) = total p amount rows + total p amount more := by
  simp [total]

theorem total_snoc :
    total p amount (rows ++ [a]) = total p amount rows + if p a then amount a else 0 := by
  rw [total_append, total_cons, total_nil, add_zero]

section Keyed

variable [DecidableEq κ] {key : α → κ} {f : α → α} {k : κ}

theorem map_absent (h : k ∉ rows.map key) :
    rows.map (fun a => if key a = k then f a else a) = rows := by
  refine (List.map_congr_left fun a ha => ?_).trans (List.map_id rows)
  have hne : key a ≠ k := fun heq => h (heq ▸ List.mem_map_of_mem ha)
  rw [if_neg hne]
  rfl

/-- A row that stops counting takes its amount with it. -/
theorem total_dropped (hkeys : (rows.map key).Nodup) (ha : a ∈ rows) (hdrop : p (f a) = false) :
    total p amount (rows.map fun b => if key b = key a then f b else b) +
      (if p a then amount a else 0) = total p amount rows := by
  induction rows with
  | nil => cases ha
  | cons b rows ih =>
    rw [List.map_cons, List.nodup_cons] at hkeys
    rcases List.mem_cons.mp ha with rfl | hmem
    · have hrest := @map_absent _ _ rows _ key f (key a) hkeys.1
      rw [List.map_cons, hrest, if_pos rfl, total_cons, total_cons, hdrop, add_comm]
      simp
    · have hne : key b ≠ key a := fun heq => hkeys.1 (heq ▸ List.mem_map_of_mem hmem)
      rw [List.map_cons, if_neg hne, total_cons, total_cons, add_assoc, ih hkeys.2 hmem]

end Keyed

section Ordered

variable [PartialOrder M] [IsOrderedAddMonoid M]

theorem total_nonneg (h : ∀ a ∈ rows, 0 ≤ amount a) : 0 ≤ total p amount rows := by
  refine List.sum_nonneg fun x hx => ?_
  obtain ⟨a, ha, rfl⟩ := List.mem_map.mp hx
  exact h a (List.mem_filter.mp ha).1

/-- The more rows count, the more they add up to. -/
theorem total_le_total (h : ∀ a ∈ rows, 0 ≤ amount a) (hpq : ∀ a ∈ rows, p a = true → q a = true) :
    total p amount rows ≤ total q amount rows := by
  induction rows with
  | nil => exact le_rfl
  | cons b rows ih =>
    have hrest := ih (fun a ha => h a (.tail _ ha)) fun a ha => hpq a (.tail _ ha)
    have hhead : (if p b then amount b else 0) ≤ if q b then amount b else 0 := by
      cases hp : p b with
      | true => simp [hpq b (.head _) hp]
      | false =>
        cases hq : q b with
        | true => simpa using h b (.head _)
        | false => simp
    rw [total_cons, total_cons]
    exact add_le_add hhead hrest

end Ordered

end Totals
