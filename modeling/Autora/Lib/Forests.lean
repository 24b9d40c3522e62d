import Mathlib.Data.List.Nodup
import Mathlib.Logic.Function.Basic

/-! Forests given by the parent links of rows, added one at a time. -/

namespace Forests

variable {α : Type} {key : α → Nat} {parent : α → Option Nat} {rows : List α} {d : α}

/-- Rows in an order in which they can be added: a parent first, and no key twice. -/
inductive Grown (key : α → Nat) (parent : α → Option Nat) : List α → Prop
  | nil : Grown key parent []
  | snoc {rows : List α} {d : α} (h : Grown key parent rows) (hkey : key d ∉ rows.map key)
      (hparent : ∀ p, parent d = some p → p ∈ rows.map key) : Grown key parent (rows ++ [d])

theorem Grown.nodup (h : Grown key parent rows) : (rows.map key).Nodup := by
  induction h with
  | nil => exact List.nodup_nil
  | snoc _ hkey _ ih =>
    rw [List.map_append, List.map_singleton, List.nodup_append]
    refine ⟨ih, List.nodup_singleton _, fun a ha b hb hab => ?_⟩
    rw [hab, List.mem_singleton.mp hb] at ha
    exact hkey ha

theorem Grown.parent_mem (h : Grown key parent rows) (hd : d ∈ rows) {p : Nat}
    (hp : parent d = some p) : p ∈ rows.map key := by
  induction h with
  | nil => cases hd
  | snoc _ _ hparent ih =>
    rw [List.map_append]
    rcases List.mem_append.mp hd with hd | hd
    · exact List.mem_append_left _ (ih hd)
    · rw [List.mem_singleton.mp hd] at hp
      exact List.mem_append_left _ (hparent p hp)

/-- How late a row is: later than its parent. -/
theorem Grown.rank (h : Grown key parent rows) : ∃ rank : Nat → Nat, ∀ d ∈ rows,
    rank (key d) < rows.length ∧ ∀ p, parent d = some p → rank p < rank (key d) := by
  induction h with
  | nil => exact ⟨fun _ => 0, fun _ hd => by cases hd⟩
  | @snoc rows d h hkey hparent ih =>
    obtain ⟨rank, hrank⟩ := ih
    have hold : ∀ k ∈ rows.map key, Function.update rank (key d) rows.length k = rank k := by
      intro k hk
      refine Function.update_of_ne (fun heq => ?_) _ _
      rw [heq] at hk
      exact hkey hk
    refine ⟨Function.update rank (key d) rows.length, fun e he => ?_⟩
    rw [List.length_append, List.length_singleton]
    rcases List.mem_append.mp he with he | he
    · obtain ⟨hlt, hup⟩ := hrank e he
      rw [hold _ (List.mem_map_of_mem he)]
      refine ⟨Nat.lt_succ_of_lt hlt, fun p hp => ?_⟩
      rw [hold p (h.parent_mem he hp)]
      exact hup p hp
    · rw [List.mem_singleton.mp he, Function.update_self]
      refine ⟨Nat.lt_succ_self _, fun p hp => ?_⟩
      obtain ⟨r, hr, rfl⟩ := List.mem_map.mp (hparent p hp)
      rw [hold _ (hparent _ hp)]
      exact (hrank r hr).1

end Forests
