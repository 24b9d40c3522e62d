import Mathlib.Order.Basic

/-! Items kept in numbered blocks, of which only the lowest and the highest kept
block are known to the one who fetches the rest. The kept items form a stretch
when nothing due is missing between those two; the highest block itself may be
incomplete. A block is added at either end, and a stretch stays one as long as
no block was passed over on the way. -/

namespace Stretches

variable {α : Type} {block : α → Nat} {due kept kept' : α → Prop} {k : Nat}

/-- Nothing due is missing from the lowest kept block up to the highest, which is left out. -/
def Stretch (block : α → Nat) (due kept : α → Prop) : Prop :=
  ∀ lo hi x, kept lo → kept hi → due x → block lo ≤ block x → block x < block hi → kept x

/-- Nothing due is missing from the lowest kept block up to block `k`, which is left out. -/
def UpTo (block : α → Nat) (due kept : α → Prop) (k : Nat) : Prop :=
  ∀ lo x, kept lo → due x → block lo ≤ block x → block x < k → kept x

/-- Nothing due is missing from block `k` up to the highest kept block, which is left out. -/
def DownTo (block : α → Nat) (due kept : α → Prop) (k : Nat) : Prop :=
  ∀ hi x, kept hi → due x → k ≤ block x → block x < block hi → kept x

/-- Block `k` was fetched: what is due in it is kept, and no other block changed. -/
def Fetched (block : α → Nat) (due kept kept' : α → Prop) (k : Nat) : Prop :=
  ∀ x, kept' x ↔ kept x ∨ (block x = k ∧ due x)

theorem Stretch.of_none (h : ∀ x, ¬ kept x) : Stretch block due kept :=
  fun lo _ _ hlo => absurd hlo (h lo)

/-- The due items may be any that agree below the highest kept block. -/
theorem Stretch.congr {due' : α → Prop} (h : Stretch block due kept)
    (hdue : ∀ hi x, kept hi → block x < block hi → due' x → due x) :
    Stretch block due' kept :=
  fun lo hi x hlo hhi hx hle hlt => h lo hi x hlo hhi (hdue hi x hhi hlt hx) hle hlt

theorem Stretch.upTo {hi : α} (h : Stretch block due kept) (hhi : kept hi) :
    UpTo block due kept (block hi) :=
  fun lo x hlo hx hle hlt => h lo hi x hlo hhi hx hle hlt

theorem Stretch.downTo {lo : α} (h : Stretch block due kept) (hlo : kept lo) :
    DownTo block due kept (block lo) :=
  fun hi x hhi hx hle hlt => h lo hi x hlo hhi hx hle hlt

theorem UpTo.stretch (h : UpTo block due kept k) (hk : ∀ x, kept x → block x ≤ k) :
    Stretch block due kept := by
  intro lo hi x hlo hhi hx hle hlt
  have hhik := hk hi hhi
  exact h lo x hlo hx hle (by omega)

theorem DownTo.stretch (h : DownTo block due kept k) (hk : ∀ x, kept x → k ≤ block x) :
    Stretch block due kept := by
  intro lo hi x hlo hhi hx hle hlt
  have hlok := hk lo hlo
  exact h hi x hhi hx (by omega) hlt

theorem UpTo.of_none (h : ∀ x, ¬ kept x) : UpTo block due kept k :=
  fun lo _ hlo => absurd hlo (h lo)

/-- A block passed over is no loss when nothing due is missing in it, or nothing is kept yet. -/
theorem UpTo.pass (h : UpTo block due kept k)
    (hk : ∀ lo x, kept lo → due x → block x = k → kept x) : UpTo block due kept (k + 1) := by
  intro lo x hlo hx hle hlt
  by_cases hxk : block x = k
  · exact hk lo x hlo hx hxk
  · exact h lo x hlo hx hle (by omega)

theorem UpTo.fetch (h : UpTo block due kept k) (hf : Fetched block due kept kept' k) :
    UpTo block due kept' (k + 1) := by
  intro lo x hlo hx hle hlt
  by_cases hxk : block x = k
  · exact (hf x).mpr (.inr ⟨hxk, hx⟩)
  · rcases (hf lo).mp hlo with hold | ⟨hlok, _⟩
    · exact (hf x).mpr (.inl (h lo x hold hx hle (by omega)))
    · omega

theorem DownTo.pass (h : DownTo block due kept (k + 1))
    (hk : ∀ x, due x → block x ≠ k) : DownTo block due kept k := by
  intro hi x hhi hx hle hlt
  have hxk := hk x hx
  exact h hi x hhi hx (by omega) hlt

theorem DownTo.fetch (h : DownTo block due kept (k + 1)) (hf : Fetched block due kept kept' k) :
    DownTo block due kept' k := by
  intro hi x hhi hx hle hlt
  by_cases hxk : block x = k
  · exact (hf x).mpr (.inr ⟨hxk, hx⟩)
  · rcases (hf hi).mp hhi with hold | ⟨hhik, _⟩
    · exact (hf x).mpr (.inl (h hi x hold hx (by omega) hlt))
    · omega

end Stretches
