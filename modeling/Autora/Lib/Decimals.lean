import Mathlib.Algebra.Order.Field.Rat
import Mathlib.Data.Nat.Digits.Defs
import Mathlib.Data.List.DropRight
import Mathlib.Tactic.Linarith

/-! Decimal numerals and their values: which digits do not count. -/

namespace Decimals

/-- The digits before the point, the first of them first. -/
def whole (ds : List Nat) : Nat := Nat.ofDigits 10 ds.reverse

/-- The digits after the point. -/
def fraction : List Nat → Rat
  | [] => 0
  | d :: ds => (d + fraction ds) / 10

def value (w f : List Nat) : Rat := whole w + fraction f

def unpadded (w : List Nat) : List Nat := w.dropWhile (· = 0)

def trimmed (f : List Nat) : List Nat := f.rdropWhile (· = 0)

variable {w f w' f' : List Nat}

theorem whole_cons (d : Nat) (ds : List Nat) : whole (d :: ds) = 10 ^ ds.length * d + whole ds := by
  rw [whole, List.reverse_cons, Nat.ofDigits_append, List.length_reverse, Nat.ofDigits_singleton,
    Nat.add_comm]
  rfl

theorem whole_unpadded (w : List Nat) : whole (unpadded w) = whole w := by
  induction w with
  | nil => rfl
  | cons d w ih =>
    by_cases hd : d = 0
    · have hdrop : unpadded (d :: w) = unpadded w := by simp [unpadded, hd]
      rw [hdrop, ih, whole_cons, hd, Nat.mul_zero, Nat.zero_add]
    · have hkeep : unpadded (d :: w) = d :: w := by simp [unpadded, hd]
      rw [hkeep]

theorem whole_inj (hw : ∀ d ∈ w, d < 10) (hw' : ∀ d ∈ w', d < 10) :
    whole w = whole w' ↔ unpadded w = unpadded w' := by
  have hdigits : ∀ {ds : List Nat}, (∀ d ∈ ds, d < 10) →
      Nat.digits 10 (whole (unpadded ds)) = (unpadded ds).reverse := by
    intro ds hds
    refine Nat.digits_ofDigits 10 (by omega) _ (fun d hd => ?_) fun hne => ?_
    · have hmem := List.dropWhile_sublist (p := (· = 0)) (l := ds)
      exact hds d (hmem.subset (List.mem_reverse.mp hd))
    · rw [List.getLast_reverse]
      have hhead := List.head_dropWhile_not (fun d => decide (d = 0))
        (List.reverse_eq_nil_iff.not.mp hne)
      simpa [unpadded] using hhead
  constructor
  · intro h
    rw [← whole_unpadded w, ← whole_unpadded w'] at h
    have hrev := congrArg (Nat.digits 10) h
    rw [hdigits hw, hdigits hw'] at hrev
    exact List.reverse_injective hrev
  · intro h
    rw [← whole_unpadded w, ← whole_unpadded w', h]

theorem fraction_nonneg (f : List Nat) : 0 ≤ fraction f := by
  induction f with
  | nil => exact le_refl 0
  | cons d f ih =>
    have hd : (0 : Rat) ≤ d := Nat.cast_nonneg d
    rw [fraction]
    linarith

theorem fraction_lt_one (hf : ∀ d ∈ f, d < 10) : fraction f < 1 := by
  induction f with
  | nil => exact zero_lt_one
  | cons d f ih =>
    have hrest := ih fun x hx => hf x (List.mem_cons_of_mem d hx)
    have hd : (d : Rat) ≤ 9 := by exact_mod_cast Nat.le_of_lt_succ (hf d List.mem_cons_self)
    rw [fraction]
    linarith

/-- A whole part and a part below one are told apart. -/
theorem split_inj {m n : Nat} {p q : Rat} (hp : 0 ≤ p) (hp' : p < 1) (hq : 0 ≤ q) (hq' : q < 1) :
    m + p = n + q ↔ m = n ∧ p = q := by
  constructor
  · intro h
    have hmn : m = n := by
      rcases Nat.lt_trichotomy m n with hlt | heq | hlt
      · have : (m : Rat) + 1 ≤ n := by exact_mod_cast hlt
        linarith
      · exact heq
      · have : (n : Rat) + 1 ≤ m := by exact_mod_cast hlt
        linarith
    refine ⟨hmn, ?_⟩
    rw [hmn] at h
    linarith
  · rintro ⟨rfl, rfl⟩
    rfl

theorem trimmed_cons (d : Nat) (f : List Nat) :
    trimmed (d :: f) = if trimmed f = [] ∧ d = 0 then [] else d :: trimmed f := by
  have happend := @List.dropWhile_append _ (fun d => decide (d = 0)) f.reverse [d]
  unfold trimmed List.rdropWhile
  rw [List.reverse_cons, happend]
  by_cases hf : f.reverse.dropWhile (fun d => decide (d = 0)) = []
  · rw [hf]
    by_cases hd : d = 0
    · simp [hd]
    · simp [hd]
  · rw [if_neg (by rwa [List.isEmpty_iff]), List.reverse_append, List.reverse_singleton,
      List.singleton_append, if_neg]
    rintro ⟨he, -⟩
    exact hf (List.reverse_eq_nil_iff.mp he)

theorem fraction_eq_zero (f : List Nat) : fraction f = 0 ↔ trimmed f = [] := by
  induction f with
  | nil => exact iff_of_true rfl rfl
  | cons d f ih =>
    have hd : (0 : Rat) ≤ d := Nat.cast_nonneg d
    have hf := fraction_nonneg f
    rw [fraction, trimmed_cons]
    constructor
    · intro h
      have hd0 : (d : Rat) = 0 := by linarith
      have hf0 : fraction f = 0 := by linarith
      rw [if_pos ⟨ih.mp hf0, by exact_mod_cast hd0⟩]
    · intro h
      split at h
      · next hz =>
        rw [ih.mpr hz.1, hz.2]
        norm_num
      · cases h

theorem fraction_inj (f : List Nat) : ∀ {f' : List Nat}, (∀ d ∈ f, d < 10) → (∀ d ∈ f', d < 10) →
    (fraction f = fraction f' ↔ trimmed f = trimmed f') := by
  induction f with
  | nil =>
    intro f' _ _
    rw [eq_comm, eq_comm (a := trimmed [])]
    exact fraction_eq_zero f'
  | cons d f ih =>
    intro f' hf hf'
    cases f' with
    | nil => exact fraction_eq_zero (d :: f)
    | cons d' f' =>
      have hrest : ∀ x ∈ f, x < 10 := fun x hx => hf x (List.mem_cons_of_mem d hx)
      have hrest' : ∀ x ∈ f', x < 10 := fun x hx => hf' x (List.mem_cons_of_mem d' hx)
      have hsplit := split_inj (m := d) (n := d') (fraction_nonneg f) (fraction_lt_one hrest)
        (fraction_nonneg f') (fraction_lt_one hrest')
      have hten : fraction (d :: f) = fraction (d' :: f') ↔
          (d : Rat) + fraction f = d' + fraction f' := by
        rw [fraction, fraction]
        constructor
        · intro h
          linarith
        · intro h
          rw [h]
      rw [hten, hsplit, ih hrest hrest', trimmed_cons, trimmed_cons]
      split
      · next hz =>
        split
        · next hz' => exact iff_of_true ⟨hz.2.trans hz'.2.symm, hz.1.trans hz'.1.symm⟩ rfl
        · next hz' =>
          refine iff_of_false ?_ nofun
          rintro ⟨rfl, he⟩
          exact hz' ⟨he.symm.trans hz.1, hz.2⟩
      · next hz =>
        split
        · next hz' =>
          refine iff_of_false ?_ nofun
          rintro ⟨rfl, he⟩
          exact hz ⟨he.trans hz'.1, hz'.2⟩
        · rw [List.cons.injEq]

/-- Two numerals have one value exactly when they are the same but for zeros before the whole part
and after the fraction. -/
theorem value_inj (hw : ∀ d ∈ w, d < 10) (hf : ∀ d ∈ f, d < 10) (hw' : ∀ d ∈ w', d < 10)
    (hf' : ∀ d ∈ f', d < 10) :
    value w f = value w' f' ↔ unpadded w = unpadded w' ∧ trimmed f = trimmed f' := by
  rw [value, value, split_inj (fraction_nonneg f) (fraction_lt_one hf) (fraction_nonneg f')
    (fraction_lt_one hf'), whole_inj hw hw', fraction_inj f hf hf']

end Decimals
