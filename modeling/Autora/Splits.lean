import Mathlib.Algebra.Order.BigOperators.Ring.Finset
import Mathlib.Algebra.BigOperators.Intervals
import Mathlib.Data.Rat.Floor
import Mathlib.Tactic.FieldSimp
import Mathlib.Tactic.Linarith
import Mathlib.Tactic.NormNum
import Mathlib.Tactic.Positivity
import Mathlib.Tactic.Ring
import Autora.Finance
import Autora.PriceHistory

/-! Splits of a Taiwan stock, found again in its closes: a split is read as the whole number it
is unless that day's move of the price hides it. -/

namespace Autora.Splits

open Company (halfEven)
open Prices (Date)

structure PublicBar where
  d : Date
  o : Rat
  h : Rat
  l : Rat
  c : Rat
  v : Int

def DAILY_LIMIT : Rat := 1 / 10

/-- The whole number, or its inverse, that one close is of the next where that is a split. -/
def wholeOf (before after : Rat) : Option Rat :=
  if before = 0 ∨ after = 0 ∨ |after / before - 1| ≤ DAILY_LIMIT + 5 / 1000 then none
  else
    let ratio := before / after
    let whole := if 1 ≤ ratio then (halfEven ratio : Rat) else 1 / (halfEven (1 / ratio) : Rat)
    if (19 / 10 ≤ ratio ∨ ratio ≤ 1 / (19 / 10)) ∧ |ratio / whole - 1| ≤ DAILY_LIMIT
    then some whole else none

def splitOn (bars : List PublicBar) (i : Nat) : Option Rat :=
  match bars[i - 1]?, bars[i]? with
  | some before, some after => wholeOf before.c after.c
  | _, _ => none

/-- `for j in range(i): factors[j] *= whole` -/
def scaleBefore (i : Nat) (whole : Rat) (factors : List Rat) : List Rat :=
  factors.mapIdx fun j factor => if j < i then factor * whole else factor

/-- The loop from the `i`-th bar down to the second. -/
def splitLoop (bars : List PublicBar) : Nat → List Rat → List Rat
  | 0, factors => factors
  | i + 1, factors => splitLoop bars i <| match splitOn bars (i + 1) with
    | none => factors
    | some whole => scaleBefore (i + 1) whole factors

def splitFactors (bars : List PublicBar) : List Rat :=
  splitLoop bars (bars.length - 1) (List.replicate bars.length 1)

/-- The bars on today's shares, as `history` gives a Taiwan stock's; no price is rounded here. -/
def adjusted (bars : List PublicBar) : List PublicBar :=
  List.zipWith (fun b f => { b with
    o := b.o / f, h := b.h / f, l := b.l / f, c := b.c / f, v := halfEven (b.v * f) })
    bars (splitFactors bars)

/-! What the loop leaves. -/

def times (bars : List PublicBar) (i : Nat) : Rat := (splitOn bars i).getD 1

/-- The factor of the `j`-th bar: every split after it. -/
def factor (bars : List PublicBar) (j : Nat) : Rat :=
  ∏ i ∈ Finset.Ioc j (bars.length - 1), times bars i

@[simp] theorem scaleBefore_getElem? (i : Nat) (whole : Rat) (factors : List Rat) (j : Nat) :
    (scaleBefore i whole factors)[j]? =
      factors[j]?.map fun f => if j < i then f * whole else f := by
  simp [scaleBefore]

theorem splitLoop_getElem? (bars : List PublicBar) (n : Nat) (factors : List Rat) (j : Nat) :
    (splitLoop bars n factors)[j]? =
      factors[j]?.map fun f => f * ∏ i ∈ Finset.Ioc j n, times bars i := by
  induction n generalizing factors with
  | zero => simp [splitLoop]
  | succ n ih =>
    rw [splitLoop, ih]
    by_cases hj : j < n + 1
    · rw [Finset.prod_Ioc_succ_top (by omega)]
      cases hs : splitOn bars (n + 1) with
      | none => simp [times, hs]
      | some whole =>
        simp only [times, hs, scaleBefore_getElem?, hj, Option.map_map, Option.getD_some, if_true]
        congr 1
        funext f
        simp only [Function.comp_apply]
        ring
    · have hnone : Finset.Ioc j n = ∅ := Finset.Ioc_eq_empty (by omega)
      have hnone' : Finset.Ioc j (n + 1) = ∅ := Finset.Ioc_eq_empty (by omega)
      rw [hnone, hnone']
      cases splitOn bars (n + 1) with
      | none => rfl
      | some whole => simp [hj]

theorem splitFactors_getElem? {bars : List PublicBar} {j : Nat} (hj : j < bars.length) :
    (splitFactors bars)[j]? = some (factor bars j) := by
  rw [splitFactors, splitLoop_getElem?, List.getElem?_replicate_of_lt hj]
  simp [factor]

@[simp] theorem splitFactors_length (bars : List PublicBar) :
    (splitFactors bars).length = bars.length := by
  have hloop : ∀ n factors, (splitLoop bars n factors).length = factors.length := by
    intro n
    induction n with
    | zero => exact fun _ => rfl
    | succ n ih =>
      intro factors
      rw [splitLoop, ih]
      cases splitOn bars (n + 1) <;> simp [scaleBefore]
  simp [splitFactors, hloop]

theorem factor_succ {bars : List PublicBar} {j : Nat} (hj : j + 1 < bars.length) :
    factor bars j = times bars (j + 1) * factor bars (j + 1) := by
  have hone : Finset.Ioc j (j + 1) = {j + 1} := by
    ext i
    simp only [Finset.mem_Ioc, Finset.mem_singleton]
    omega
  rw [factor, factor, ← Finset.prod_Ioc_consecutive _ (Nat.le_succ j) (by omega), hone,
    Finset.prod_singleton]

theorem adjusted_getElem? {bars : List PublicBar} {i : Nat} {b : PublicBar}
    (hb : bars[i]? = some b) :
    ∃ b', (adjusted bars)[i]? = some b' ∧ b'.c = b.c / factor bars i := by
  have hi := (List.getElem?_eq_some_iff.mp hb).choose
  refine ⟨_, List.getElem?_zipWith_eq_some.mpr
    ⟨b, factor bars i, hb, splitFactors_getElem? hi, rfl⟩, rfl⟩

/-! What is read between two closes. -/

/-- `n` is the whole number nearest to `q`, the even one of two. -/
def Nearest (q : Rat) (n : Int) : Prop := |q - n| < 1 / 2 ∨ |q - n| = 1 / 2 ∧ n % 2 = 0

theorem nearest_halfEven (q : Rat) : Nearest q (halfEven q) := by
  have hle := Int.floor_le q
  have hlt := Int.lt_floor_add_one q
  have hfloor : q.floor = ⌊q⌋ := rfl
  have hbelow : |q - (⌊q⌋ : Rat)| = q - ⌊q⌋ := abs_of_nonneg (by linarith)
  have habove : |q - ((⌊q⌋ + 1 : Int) : Rat)| = 1 - (q - ⌊q⌋) := by
    rw [abs_of_nonpos (by push_cast; linarith)]
    push_cast
    ring
  simp only [halfEven, hfloor]
  by_cases hhalf : q - ⌊q⌋ < 1 / 2
  · rw [if_pos hhalf]
    exact Or.inl (lt_of_eq_of_lt hbelow hhalf)
  · rw [if_neg hhalf]
    by_cases htie : q - ⌊q⌋ = 1 / 2
    · rw [if_pos htie]
      by_cases heven : ⌊q⌋ % 2 = 0
      · rw [if_pos heven]
        exact Or.inr ⟨hbelow.trans htie, heven⟩
      · rw [if_neg heven]
        exact Or.inr ⟨by rw [habove, htie]; norm_num, by omega⟩
    · rw [if_neg htie]
      have hgt : 1 / 2 < q - ⌊q⌋ := lt_of_le_of_ne (not_lt.mp hhalf) (Ne.symm htie)
      exact Or.inl (by rw [habove]; linarith)

theorem Nearest.error_le {q : Rat} {n : Int} (h : Nearest q n) : |q - n| ≤ 1 / 2 := by
  rcases h with h | ⟨h, -⟩
  · exact h.le
  · exact h.le

theorem Nearest.le {q : Rat} {n m : Int} (hn : Nearest q n) (hm : Nearest q m) : n ≤ m := by
  by_contra hlt
  have hstep : (m : Rat) + 1 ≤ n := by exact_mod_cast Int.not_le.mp hlt
  have hn' := abs_le.mp hn.error_le
  have hm' := abs_le.mp hm.error_le
  -- only a tie lies that near to both, and one of two neighbours is odd
  have hnext : (n : Rat) = m + 1 := by linarith
  have htie : q - n = -(1 / 2) := by linarith
  have htie' : q - m = 1 / 2 := by linarith
  have hneven : n % 2 = 0 := by
    rcases hn with h | ⟨-, h⟩
    · rw [htie] at h
      norm_num [abs_of_pos] at h
    · exact h
  have hmeven : m % 2 = 0 := by
    rcases hm with h | ⟨-, h⟩
    · rw [htie'] at h
      norm_num [abs_of_pos] at h
    · exact h
  have hnext' : n = m + 1 := by exact_mod_cast hnext
  omega

theorem halfEven_eq_iff {q : Rat} {n : Int} : halfEven q = n ↔ Nearest q n := by
  constructor
  · intro h
    rw [← h]
    exact nearest_halfEven q
  · intro h
    exact le_antisymm ((nearest_halfEven q).le h) (h.le (nearest_halfEven q))

/-- A split of `k` shares for one, or of one for `k`. -/
structure Split where
  k : Nat
  reverse : Bool
  two_le : 2 ≤ k
  deriving DecidableEq

namespace Split

variable (s : Split)

/-- What a price before the split is divided by to read on the shares after it. -/
def share : Rat := if s.reverse then 1 / s.k else s.k

/-- How many times one close is the other on the day of the split, where the price itself moved
to `move` times the day before's. -/
def seen (move : Rat) : Rat := if s.reverse then s.k * move else s.k / move

/-- The move of that day leaves the split to be read. -/
structure Readable (move : Rat) : Prop where
  fall : 10 / 11 ≤ move
  enough : 19 / 10 ≤ s.seen move
  nearest : Nearest (s.seen move) s.k

theorem two_le_cast : (2 : Rat) ≤ s.k := by exact_mod_cast s.two_le

theorem share_pos : 0 < s.share := by
  have hk := s.two_le_cast
  unfold share
  split <;> positivity

theorem share_ne_one : s.share ≠ 1 := by
  have hk := s.two_le_cast
  unfold share
  split
  · rw [ne_eq, div_eq_one_iff_eq (by linarith)]
    linarith
  · linarith

end Split

def share (split : Option Split) : Rat := (split.map Split.share).getD 1

theorem abs_inv_sub_one_le {move : Rat} (hmove : 9 / 10 ≤ move ∧ move ≤ 11 / 10) :
    |1 / move - 1| ≤ DAILY_LIMIT ↔ 10 / 11 ≤ move := by
  have hpos : 0 < move := by linarith
  rw [abs_le, DAILY_LIMIT]
  constructor
  · intro h
    have hle : 1 / move ≤ 11 / 10 := by linarith [h.2]
    rw [div_le_iff₀ hpos] at hle
    linarith
  · intro h
    have hle : 1 / move ≤ 11 / 10 := by
      rw [div_le_iff₀ hpos]
      linarith
    have hge : 9 / 10 ≤ 1 / move := by
      rw [le_div_iff₀ hpos]
      linarith
    constructor <;> linarith

/-- What `ratio` is read as. -/
def rounded (ratio : Rat) : Rat :=
  if 1 ≤ ratio then (halfEven ratio : Rat) else 1 / (halfEven (1 / ratio) : Rat)

theorem wholeOf_eq_some {before after whole : Rat} :
    wholeOf before after = some whole ↔
      ¬ (before = 0 ∨ after = 0 ∨ |after / before - 1| ≤ DAILY_LIMIT + 5 / 1000) ∧
        ((19 / 10 ≤ before / after ∨ before / after ≤ 1 / (19 / 10)) ∧
          |before / after / whole - 1| ≤ DAILY_LIMIT) ∧ rounded (before / after) = whole := by
  rw [wholeOf, Option.ite_none_left_eq_some, Option.ite_none_right_eq_some, Option.some_inj]
  constructor
  · intro h
    obtain ⟨hno, hsplit, rfl⟩ := h
    exact ⟨hno, hsplit, rfl⟩
  · intro h
    obtain ⟨hno, hsplit, rfl⟩ := h
    exact ⟨hno, hsplit, rfl⟩

theorem wholeOf_moved {before after ratio : Rat} (hbefore : 0 < before) (hafter : 0 < after)
    (hratio : before / after = ratio) (hmoved : DAILY_LIMIT + 5 / 1000 < |1 / ratio - 1|)
    (whole : Rat) :
    wholeOf before after = some whole ↔
      ((19 / 10 ≤ ratio ∨ ratio ≤ 10 / 19) ∧ |ratio / whole - 1| ≤ DAILY_LIMIT) ∧
        rounded ratio = whole := by
  have hinv : after / before = 1 / ratio := by rw [← hratio, one_div_div]
  have hno : ¬ (before = 0 ∨ after = 0 ∨ |after / before - 1| ≤ DAILY_LIMIT + 5 / 1000) := by
    rw [hinv]
    rintro (h | h | h)
    · exact hbefore.ne' h
    · exact hafter.ne' h
    · exact absurd hmoved (not_lt.mpr h)
  have hhalf : (1 : Rat) / (19 / 10) = 10 / 19 := by norm_num
  rw [wholeOf_eq_some, hratio, hhalf]
  exact and_iff_right hno

theorem wholeOf_forward {before after move : Rat} {k : Nat} (hk : (2 : Rat) ≤ k)
    (hbefore : 0 < before) (hmove : 9 / 10 ≤ move ∧ move ≤ 11 / 10)
    (hafter : after = before * move / k) :
    wholeOf before after = some (k : Rat) ↔
      10 / 11 ≤ move ∧ 19 / 10 ≤ k / move ∧ Nearest (k / move) k := by
  have hpos : 0 < move := by linarith
  have hratio : before / after = k / move := by
    rw [hafter]
    field_simp
  have hbig : 18 / 10 ≤ k / move := by
    rw [le_div_iff₀ hpos]
    linarith
  have hsmall : 1 / (k / move) ≤ 5 / 9 := by
    rw [div_le_iff₀ (by linarith)]
    linarith
  have hmoved : DAILY_LIMIT + 5 / 1000 < |1 / (k / move) - 1| := by
    rw [DAILY_LIMIT, lt_abs]
    exact Or.inr (by linarith)
  have hback : k / move / k = 1 / move := by field_simp
  have hwhole : (halfEven (k / move) : Rat) = k ↔ Nearest (k / move) k := by
    rw [← halfEven_eq_iff]
    exact_mod_cast Iff.rfl
  have hfar : ¬ k / move ≤ 10 / 19 := by linarith
  rw [wholeOf_moved hbefore (by rw [hafter]; positivity) hratio hmoved, rounded,
    if_pos (show (1 : Rat) ≤ k / move by linarith), hwhole, hback, abs_inv_sub_one_le hmove]
  tauto

theorem wholeOf_reverse {before after move : Rat} {k : Nat} (hk : (2 : Rat) ≤ k)
    (hbefore : 0 < before) (hmove : 9 / 10 ≤ move ∧ move ≤ 11 / 10)
    (hafter : after = before * move / (1 / k)) :
    wholeOf before after = some (1 / (k : Rat)) ↔
      10 / 11 ≤ move ∧ 19 / 10 ≤ k * move ∧ Nearest (k * move) k := by
  have hpos : 0 < move := by linarith
  have hratio : before / after = 1 / (k * move) := by
    rw [hafter]
    field_simp
  have hbig : 18 / 10 ≤ k * move := by nlinarith
  have hsmall : 1 / (k * move) ≤ 5 / 9 := by
    rw [div_le_iff₀ (by linarith)]
    linarith
  have hinv : 1 / (1 / (k * move)) = k * move := one_div_one_div _
  have hmoved : DAILY_LIMIT + 5 / 1000 < |1 / (1 / (k * move)) - 1| := by
    rw [hinv, DAILY_LIMIT, lt_abs]
    exact Or.inl (by linarith)
  have hback : 1 / (k * move) / (1 / k) = 1 / move := by field_simp
  have hwhole : 1 / (halfEven (k * move) : Rat) = 1 / k ↔ Nearest (k * move) k := by
    rw [← halfEven_eq_iff, one_div, one_div, inv_inj]
    exact_mod_cast Iff.rfl
  have hfar : 1 / (k * move) ≤ 10 / 19 ↔ 19 / 10 ≤ k * move := by
    rw [div_le_iff₀ (by linarith)]
    constructor <;> intro h <;> linarith
  have hnear : ¬ 19 / 10 ≤ 1 / (k * move) := by linarith
  rw [wholeOf_moved hbefore (by rw [hafter]; positivity) hratio hmoved, rounded,
    if_neg (show ¬ (1 : Rat) ≤ 1 / (k * move) by linarith), hinv, hwhole, hback,
    abs_inv_sub_one_le hmove, hfar]
  tauto

theorem wholeOf_split {before after move : Rat} (s : Split) (hbefore : 0 < before)
    (hmove : 9 / 10 ≤ move ∧ move ≤ 11 / 10) (hafter : after = before * move / s.share) :
    wholeOf before after = some s.share ↔ s.Readable move := by
  have hreadable : s.Readable move ↔
      10 / 11 ≤ move ∧ 19 / 10 ≤ s.seen move ∧ Nearest (s.seen move) s.k :=
    ⟨fun h => ⟨h.fall, h.enough, h.nearest⟩, fun h => ⟨h.1, h.2.1, h.2.2⟩⟩
  rw [hreadable]
  cases hr : s.reverse with
  | false =>
    simp only [Split.share, Split.seen, hr] at hafter ⊢
    exact wholeOf_forward s.two_le_cast hbefore hmove hafter
  | true =>
    simp only [Split.share, Split.seen, hr, if_true] at hafter ⊢
    exact wholeOf_reverse s.two_le_cast hbefore hmove hafter

theorem wholeOf_quiet {before after : Rat} (h : |after / before - 1| ≤ DAILY_LIMIT) :
    wholeOf before after = none := by
  have hle : |after / before - 1| ≤ DAILY_LIMIT + 5 / 1000 := by linarith
  rw [wholeOf, if_pos (Or.inr (Or.inr hle))]

/-! Read on the adjusted bars once more, nothing is left to adjust. -/

theorem wholeOf_some {before after whole : Rat} (h : wholeOf before after = some whole) :
    1 / (19 / 10) < before / after / whole ∧ before / after / whole < 19 / 10 := by
  obtain ⟨-, hsplit, -⟩ := wholeOf_eq_some.mp h
  have hnear := abs_le.mp hsplit.2
  rw [DAILY_LIMIT] at hnear
  constructor <;> linarith [hnear.1, hnear.2]

theorem wholeOf_near {before after : Rat} (hlow : 1 / (19 / 10) < before / after)
    (hhigh : before / after < 19 / 10) : wholeOf before after = none := by
  rw [Option.eq_none_iff_forall_not_mem]
  intro whole h
  obtain ⟨-, hsplit, -⟩ := wholeOf_eq_some.mp h
  rcases hsplit.1 with hle | hle
  · exact absurd hle (not_le.mpr hhigh)
  · exact absurd hle (not_le.mpr hlow)

theorem wholeOf_scaled {before after scale : Rat} (hscale : 0 < scale) :
    wholeOf (before / scale) (after / scale) = wholeOf before after := by
  have hne := hscale.ne'
  have hratio : before / scale / (after / scale) = before / after := div_div_div_cancel_right₀ hne _ _
  have hmove : after / scale / (before / scale) = after / before := div_div_div_cancel_right₀ hne _ _
  simp only [wholeOf, hratio, hmove, div_eq_zero_iff, hne, or_false]

/-! Whole histories. -/

/-- A stock's raw bars, with what its shares of the first day cost and the splits behind them. -/
structure PriceHistory where
  bars : List PublicBar
  price : Nat → Rat
  split : Nat → Option Split
  price_pos : ∀ i, 0 < price i
  limit : ∀ i, i + 1 < bars.length → |price (i + 1) / price i - 1| ≤ DAILY_LIMIT
  traded : ∀ i b, bars[i]? = some b → b.c = price i / ∏ m ∈ Finset.range (i + 1), share (split m)

namespace PriceHistory

variable (h : PriceHistory)

/-- The splits are undone: the factors differ by them alone, the adjusted closes are the price of
one share all along, and no split is left. -/
structure Undone : Prop where
  steps : ∀ i f g, (splitFactors h.bars)[i]? = some f → (splitFactors h.bars)[i + 1]? = some g →
    f = share (h.split (i + 1)) * g
  proportional : ∃ scale, 0 < scale ∧
    ∀ i b, (adjusted h.bars)[i]? = some b → b.c = scale * h.price i
  settled : ∀ f ∈ splitFactors (adjusted h.bars), f = 1

/-- Every split falls on a day that leaves it to be read. -/
def Readable : Prop :=
  ∀ i, i + 1 < h.bars.length → ∀ s, h.split (i + 1) = some s →
    s.Readable (h.price (i + 1) / h.price i)

variable {h}

theorem share_pos (split : Option Split) : 0 < share split := by
  cases split with
  | none => exact one_pos
  | some s => exact s.share_pos

theorem close_pos {i : Nat} {b : PublicBar} (hb : h.bars[i]? = some b) : 0 < b.c := by
  rw [h.traded i b hb]
  exact div_pos (h.price_pos i) (Finset.prod_pos fun m _ => share_pos (h.split m))

theorem move_bounds {i : Nat} (hi : i + 1 < h.bars.length) :
    9 / 10 ≤ h.price (i + 1) / h.price i ∧ h.price (i + 1) / h.price i ≤ 11 / 10 := by
  have hlimit := abs_le.mp (h.limit i hi)
  rw [DAILY_LIMIT] at hlimit
  constructor <;> linarith [hlimit.1, hlimit.2]

theorem close_succ {i : Nat} {b b' : PublicBar} (hb : h.bars[i]? = some b)
    (hb' : h.bars[i + 1]? = some b') :
    b'.c = b.c * (h.price (i + 1) / h.price i) / share (h.split (i + 1)) := by
  have hprice := (h.price_pos i).ne'
  have hshare := (share_pos (h.split (i + 1))).ne'
  have hbefore : ∏ m ∈ Finset.range (i + 1), share (h.split m) ≠ 0 :=
    (Finset.prod_pos fun m _ => share_pos (h.split m)).ne'
  rw [h.traded i b hb, h.traded (i + 1) b' hb', Finset.prod_range_succ _ (i + 1)]
  field_simp

theorem splitOn_succ {bars : List PublicBar} {i : Nat} {b b' : PublicBar}
    (hb : bars[i]? = some b) (hb' : bars[i + 1]? = some b') :
    splitOn bars (i + 1) = wholeOf b.c b'.c := by
  simp only [splitOn, Nat.add_sub_cancel, hb, hb']

/-- What is read on a day is its split iff the day leaves it to be read. -/
theorem times_succ {i : Nat} (hi : i + 1 < h.bars.length) :
    times h.bars (i + 1) = share (h.split (i + 1)) ↔
      ∀ s, h.split (i + 1) = some s → s.Readable (h.price (i + 1) / h.price i) := by
  have hb : h.bars[i]? = some h.bars[i] := List.getElem?_eq_getElem (by omega)
  have hb' : h.bars[i + 1]? = some h.bars[i + 1] := List.getElem?_eq_getElem hi
  have hclose := close_succ hb hb'
  rw [times, splitOn_succ hb hb']
  cases hs : h.split (i + 1) with
  | none =>
    have hquiet : |h.bars[i + 1].c / h.bars[i].c - 1| ≤ DAILY_LIMIT := by
      have hpos := (close_pos hb).ne'
      rw [hclose, hs]
      simpa [share, mul_div_assoc, hpos] using h.limit i hi
    rw [wholeOf_quiet hquiet]
    exact ⟨fun _ => nofun, fun _ => rfl⟩
  | some s =>
    rw [hs] at hclose
    have hread := wholeOf_split s (close_pos hb) (move_bounds hi) hclose
    constructor
    · intro hshare s' hs'
      cases hs'
      apply hread.mp
      cases hw : wholeOf h.bars[i].c h.bars[i + 1].c with
      | none =>
        rw [hw] at hshare
        exact absurd hshare.symm s.share_ne_one
      | some whole =>
        rw [hw] at hshare
        exact congrArg some hshare
    · intro hall
      rw [hread.mpr (hall s rfl)]
      rfl

theorem times_pos {bars : List PublicBar} (hbars : ∀ b ∈ bars, 0 < b.c) (i : Nat) :
    0 < times bars i := by
  cases hs : splitOn bars i with
  | none => simp [times, hs]
  | some whole =>
    rw [times, hs]
    rw [splitOn] at hs
    split at hs
    · next before after hb ha =>
      have hratio := div_pos (hbars before (List.mem_of_getElem? hb))
        (hbars after (List.mem_of_getElem? ha))
      have hnear := (wholeOf_some hs).1
      by_contra hle
      have hneg := div_nonpos_of_nonneg_of_nonpos hratio.le (not_lt.mp hle)
      simp only [Option.getD_some] at hneg
      norm_num at hnear
      linarith
    · cases hs

theorem factor_pos {bars : List PublicBar} (hbars : ∀ b ∈ bars, 0 < b.c) (j : Nat) :
    0 < factor bars j :=
  Finset.prod_pos fun i _ => times_pos hbars i

theorem closes_pos : ∀ b ∈ h.bars, 0 < b.c := by
  intro b hb
  obtain ⟨i, hi⟩ := List.mem_iff_getElem?.mp hb
  exact close_pos hi

theorem steps_iff : (∀ i f g, (splitFactors h.bars)[i]? = some f →
    (splitFactors h.bars)[i + 1]? = some g → f = share (h.split (i + 1)) * g) ↔ h.Readable := by
  have hfactors : ∀ i, i + 1 < h.bars.length → (splitFactors h.bars)[i]? = some (factor h.bars i) ∧
      (splitFactors h.bars)[i + 1]? = some (factor h.bars (i + 1)) := by
    intro i hi
    exact ⟨splitFactors_getElem? (by omega), splitFactors_getElem? hi⟩
  constructor
  · intro hsteps i hi
    obtain ⟨hf, hg⟩ := hfactors i hi
    apply (times_succ hi).mp
    have hstep := hsteps i _ _ hf hg
    rw [factor_succ hi] at hstep
    exact mul_right_cancel₀ (factor_pos closes_pos (i + 1)).ne' hstep
  · intro hread i f g hf hg
    have hi : i + 1 < h.bars.length := by
      have hlt := (List.getElem?_eq_some_iff.mp hg).choose
      rwa [splitFactors_length] at hlt
    obtain ⟨hf', hg'⟩ := hfactors i hi
    rw [hf'] at hf
    rw [hg'] at hg
    cases hf
    cases hg
    rw [factor_succ hi, (times_succ hi).mpr (hread i hi)]

/-- All that is read from a day on, over all the splits up to it, is every split of the history. -/
theorem factor_eq (hread : h.Readable) {i : Nat} (hi : i < h.bars.length) :
    (∏ m ∈ Finset.range (i + 1), share (h.split m)) * factor h.bars i =
      ∏ m ∈ Finset.range h.bars.length, share (h.split m) := by
  have htimes : factor h.bars i = ∏ m ∈ Finset.Ioc i (h.bars.length - 1), share (h.split m) := by
    apply Finset.prod_congr rfl
    intro m hm
    obtain ⟨hlow, hhigh⟩ := Finset.mem_Ioc.mp hm
    obtain ⟨j, rfl⟩ : ∃ j, m = j + 1 := ⟨m - 1, by omega⟩
    exact (times_succ (by omega)).mpr (hread j (by omega))
  have hdays : Finset.Ioc i (h.bars.length - 1) = Finset.Ico (i + 1) h.bars.length := by
    ext m
    simp only [Finset.mem_Ioc, Finset.mem_Ico]
    omega
  rw [htimes, hdays, Finset.prod_range_mul_prod_Ico _ (by omega)]

theorem proportional (hread : h.Readable) : ∃ scale, 0 < scale ∧
    ∀ i b, (adjusted h.bars)[i]? = some b → b.c = scale * h.price i := by
  have hall : 0 < ∏ m ∈ Finset.range h.bars.length, share (h.split m) :=
    Finset.prod_pos fun m _ => share_pos (h.split m)
  refine ⟨(∏ m ∈ Finset.range h.bars.length, share (h.split m))⁻¹, inv_pos.mpr hall, ?_⟩
  intro i b hb
  have hi : i < h.bars.length := by
    have hlt := (List.getElem?_eq_some_iff.mp hb).choose
    simpa [adjusted] using hlt
  obtain ⟨b', hb', hclose⟩ := adjusted_getElem? (List.getElem?_eq_getElem hi)
  rw [hb] at hb'
  cases hb'
  rw [hclose, h.traded i _ (List.getElem?_eq_getElem hi), div_div, factor_eq hread hi,
    div_eq_inv_mul]

end PriceHistory

open PriceHistory (times_pos factor_pos splitOn_succ)

/-- No split is read off bars that are adjusted already. -/
theorem splitOn_adjusted {bars : List PublicBar} (hbars : ∀ b ∈ bars, 0 < b.c) {i : Nat}
    (hi : i + 1 < bars.length) : splitOn (adjusted bars) (i + 1) = none := by
  have hraw : bars[i]? = some bars[i] := List.getElem?_eq_getElem (by omega)
  have hraw' : bars[i + 1]? = some bars[i + 1] := List.getElem?_eq_getElem hi
  obtain ⟨b, hb, hclose⟩ := adjusted_getElem? hraw
  obtain ⟨b', hb', hclose'⟩ := adjusted_getElem? hraw'
  have hread := splitOn_succ hraw hraw'
  have hscale := factor_pos hbars (i + 1)
  rw [splitOn_succ hb hb', hclose, hclose', factor_succ hi, ← div_div, wholeOf_scaled hscale]
  cases hs : splitOn bars (i + 1) with
  | none =>
    simp only [times, hs, Option.getD_none, div_one]
    exact hread.symm.trans hs
  | some whole =>
    simp only [times, hs, Option.getD_some]
    rw [hread] at hs
    have hnear := wholeOf_some hs
    rw [div_right_comm] at hnear
    exact wholeOf_near hnear.1 hnear.2

theorem settled {bars : List PublicBar} (hbars : ∀ b ∈ bars, 0 < b.c) :
    ∀ f ∈ splitFactors (adjusted bars), f = 1 := by
  intro f hf
  obtain ⟨j, hj⟩ := List.mem_iff_getElem?.mp hf
  have hlt := (List.getElem?_eq_some_iff.mp hj).choose
  rw [splitFactors_length] at hlt
  rw [splitFactors_getElem? hlt] at hj
  cases hj
  apply Finset.prod_eq_one
  intro i hi
  obtain ⟨hlow, hhigh⟩ := Finset.mem_Ioc.mp hi
  obtain ⟨i, rfl⟩ : ∃ k, i = k + 1 := ⟨i - 1, by omega⟩
  have hlen : (adjusted bars).length = bars.length := by simp [adjusted]
  rw [times, splitOn_adjusted hbars (by omega)]
  rfl

/-- The splits of a history are undone iff every one falls on a day that leaves it to be read. -/
theorem undone_iff (h : PriceHistory) : h.Undone ↔ h.Readable := by
  constructor
  · intro hundone
    exact PriceHistory.steps_iff.mp hundone.steps
  · intro hread
    exact ⟨PriceHistory.steps_iff.mpr hread, PriceHistory.proportional hread,
      settled PriceHistory.closes_pos⟩

/-! Two shares for one on a day that closes a tenth higher. -/

def priceOn : Nat → Rat
  | 0 => 100
  | _ => 110

def splitAt : Nat → Option Split
  | 1 => some ⟨2, false, le_refl 2⟩
  | _ => none

def closing (day : Nat) (hday : 1 ≤ day ∧ day ≤ 31) (c : Rat) : PublicBar :=
  ⟨⟨2025, 6, day, by decide, hday⟩, c, c, c, c, 1000⟩

def raised : PriceHistory where
  bars := [closing 17 (by decide) 100, closing 18 (by decide) 55]
  price := priceOn
  split := splitAt
  price_pos := by
    intro i
    cases i <;> norm_num [priceOn]
  limit := by
    intro i hi
    have hzero : i = 0 := by simpa using hi
    subst hzero
    norm_num [priceOn, DAILY_LIMIT, abs_of_pos]
  traded := by
    intro i b hb
    match i with
    | 0 =>
      cases hb
      norm_num [closing, priceOn, splitAt, share]
    | 1 =>
      cases hb
      norm_num [closing, priceOn, splitAt, share, Split.share, Finset.prod_range_succ]
    | i + 2 => cases hb

theorem rise_hides_split : ¬ raised.Undone := by
  intro hundone
  have hfactors : splitFactors raised.bars = [1, 1] := by decide +kernel
  have hstep := hundone.steps 0 1 1 (by rw [hfactors]; rfl) (by rw [hfactors]; rfl)
  norm_num [raised, share, splitAt, Split.share] at hstep

end Autora.Splits
