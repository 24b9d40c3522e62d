import Mathlib.Data.Finset.Image
import Autora.Lib.Decimals
import Autora.Lib.Loops
import Autora.Lib.Scans

/-! What the language versions of a draft must agree on, block by block. -/

namespace Autora.Bilingual

open Untyped Texts Scans Decimals Loops

/-- The floating-point operations that amounts need. -/
structure Doubles (F : Type) where
  parse : Str → F
  ofNat : Nat → F
  hundredth : F
  mul : F → F → F
  sub : F → F → F
  abs : F → F
  max : F → F → F
  le : F → F → Bool

structure Block where
  type : Str
  text : Str
  deriving DecidableEq, Repr

structure LanguageVersion where
  lang : Str
  blocks : List Block
  deriving DecidableEq, Repr

section

variable (u : Characters)

structure Year where
  text : Str
  length : text.length = 4
  century : text.take 2 = lit "19" ∨ text.take 2 = lit "20"
  digits : ∀ c ∈ text, u.isDigit c = true
  deriving DecidableEq

/-- The digits before the point and, where there is one, after it. -/
structure Percent where
  whole : Str
  fraction : Str
  nonempty : whole ≠ []
  wholeDigits : ∀ c ∈ whole, u.isDigit c = true
  fractionDigits : ∀ c ∈ fraction, u.isDigit c = true
  deriving DecidableEq

def yearAt (prev : Option Nat) (s : Str) : Option (Year u × Nat) :=
  if prev.any u.isDigit || (s.drop 4).head?.any u.isDigit then none
  else if h : (s.take 4).length = 4 ∧ ((s.take 4).take 2 = lit "19" ∨ (s.take 4).take 2 = lit "20") ∧
      ∀ c ∈ s.take 4, u.isDigit c = true then some (⟨s.take 4, h.1, h.2.1, h.2.2⟩, 4)
  else none

/-- `%|％|percent\b|per cent\b` -/
def percentSign (s : Str) : Option Nat :=
  if s.head? = some 37 ∨ s.head? = some 0xFF05 then some 1
  else (wholeWord u [lit "percent", lit "per cent"] s).map List.length

theorem digits_isDigit (s : Str) : ∀ c ∈ u.digits s, u.isDigit c = true :=
  fun _ hc => List.mem_takeWhile_imp hc

theorem fractionPart_isDigit (s : Str) : ∀ c ∈ (fractionPart u s).drop 1, u.isDigit c = true := by
  unfold fractionPart
  split
  · split
    · exact fun c hc => absurd hc List.not_mem_nil
    · exact digits_isDigit u _
  · exact fun c hc => absurd hc List.not_mem_nil

def percentAt (_ : Option Nat) (s : Str) : Option (Percent u × Nat) :=
  if h : u.digits s = [] then none
  else
    let whole := u.digits s
    let rest := s.drop whole.length
    let fraction := fractionPart u rest
    let gap := spaces (rest.drop fraction.length)
    (percentSign u (rest.drop (fraction.length + gap.length))).map fun n =>
      (⟨whole, fraction.drop 1, h, digits_isDigit u s, fractionPart_isDigit u rest⟩,
        whole.length + fraction.length + gap.length + n)

variable {u}

/-- The text that is found. -/
def Percent.text (p : Percent u) : Str :=
  if p.fraction = [] then p.whole else p.whole ++ 46 :: p.fraction

def rstrip (c : Nat) (s : Str) : Str := s.rdropWhile (· = c)

/-- `p.rstrip("0").rstrip(".")` -/
def Percent.shown (p : Percent u) : Str := rstrip 46 (rstrip 48 p.text)

variable (u)

def years (text : Str) : Finset Str := ((findall (yearAt u) text).map Year.text).toFinset

def percentages (text : Str) : Finset Str :=
  ((findall (percentAt u) text).map Percent.shown).toFinset

/-! Amounts, and those at the wrong scale. -/

/-- `ZH_SCALE`. -/
def zhScale : List (Str × Nat) :=
  [(lit "兆", 1000000000000), (lit "億", 100000000), (lit "萬", 10000)]

variable {F : Type} (doubles : Doubles F)

def amounts (pattern : Option Nat → Str → Option ((Str × Str) × Nat)) (scale : List (Str × Nat))
    (text : Str) : Except Error (List (Str × F)) :=
  (findall pattern text).mapM fun x => do
    let factor ← lookup scale (lower x.2)
    pure (x.1 ++ (if x.2 ∈ zhScale.map Prod.fst then [] else [32]) ++ x.2,
      doubles.mul (doubles.parse (x.1.filter (· ≠ 44))) (doubles.ofNat factor))

def close (a b : F) : Bool :=
  doubles.le (doubles.abs (doubles.sub a b))
    (doubles.mul doubles.hundredth (doubles.max (doubles.abs a) (doubles.abs b)))

inductive Figures where
  | years | percentages
  deriving DecidableEq, Repr

def digitValues (s : Str) : List Nat := s.filterMap u.digit

def Year.value (y : Year u) : Nat := Decimals.whole (digitValues u y.text)

def Percent.value (p : Percent u) : Rat :=
  Decimals.value (digitValues u p.whole) (digitValues u p.fraction)

def Year.canonical (y : Year u) : List Nat := digitValues u y.text

/-- Without the zeros before the whole part and after the fraction. -/
def Percent.canonical (p : Percent u) : List Nat × List Nat :=
  (unpadded (digitValues u p.whole), trimmed (digitValues u p.fraction))

def yearDigits (text : Str) : Finset (List Nat) :=
  ((findall (yearAt u) text).map (Year.canonical u)).toFinset

def percentDigits (text : Str) : Finset (List Nat × List Nat) :=
  ((findall (percentAt u) text).map (Percent.canonical u)).toFinset

theorem digitValues_lt (s : Str) : ∀ d ∈ digitValues u s, d < 10 := by
  intro d hd
  obtain ⟨c, -, hc⟩ := List.mem_filterMap.mp hd
  exact u.digit_lt c d hc

theorem percent_value_inj (p q : Percent u) :
    p.value u = q.value u ↔ p.canonical u = q.canonical u := by
  rw [Percent.value, Percent.value, value_inj (digitValues_lt u _) (digitValues_lt u _)
    (digitValues_lt u _) (digitValues_lt u _), Percent.canonical, Percent.canonical, Prod.mk.injEq]

/-- Two ways to write the members of two lists that tell the same of them apart. -/
theorem toFinset_map_congr {α β γ : Type} [DecidableEq β] [DecidableEq γ] {f : α → β} {g : α → γ}
    {xs ys : List α} (h : ∀ x ∈ xs, ∀ y ∈ ys, f x = f y ↔ g x = g y) :
    (xs.map f).toFinset = (ys.map f).toFinset ↔ (xs.map g).toFinset = (ys.map g).toFinset := by
  have hsub : ∀ {δ : Type} [DecidableEq δ] (k : α → δ) (xs ys : List α),
      (xs.map k).toFinset ⊆ (ys.map k).toFinset ↔ ∀ x ∈ xs, ∃ y ∈ ys, k x = k y := by
    intro δ _ k xs ys
    simp only [Finset.subset_iff, List.mem_toFinset, List.mem_map, forall_exists_index, and_imp,
      forall_apply_eq_imp_iff₂]
    exact forall₂_congr fun x _ => exists_congr fun y => and_congr_right' eq_comm
  rw [Finset.Subset.antisymm_iff, Finset.Subset.antisymm_iff, hsub, hsub, hsub, hsub]
  refine and_congr ?_ ?_
  · exact forall₂_congr fun x hx => exists_congr fun y => and_congr_right fun hy => h x hx y hy
  · refine forall₂_congr fun y hy => exists_congr fun x => and_congr_right fun hx => ?_
    rw [eq_comm, h x hx y hy, eq_comm]

end

variable {u : Characters} {F : Type} {doubles : Doubles F} {a b : Str}

/-! When the amounts can be read. -/

variable {zh version : LanguageVersion}

/-- The same spellings, but one of the blocks has a percentage that the other has not. -/
def Missed (u : Characters) (a b : Str) : Prop :=
  years u a = years u b ∧ percentages u a = percentages u b ∧
    percentDigits u a ≠ percentDigits u b

/-- The same years and percentages, but one of the blocks spells one as the other does not. -/
def FalseAlarm (u : Characters) (a b : Str) : Prop :=
  yearDigits u a = yearDigits u b ∧ percentDigits u a = percentDigits u b ∧
    ¬ (years u a = years u b ∧ percentages u a = percentages u b)

/-- A whole numeral that loses zeros to the trimming. -/
def Percent.Shortened (p : Percent u) : Prop := p.fraction = [] ∧ p.whole.getLast? = some 48

theorem digit_ne_point {c : Nat} (h : u.isDigit c = true) : c ≠ 46 := by
  rintro rfl
  rw [Characters.isDigit, u.digit_ascii 46 (by omega)] at h
  cases h

theorem rstrip_concat {c d : Nat} (s : Str) (h : d ≠ c) : rstrip c (s ++ [d]) = s ++ [d] := by
  rw [rstrip, List.rdropWhile_concat_neg]
  rw [decide_eq_true_iff]
  exact h

theorem rstrip_of_last {c d : Nat} {s : Str} (hd : s.getLast? = some d) (h : d ≠ c) :
    rstrip c s = s := by
  obtain ⟨pre, rfl⟩ := List.getLast?_eq_some_iff.mp hd
  exact rstrip_concat pre h

theorem rstrip_point (s f : Str) : rstrip 48 (s ++ 46 :: f) = s ++ 46 :: rstrip 48 f := by
  induction f using List.reverseRecOn with
  | nil => exact rstrip_concat s (by decide)
  | append_singleton f d ih =>
    have hassoc : s ++ 46 :: (f ++ [d]) = (s ++ 46 :: f) ++ [d] := by simp
    rw [hassoc, rstrip, rstrip, List.rdropWhile_concat, List.rdropWhile_concat]
    split
    · exact ih
    · exact hassoc.symm

/-- Only the zeros of the fraction are trimmed off a numeral that is not shortened. -/
theorem shown_of_not_shortened {p : Percent u} (h : ¬ p.Shortened) :
    p.shown = p.whole ++ if rstrip 48 p.fraction = [] then [] else 46 :: rstrip 48 p.fraction := by
  have hdigit : ∀ {s : Str} {c : Nat}, (∀ c ∈ s, u.isDigit c = true) → s.getLast? = some c →
      c ≠ 46 := fun hs hc => digit_ne_point (hs _ (List.mem_of_getLast? hc))
  have hwhole := List.getLast?_eq_some_getLast p.nonempty
  rw [Percent.shown, Percent.text]
  split
  · next hf =>
    have hne : p.whole.getLast p.nonempty ≠ 48 := fun he => h ⟨hf, by rw [hwhole, he]⟩
    rw [rstrip_of_last hwhole hne, rstrip_of_last hwhole (hdigit p.wholeDigits hwhole), hf]
    exact (List.append_nil _).symm
  · next hf =>
    rw [rstrip_point]
    split
    · next hz =>
      rw [hz, rstrip, List.rdropWhile_concat_pos _ _ _ (by decide), List.append_nil]
      exact rstrip_of_last hwhole (hdigit p.wholeDigits hwhole)
    · next hz =>
      have hlast := List.getLast?_eq_some_getLast hz
      have hdigits : ∀ c ∈ rstrip 48 p.fraction, u.isDigit c = true :=
        fun c hc => p.fractionDigits c ((List.rdropWhile_prefix _ _).subset hc)
      have hend : (p.whole ++ 46 :: rstrip 48 p.fraction).getLast? =
          some ((rstrip 48 p.fraction).getLast hz) := by
        rw [List.getLast?_append_cons, List.getLast?_cons, hlast]
        rfl
      exact rstrip_of_last hend (hdigit hdigits hlast)

theorem digitValues_append (s t : Str) :
    digitValues u (s ++ t) = digitValues u s ++ digitValues u t := List.filterMap_append

/-- Zeros that are stripped off do not count. -/
theorem trimmed_rstrip (s : Str) :
    trimmed (digitValues u (rstrip 48 s)) = trimmed (digitValues u s) := by
  have hzero : digitValues u [48] = [0] := by
    rw [digitValues, List.filterMap_cons_some (u.digit_ascii 48 (by omega))]
    rfl
  induction s using List.reverseRecOn with
  | nil => rfl
  | append_singleton s d ih =>
    rw [rstrip, List.rdropWhile_concat]
    split
    · next hd =>
      change trimmed (digitValues u (rstrip 48 s)) = _
      rw [ih, digitValues_append, of_decide_eq_true hd, hzero, trimmed, trimmed,
        List.rdropWhile_concat_pos _ _ _ (by decide)]
    · rfl

/-- Numerals that are not shortened have one spelling only where they have one value. -/
theorem value_of_shown {p q : Percent u} (hp : ¬ p.Shortened) (hq : ¬ q.Shortened)
    (h : p.shown = q.shown) : p.value u = q.value u := by
  have hdigits : ∀ {r : Percent u}, 46 ∉ r.whole := fun {r} hm =>
    digit_ne_point (r.wholeDigits 46 hm) rfl
  have hsplit : ∀ {r : Percent u}, ¬ r.Shortened →
      r.whole = r.shown.takeWhile (· ≠ 46) ∧
        rstrip 48 r.fraction = (r.shown.dropWhile (· ≠ 46)).drop 1 := by
    intro r hr
    have hall : ∀ c ∈ r.whole, decide (c ≠ 46) = true := by
      intro c hc
      exact decide_eq_true fun he => hdigits (he ▸ hc)
    rw [shown_of_not_shortened hr, List.takeWhile_append_of_pos hall,
      List.dropWhile_append_of_pos hall]
    split
    · next hz =>
      rw [hz]
      exact ⟨(List.append_nil _).symm, rfl⟩
    · exact ⟨(List.append_nil _).symm, rfl⟩
  obtain ⟨hw, hf⟩ := hsplit hp
  obtain ⟨hw', hf'⟩ := hsplit hq
  rw [percent_value_inj, Percent.canonical, Percent.canonical, hw, hw', h, ← trimmed_rstrip,
    ← trimmed_rstrip q.fraction, hf, hf', h]

/-- Digits of ASCII, without zeros before the whole part. -/
def Percent.Plain (p : Percent u) : Prop :=
  (∀ c ∈ p.whole ++ p.fraction, c < 128) ∧ (p.whole = [48] ∨ p.whole.head? ≠ some 48)

theorem digitValues_cons {c : Nat} {s : Str} (hc : u.isDigit c = true) (ha : c < 128) :
    48 ≤ c ∧ digitValues u (c :: s) = (c - 48) :: digitValues u s := by
  have hd := u.digit_ascii c ha
  split at hd
  · next hr =>
    refine ⟨hr.1, ?_⟩
    rw [digitValues, List.filterMap_cons_some hd]
    rfl
  · rw [Characters.isDigit, hd] at hc
    cases hc

/-- Digits of ASCII are told apart by their values. -/
theorem ascii_of_digitValues {s : Str} : ∀ {t : Str}, (∀ c ∈ s, u.isDigit c = true ∧ c < 128) →
    (∀ c ∈ t, u.isDigit c = true ∧ c < 128) → digitValues u s = digitValues u t → s = t := by
  induction s with
  | nil =>
    intro t _ ht h
    cases t with
    | nil => rfl
    | cons d t =>
      have hd := ht d List.mem_cons_self
      rw [(@digitValues_cons u d t hd.1 hd.2).2] at h
      cases h
  | cons c s ih =>
    intro t hs ht h
    have hc := hs c List.mem_cons_self
    obtain ⟨hge, hcons⟩ := @digitValues_cons u c s hc.1 hc.2
    cases t with
    | nil =>
      rw [hcons] at h
      cases h
    | cons d t =>
      have hd := ht d List.mem_cons_self
      obtain ⟨hge', hcons'⟩ := @digitValues_cons u d t hd.1 hd.2
      rw [hcons, hcons'] at h
      obtain ⟨he, hrest⟩ := List.cons.inj h
      have hcd : c = d := by omega
      rw [hcd, ih (fun x hx => hs x (List.mem_cons_of_mem c hx))
        (fun x hx => ht x (List.mem_cons_of_mem d hx)) hrest]

/-- The stripped fraction has no zeros left to trim. -/
theorem trimmed_stripped {f : Str} (hf : ∀ c ∈ f, u.isDigit c = true ∧ c < 128) :
    trimmed (digitValues u f) = digitValues u (rstrip 48 f) := by
  induction f using List.reverseRecOn with
  | nil => rfl
  | append_singleton f d ih =>
    have hd := hf d (List.mem_append_right _ List.mem_cons_self)
    obtain ⟨hge, hone⟩ := @digitValues_cons u d [] hd.1 hd.2
    have hrest := ih fun c hc => hf c (List.mem_append_left _ hc)
    rw [rstrip, List.rdropWhile_concat, digitValues_append, hone, trimmed]
    change List.rdropWhile _ (digitValues u f ++ [d - 48]) = _
    rw [List.rdropWhile_concat]
    by_cases hz : d = 48
    · rw [if_pos (by simp [hz]), if_pos (by simp [hz])]
      exact hrest
    · have hne : ¬ d - 48 = 0 := by omega
      rw [if_neg (by simpa using hne), if_neg (by simpa using hz), digitValues_append, hone]
      rfl

/-- A whole part without zeros before it keeps all its digits. -/
theorem Percent.Plain.unpadded {p : Percent u} (h : p.Plain) :
    p.whole = [48] ∧ unpadded (digitValues u p.whole) = [] ∨
      unpadded (digitValues u p.whole) = digitValues u p.whole ∧ digitValues u p.whole ≠ [] := by
  obtain ⟨hascii, hlead⟩ := h
  cases hw : p.whole with
  | nil => exact absurd hw p.nonempty
  | cons c rest =>
    have hc : u.isDigit c = true := p.wholeDigits c (hw ▸ List.mem_cons_self)
    have ha : c < 128 := hascii c (List.mem_append_left _ (hw ▸ List.mem_cons_self))
    obtain ⟨hge, hcons⟩ := @digitValues_cons u c rest hc ha
    rw [hcons]
    rcases hlead with hzero | hne
    · rw [hw] at hzero
      obtain ⟨rfl, rfl⟩ := List.cons.inj hzero
      exact Or.inl ⟨rfl, rfl⟩
    · refine Or.inr ⟨?_, List.cons_ne_nil _ _⟩
      have hnz : ¬ c - 48 = 0 := by
        intro hz
        rw [hw] at hne
        exact hne (congrArg some (by omega))
      rw [Decimals.unpadded, List.dropWhile_cons_of_neg]
      rw [decide_eq_true_iff]
      exact hnz

theorem shown_of_value {p q : Percent u} (hp : p.Plain) (hq : q.Plain) (hp' : ¬ p.Shortened)
    (hq' : ¬ q.Shortened) (h : p.value u = q.value u) : p.shown = q.shown := by
  have hascii : ∀ {r : Percent u}, r.Plain → (∀ c ∈ r.whole, u.isDigit c = true ∧ c < 128) ∧
      ∀ c ∈ r.fraction, u.isDigit c = true ∧ c < 128 := fun {r} hr =>
    ⟨fun c hc => ⟨r.wholeDigits c hc, hr.1 c (List.mem_append_left _ hc)⟩,
      fun c hc => ⟨r.fractionDigits c hc, hr.1 c (List.mem_append_right _ hc)⟩⟩
  rw [percent_value_inj, Percent.canonical, Percent.canonical, Prod.mk.injEq] at h
  have hwhole : p.whole = q.whole := by
    rcases hp.unpadded with ⟨hw, hnil⟩ | ⟨hw, hne⟩
    · rcases hq.unpadded with ⟨hw', -⟩ | ⟨hw', hne'⟩
      · rw [hw, hw']
      · rw [← hw', ← h.1] at hne'
        exact absurd hnil hne'
    · rcases hq.unpadded with ⟨-, hnil'⟩ | ⟨hw', -⟩
      · rw [← hw, h.1] at hne
        exact absurd hnil' hne
      · rw [hw, hw'] at h
        exact ascii_of_digitValues (hascii hp).1 (hascii hq).1 h.1
  have hstrip : ∀ {s : Str}, (∀ c ∈ s, u.isDigit c = true ∧ c < 128) →
      ∀ c ∈ rstrip 48 s, u.isDigit c = true ∧ c < 128 :=
    fun hs c hc => hs c ((List.rdropWhile_prefix _ _).subset hc)
  have hfraction : rstrip 48 p.fraction = rstrip 48 q.fraction := by
    have he := h.2
    rw [trimmed_stripped (hascii hp).2, trimmed_stripped (hascii hq).2] at he
    exact ascii_of_digitValues (hstrip (hascii hp).2) (hstrip (hascii hq).2) he
  rw [shown_of_not_shortened hp', shown_of_not_shortened hq', hwhole, hfraction]

/-- Numerals and years as a text in ASCII has them, none of them ending in zeros. -/
def PlainFigures (u : Characters) (text : Str) : Prop :=
  (∀ y ∈ findall (yearAt u) text, ∀ c ∈ y.text, c < 128) ∧
    ∀ p ∈ findall (percentAt u) text, p.Plain ∧ ¬ p.Shortened

/-- What is missed comes from a whole numeral that loses zeros. -/
theorem shortened_of_missed (h : Missed u a b) :
    ∃ p q : Percent u, p.shown = q.shown ∧ p.value u ≠ q.value u ∧ p.Shortened := by
  obtain ⟨-, hshown, hne⟩ := h
  have hfind : ∀ {s t : Str}, percentages u s = percentages u t →
      ¬ percentDigits u s ⊆ percentDigits u t →
        ∃ p q : Percent u, p.shown = q.shown ∧ p.value u ≠ q.value u := by
    intro s t hst hsub
    rw [Finset.not_subset] at hsub
    obtain ⟨ds, hds, hnot⟩ := hsub
    obtain ⟨p, hp, rfl⟩ := List.mem_map.mp (List.mem_toFinset.mp hds)
    have hmem : p.shown ∈ percentages u t := by
      rw [← hst]
      exact List.mem_toFinset.mpr (List.mem_map_of_mem hp)
    obtain ⟨q, hq, he⟩ := List.mem_map.mp (List.mem_toFinset.mp hmem)
    refine ⟨p, q, he.symm, fun hv => hnot ?_⟩
    rw [(percent_value_inj u p q).mp hv]
    exact List.mem_toFinset.mpr (List.mem_map_of_mem hq)
  have hpair : ∃ p q : Percent u, p.shown = q.shown ∧ p.value u ≠ q.value u := by
    by_cases hsub : percentDigits u a ⊆ percentDigits u b
    · have hsub' : ¬ percentDigits u b ⊆ percentDigits u a :=
        fun hba => hne (Finset.Subset.antisymm hsub hba)
      exact hfind hshown.symm hsub'
    · exact hfind hshown hsub
  obtain ⟨p, q, he, hv⟩ := hpair
  by_cases hp : p.Shortened
  · exact ⟨p, q, he, hv, hp⟩
  · by_cases hq : q.Shortened
    · exact ⟨q, p, he.symm, hv.symm, hq⟩
    · exact absurd (value_of_shown hp hq he) hv

/-- On plain figures nothing is missed and nothing is made up. -/
theorem settled_of_plain (ha : PlainFigures u a) (hb : PlainFigures u b) :
    ¬ Missed u a b ∧ ¬ FalseAlarm u a b := by
  have hpercent : percentages u a = percentages u b ↔ percentDigits u a = percentDigits u b := by
    refine toFinset_map_congr fun p hp q hq => ?_
    obtain ⟨hp, hp'⟩ := ha.2 p hp
    obtain ⟨hq, hq'⟩ := hb.2 q hq
    rw [← percent_value_inj]
    exact ⟨value_of_shown hp' hq', shown_of_value hp hq hp' hq'⟩
  have hyears : years u a = years u b ↔ yearDigits u a = yearDigits u b := by
    refine toFinset_map_congr fun y hy z hz => ⟨fun h => ?_, ?_⟩
    · rw [Year.canonical, Year.canonical, h]
    · exact ascii_of_digitValues (fun c hc => ⟨y.digits c hc, ha.1 y hy c hc⟩)
        (fun c hc => ⟨z.digits c hc, hb.1 z hz c hc⟩)
  constructor
  · rintro ⟨-, hshown, hne⟩
    exact hne (hpercent.mp hshown)
  · rintro ⟨hy, hp, hne⟩
    exact hne ⟨hyears.mpr hy, hpercent.mpr hp⟩

/-- Exact arithmetic. -/
def exact : Doubles Rat where
  parse s :=
    let fraction := (s.dropWhile (· ≠ 46)).drop 1
    Decimals.value (digitValues ascii (s.takeWhile (· ≠ 46))) (digitValues ascii fraction)
  ofNat n := n
  hundredth := 1 / 100
  mul x y := x * y
  sub x y := x - y
  abs x := |x|
  max x y := max x y
  le x y := x ≤ y

end Autora.Bilingual
