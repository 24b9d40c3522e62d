import Mathlib.Data.Prod.Lex
import Mathlib.Order.WellFounded
import Autora.Holdings
import Autora.OneOrder

/-! The period's numbers against the membership rows: members, new members and
lapsed members. -/

namespace Autora.Company

open Transactions Systems

variable {b : Books} {company : Id} {unit : Option Id}

/-! Members. -/

/-- The membership belongs to the company, or to one of its businesses. -/
def Membership.scoped (company : Id) (unit : Option Id) (m : Membership) : Bool :=
  m.companyId = company && unit.all fun u => m.businessUnitId = u

theorem Payment.Of.scoped {p : Payment} {m : Membership} (h : p.Of m) :
    p.scoped company unit = m.scoped company unit := by
  rw [Payment.scoped, Membership.scoped, h.company, h.unit]

theorem Payment.Alike.scoped {p q : Payment} (h : q.Alike p) :
    q.scoped company unit = p.scoped company unit := by
  rw [Payment.scoped, Payment.scoped, h.company, h.unit]

/-- A customer whose stretch, paid for by then, ends later is a member by then. -/
theorem member_of_stretch (hb : Holdings b) {t : Time} {p : Payment}
    (hp : p ∈ b.paidByEnd company unit t) (ht : t < p.grantsUntil) :
    p.customerId ∈ b.memberIds company unit t := by
  obtain ⟨hmem, hscope, hpaid⟩ := mem_paidByEnd.mp hp
  obtain ⟨q, hq, halike, hle, hfrom, huntil⟩ := hb.covered p hmem t hpaid ht
  refine mem_memberIds.mpr ⟨q, mem_paidByEnd.mpr ⟨hq, ?_, Nat.le_trans hle hpaid⟩,
    halike.customer, hfrom, huntil⟩
  rw [halike.scoped]
  exact hscope

theorem member_iff (hb : Holdings b) {t : Time} (ht : ∀ p ∈ b.payments, p.paidAt ≤ t) (c : Id) :
    c ∈ b.memberIds company unit t ↔
      ∃ m ∈ b.memberships, m.scoped company unit = true ∧ m.customerId = c ∧ t < m.expiresAt := by
  constructor
  · intro h
    obtain ⟨p, hp, hc, _, huntil⟩ := mem_memberIds.mp h
    obtain ⟨hmem, hscope, _⟩ := mem_paidByEnd.mp hp
    obtain ⟨m, hm, hof, hle⟩ := hb.held p hmem
    rw [hof.scoped] at hscope
    exact ⟨m, hm, hscope, hof.customer.symm.trans hc, Nat.lt_of_lt_of_le huntil hle⟩
  · rintro ⟨m, hm, hscope, rfl, hexp⟩
    obtain ⟨p, hp, hof, huntil⟩ := hb.latest m hm
    rw [← hof.customer]
    rw [← hof.scoped] at hscope
    exact member_of_stretch hb (mem_paidByEnd.mpr ⟨hp, hscope, ht p hp⟩) (huntil ▸ hexp)

/-! Lapsed members. -/

theorem member_or_lapsed (hb : Holdings b) {since until_ : Time} (hle : since ≤ until_) {c : Id}
    (hc : c ∈ b.memberIds company unit since) :
    c ∈ b.memberIds company unit until_ ∨ c ∈ b.lapsedIds company unit since until_ := by
  obtain ⟨p, hp, hpc, _, huntil⟩ := mem_memberIds.mp hc
  obtain ⟨hmem, hscope, hpaid⟩ := mem_paidByEnd.mp hp
  by_cases hlater : ∃ q ∈ b.paidByEnd company unit until_, q.customerId = c ∧
      until_ < q.grantsUntil
  · left
    obtain ⟨q, hq, hqc, hqlt⟩ := hlater
    rw [← hqc]
    exact member_of_stretch hb hq hqlt
  · right
    refine mem_lapsedIds.mpr ⟨⟨p, ?_, hpc, huntil⟩, fun q hq hqc => ?_⟩
    · exact mem_paidByEnd.mpr ⟨hmem, hscope, Nat.le_trans hpaid hle⟩
    · by_contra hno
      exact hlater ⟨q, hq, hqc, Nat.lt_of_not_le hno⟩

theorem not_member_and_lapsed {since until_ : Time} {c : Id}
    (hm : c ∈ b.memberIds company unit until_)
    (hl : c ∈ b.lapsedIds company unit since until_) : False := by
  obtain ⟨p, hp, hpc, _, huntil⟩ := mem_memberIds.mp hm
  have hle := (mem_lapsedIds.mp hl).2 p hp hpc
  exact absurd huntil (Nat.not_lt.mpr hle)

/-! New members. -/

/-- Periods one after the other, the first from `first` and the last up to before `last`. -/
def Consecutive (first last : Time) : List (Time × Time) → Prop
  | [] => first = last
  | (since, until_) :: rest =>
    since = first ∧ since ≤ until_ ∧ Consecutive (until_ + 1) last rest

theorem Consecutive.le {first last : Time} {periods : List (Time × Time)}
    (h : Consecutive first last periods) : first ≤ last := by
  induction periods generalizing first with
  | nil => exact Nat.le_of_eq h
  | cons period rest ih =>
    obtain ⟨hfirst, hle, hrest⟩ := h
    have hh := ih hrest
    rw [← hfirst]
    exact Nat.le_trans hle (Nat.le_trans (Nat.le_succ _) hh)

/-- Each payment of a stretch of time is counted in one of its periods. -/
theorem sum_countP_periods {first last : Time} {periods : List (Time × Time)} (P : Payment → Bool)
    (payments : List Payment) (h : Consecutive first last periods) :
    (periods.map fun q => payments.countP fun p => P p && p.inPeriod q.1 q.2).sum =
      payments.countP fun p => P p && decide (first ≤ p.paidAt ∧ p.paidAt < last) := by
  induction periods generalizing first with
  | nil =>
    have hnone : ∀ p ∈ payments, (P p && decide (first ≤ p.paidAt ∧ p.paidAt < last)) = false := by
      intro p _
      have hempty : ¬ (first ≤ p.paidAt ∧ p.paidAt < last) := by
        rintro ⟨hge, hlt⟩
        rw [show first = last from h] at hge
        exact absurd hlt (Nat.not_lt.mpr hge)
      simp [hempty]
    rw [List.map_nil, List.sum_nil, eq_comm, List.countP_eq_zero]
    intro p hp
    rw [hnone p hp]
    simp
  | cons period rest ih =>
    obtain ⟨since, until_⟩ := period
    obtain ⟨rfl, hle, hrest⟩ := h
    have hlast := hrest.le
    rw [List.map_cons, List.sum_cons, ih hrest]
    clear ih
    induction payments with
    | nil => rfl
    | cons p payments ihp =>
      simp only [List.countP_cons]
      have hsplit : (if (P p && p.inPeriod since until_) = true then 1 else 0) +
          (if (P p && decide (until_ + 1 ≤ p.paidAt ∧ p.paidAt < last)) = true then 1 else 0) =
          if (P p && decide (since ≤ p.paidAt ∧ p.paidAt < last)) = true then 1 else 0 := by
        cases P p
        · rfl
        · simp only [Bool.true_and, Payment.inPeriod, Bool.and_eq_true, decide_eq_true_eq]
          generalize p.paidAt = t at *
          by_cases h₁ : t ≤ until_
          · have h₂ : ¬ until_ + 1 ≤ t := Nat.not_le.mpr (Nat.lt_succ_of_le h₁)
            have h₃ : t < last := Nat.lt_of_lt_of_le (Nat.lt_succ_of_le h₁) hlast
            simp [h₁, h₂, h₃]
          · have h₂ : until_ + 1 ≤ t := Nat.lt_of_not_le h₁
            have h₃ : since ≤ t := Nat.le_trans hle (Nat.le_of_lt h₂)
            simp [h₁, h₂, h₃]
      rw [Nat.add_add_add_comm, ihp, hsplit]

/-- Of two different payments of one payer, one was before the other. -/
theorem before_or_before {p q : Payment} (hc : q.customerId = p.customerId)
    (hco : q.companyId = p.companyId) (hu : q.scoped company unit = p.scoped company unit)
    (hs : p.scoped company unit = true) (hid : q.id ≠ p.id) :
    q.before unit p = true ∨ p.before unit q = true := by
  have hunit : unit.isNone = true ∨ q.businessUnitId = p.businessUnitId := by
    rw [hs] at hu
    simp only [Payment.scoped, Bool.and_eq_true] at hu hs
    cases unit with
    | none => exact .inl rfl
    | some u =>
      simp only [Option.all_some, decide_eq_true_eq] at hu hs
      exact .inr (hu.2.trans hs.2.symm)
  have hunit' : unit.isNone = true ∨ p.businessUnitId = q.businessUnitId :=
    hunit.imp_right Eq.symm
  have htime : (q.paidAt < p.paidAt ∨ q.paidAt = p.paidAt ∧ q.id < p.id) ∨
      (p.paidAt < q.paidAt ∨ p.paidAt = q.paidAt ∧ p.id < q.id) := by
    rcases Nat.lt_trichotomy q.paidAt p.paidAt with h | h | h
    · exact .inl (.inl h)
    · rcases Nat.lt_or_gt_of_ne hid with h' | h'
      · exact .inl (.inr ⟨h, h'⟩)
      · exact .inr (.inr ⟨h.symm, h'⟩)
    · exact .inr (.inl h)
  simp only [Payment.before, Bool.and_eq_true, Bool.or_eq_true, decide_eq_true_eq]
  rcases htime with h | h
  · exact .inl ⟨⟨⟨hc, hco⟩, h⟩, hunit⟩
  · exact .inr ⟨⟨⟨hc.symm, hco.symm⟩, h⟩, hunit'⟩

/-- What is before a payment is earlier in the order of time and id. -/
theorem before_lex (company : Id) {p q : Payment} (h : q.before unit p = true) :
    Prod.Lex (· < ·) (· < ·) (q.paidAt, q.id) (p.paidAt, p.id) ∧ q.customerId = p.customerId ∧
      (p.scoped company unit = true → q.scoped company unit = true) := by
  simp only [Payment.before, Bool.and_eq_true, Bool.or_eq_true, decide_eq_true_eq] at h
  obtain ⟨⟨⟨hc, hco⟩, htime⟩, hunit⟩ := h
  refine ⟨Prod.lex_def.mpr htime, hc, fun hs => ?_⟩
  simp only [Payment.scoped, Bool.and_eq_true, decide_eq_true_eq] at hs ⊢
  refine ⟨hco.trans hs.1, ?_⟩
  cases unit with
  | none => rfl
  | some u =>
    rcases hunit with hunit | hunit
    · cases hunit
    · simp only [Option.all_some, decide_eq_true_eq] at hs ⊢
      exact hunit.trans hs.2

/-- Every payer has a first payment. -/
theorem exists_first {p : Payment} (hp : p ∈ b.payments) (hs : p.scoped company unit = true) :
    ∃ q ∈ b.payments, q.scoped company unit = true ∧ q.customerId = p.customerId ∧
      b.isFirst unit q = true := by
  let S : Set Payment := fun q =>
    q ∈ b.payments ∧ q.scoped company unit = true ∧ q.customerId = p.customerId
  have hwf : WellFounded (InvImage (Prod.Lex (· < ·) (· < ·))
      fun q : Payment => ((q.paidAt, q.id) : Nat × Nat)) :=
    InvImage.wf _ (WellFounded.prod_lex Nat.lt_wfRel.wf Nat.lt_wfRel.wf)
  obtain ⟨q, ⟨hq, hqs, hqc⟩, hmin⟩ := hwf.has_min S ⟨p, hp, hs, rfl⟩
  refine ⟨q, hq, hqs, hqc, ?_⟩
  rw [Books.isFirst, Bool.not_eq_true', List.any_eq_false]
  intro r hr hbefore
  obtain ⟨hlex, hrc, hrs⟩ := before_lex company hbefore
  exact hmin r ⟨hr, hrs hqs, hrc.trans hqc⟩ hlex

/-- There are as many first payments as payers. -/
theorem countP_first (hb : Holdings b) (company : Id) (unit : Option Id) :
    b.payments.countP (fun p => p.scoped company unit && b.isFirst unit p) =
      (payers (b.payments.filter fun p => p.scoped company unit)).length := by
  let firsts := b.payments.filter fun p => p.scoped company unit && b.isFirst unit p
  have hmem : ∀ p, p ∈ firsts ↔ p ∈ b.payments ∧ p.scoped company unit = true ∧
      b.isFirst unit p = true := by
    intro p
    rw [List.mem_filter, Bool.and_eq_true]
  have hids : (firsts.map Payment.customerId).Nodup := by
    have hnodup : firsts.Nodup := (List.Nodup.of_map _ hb.ids).filter _
    refine hnodup.map_on fun p hp q hq hc => ?_
    obtain ⟨hp, hps, hpf⟩ := (hmem p).mp hp
    obtain ⟨hq, hqs, hqf⟩ := (hmem q).mp hq
    by_contra hne
    have hid : q.id ≠ p.id := fun he =>
      hne (List.inj_on_of_nodup_map hb.ids hp hq he.symm)
    have hco : q.companyId = p.companyId := by
      simp only [Payment.scoped, Bool.and_eq_true, decide_eq_true_eq] at hps hqs
      exact hqs.1.trans hps.1.symm
    rw [Books.isFirst, Bool.not_eq_true', List.any_eq_false] at hpf hqf
    rcases before_or_before hc.symm hco (hqs.trans hps.symm) hps hid with h | h
    · exact hpf q hq h
    · exact hqf p hp h
  have hperm : (firsts.map Payment.customerId).Perm
      (payers (b.payments.filter fun p => p.scoped company unit)) := by
    refine (List.perm_ext_iff_of_nodup hids (payers_nodup _)).mpr fun c => ?_
    rw [mem_payers, List.mem_map]
    constructor
    · rintro ⟨p, hp, rfl⟩
      obtain ⟨hp, hs, _⟩ := (hmem p).mp hp
      exact ⟨p, List.mem_filter.mpr ⟨hp, hs⟩, rfl⟩
    · rintro ⟨p, hp, rfl⟩
      obtain ⟨hp, hs⟩ := List.mem_filter.mp hp
      obtain ⟨q, hq, hqs, hqc, hqf⟩ := exists_first hp hs
      exact ⟨q, (hmem q).mpr ⟨hq, hqs, hqf⟩, hqc⟩
  rw [← hperm.length_eq, List.length_map, List.countP_eq_length_filter]

theorem sum_newMembers (hb : Holdings b) {first last : Time} {periods : List (Time × Time)}
    (h : Consecutive first last periods)
    (hall : ∀ p ∈ b.payments, first ≤ p.paidAt ∧ p.paidAt < last) :
    (periods.map fun q => (b.membershipNumbers company unit q.1 q.2).newMembers).sum =
      (payers (b.payments.filter fun p => p.scoped company unit)).length := by
  rw [← countP_first hb]
  have hnew : ∀ q : Time × Time, (b.membershipNumbers company unit q.1 q.2).newMembers =
      b.payments.countP fun p =>
        (p.scoped company unit && b.isFirst unit p) && p.inPeriod q.1 q.2 := by
    intro q
    show b.newMembers company unit q.1 q.2 = _
    rw [Books.newMembers, Books.inScope, List.countP_filter]
    refine List.countP_congr fun p _ => ?_
    rw [Bool.and_comm, Bool.and_right_comm]
  simp only [hnew]
  rw [sum_countP_periods _ _ h]
  refine List.countP_congr fun p hp => ?_
  simp [hall p hp]

/-! The story. -/

structure SameStory (b : Books) : Prop where
  members : ∀ company unit t, (∀ p ∈ b.payments, p.paidAt ≤ t) → ∀ c,
    c ∈ b.memberIds company unit t ↔
      ∃ m ∈ b.memberships, m.scoped company unit = true ∧ m.customerId = c ∧ t < m.expiresAt
  newMembers : ∀ company unit first last periods, Consecutive first last periods →
    (∀ p ∈ b.payments, first ≤ p.paidAt ∧ p.paidAt < last) →
    (periods.map fun q => (b.membershipNumbers company unit q.1 q.2).newMembers).sum =
      (payers (b.payments.filter fun p => p.scoped company unit)).length
  lapsed : ∀ company unit since until_, since ≤ until_ → ∀ c ∈ b.memberIds company unit since,
    (c ∈ b.memberIds company unit until_ ∨ c ∈ b.lapsedIds company unit since until_) ∧
      ¬ (c ∈ b.memberIds company unit until_ ∧ c ∈ b.lapsedIds company unit since until_)

theorem same_story (b : Books) (h : trading.Reach inOrder b) : SameStory b := by
  have hb := reach_holdings h
  exact ⟨fun _ _ _ ht c => member_iff hb ht c, fun _ _ _ _ _ hc hall => sum_newMembers hb hc hall,
    fun _ _ _ _ hle _ hc => ⟨member_or_lapsed hb hle hc,
      fun hboth => not_member_and_lapsed hboth.1 hboth.2⟩⟩

/-- A reader pays for a month under `ref`. -/
def month (ref : String) (paidAt : Time) : Trade :=
  .purchase ⟨monthly, "reader:7", payuni, ref, 100000000, "TWD", paidAt⟩

/-- A month bought, bought again before it ended, and the day's expiries. -/
def renewed : Books :=
  ((shop.commit (month "T1" 1000000).exec).commit (month "T2" 2000000).exec).commit
    (Trade.expireDue 1 3000000 []).exec

theorem same_story_renewed : renewed.payments.length = 2 ∧ SameStory renewed := by
  refine ⟨by decide +kernel, same_story renewed ⟨shop, ⟨rfl, rfl, rfl⟩, ?_⟩⟩
  have hfirst : inOrder shop (month "T1" 1000000) := by simp [inOrder, shop, month]
  have hlater : ∀ p ∈ (shop.commit (month "T1" 1000000).exec).payments,
      p.paidAt ≤ 2000000 := by decide +kernel
  exact .head ⟨month "T1" 1000000, hfirst, rfl⟩ (.head ⟨month "T2" 2000000, hlater, rfl⟩
    (.head ⟨.expireDue 1 3000000 [], trivial, rfl⟩ .refl))

end Autora.Company
