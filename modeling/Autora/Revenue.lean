import Mathlib.Data.List.Dedup
import Mathlib.Order.MinMax
import Autora.Memberships

/-! What the memberships add up to: the numbers of a period, counted from the
payments and the stretches they bought. -/

namespace Autora.Company

/-- `EXPIRING_WITHIN`: thirty days. -/
def expiringWithin : Time := 30 * dayMicros

structure MembershipNumbers where
  payments : Nat
  newMembers : Nat
  renewals : Nat
  members : Nat
  expiringMembers : Nat
  lapsedMembers : Nat
  membershipRevenue : Money
  averagePayment : Option Money
  deriving DecidableEq, Repr

/-- `_scoped`: the company's payments, or those of one of its businesses. -/
def Payment.scoped (company : Id) (unit : Option Id) (p : Payment) : Bool :=
  p.companyId = company && unit.all fun u => p.businessUnitId = u

def Payment.inPeriod (since until_ : Time) (p : Payment) : Bool :=
  since ≤ p.paidAt && p.paidAt ≤ until_

/-- `before`: the same payer paid earlier; ties go to the smaller id. -/
def Payment.before (unit : Option Id) (earlier p : Payment) : Bool :=
  earlier.customerId = p.customerId && earlier.companyId = p.companyId &&
    (earlier.paidAt < p.paidAt || (earlier.paidAt = p.paidAt && earlier.id < p.id)) &&
    (unit.isNone || earlier.businessUnitId = p.businessUnitId)

def Books.isFirst (b : Books) (unit : Option Id) (p : Payment) : Bool :=
  !b.payments.any fun earlier => earlier.before unit p

def Books.inScope (b : Books) (company : Id) (unit : Option Id) (since until_ : Time) :
    List Payment :=
  b.payments.filter fun p => p.scoped company unit && p.inPeriod since until_

def Books.newMembers (b : Books) (company : Id) (unit : Option Id) (since until_ : Time) : Nat :=
  (b.inScope company unit since until_).countP (b.isFirst unit)

def Books.paidByEnd (b : Books) (company : Id) (unit : Option Id) (until_ : Time) :
    List Payment :=
  b.payments.filter fun p => p.scoped company unit && decide (p.paidAt ≤ until_)

/-- The groups of `reach`. -/
def payers (payments : List Payment) : List Id := (payments.map Payment.customerId).dedup

/-- `max(grants_until)` of one group. -/
def ends (payments : List Payment) (customer : Id) : Time :=
  ((payments.filter fun p => p.customerId = customer).map Payment.grantsUntil).foldr max 0

def Payment.covers (at_ : Time) (p : Payment) : Bool := p.grantsFrom ≤ at_ && at_ < p.grantsUntil

def covering (payments : List Payment) (until_ : Time) (customer : Id) : Nat :=
  (payments.filter fun p => p.customerId = customer).countP (Payment.covers until_)

/-- The customers counted as members at the end of a period. -/
def Books.memberIds (b : Books) (company : Id) (unit : Option Id) (until_ : Time) : List Id :=
  (payers (b.paidByEnd company unit until_)).filter fun c =>
    0 < covering (b.paidByEnd company unit until_) until_ c

/-- The customers counted as lapsed in a period. -/
def Books.lapsedIds (b : Books) (company : Id) (unit : Option Id) (since until_ : Time) : List Id :=
  (payers (b.paidByEnd company unit until_)).filter fun c =>
    since < ends (b.paidByEnd company unit until_) c &&
      ends (b.paidByEnd company unit until_) c ≤ until_

def Books.membershipRevenue (b : Books) (payments : List Payment) : Money :=
  (payments.flatMap fun p => (b.transactions.filter fun t =>
    t.id = p.transactionId && t.kind = .revenue && t.category = revenueCategory).map
      Transaction.amount).sum

def Books.membershipNumbers (b : Books) (company : Id) (unit : Option Id) (since until_ : Time) :
    MembershipNumbers :=
  let payments := b.inScope company unit since until_
  let reach := b.paidByEnd company unit until_
  let revenue := b.membershipRevenue payments
  { payments := payments.length
    newMembers := b.newMembers company unit since until_
    renewals := payments.length - b.newMembers company unit since until_
    members := (b.memberIds company unit until_).length
    expiringMembers := (b.memberIds company unit until_).countP fun c =>
      ends reach c ≤ until_ + expiringWithin
    lapsedMembers := (b.lapsedIds company unit since until_).length
    membershipRevenue := revenue
    averagePayment :=
      if payments.length = 0 then none
      else some (halfEven ((revenue : Rat) / (payments.length : Rat))) }

/-! What the groups say about single payments. -/

theorem lt_foldr_max {x : Time} {ts : List Time} : x < ts.foldr max 0 ↔ ∃ t ∈ ts, x < t := by
  induction ts with
  | nil => simp
  | cons t ts ih =>
    rw [List.foldr_cons, lt_max_iff, ih]
    simp

theorem lt_ends {payments : List Payment} {c : Id} {x : Time} :
    x < ends payments c ↔ ∃ p ∈ payments, p.customerId = c ∧ x < p.grantsUntil := by
  rw [ends, lt_foldr_max]
  constructor
  · rintro ⟨_, ht, hx⟩
    obtain ⟨p, hp, rfl⟩ := List.mem_map.mp ht
    obtain ⟨hp, hc⟩ := List.mem_filter.mp hp
    exact ⟨p, hp, by simpa using hc, hx⟩
  · rintro ⟨p, hp, hc, hx⟩
    exact ⟨_, List.mem_map_of_mem (List.mem_filter.mpr ⟨hp, by simpa using hc⟩), hx⟩

theorem mem_payers {payments : List Payment} {c : Id} :
    c ∈ payers payments ↔ ∃ p ∈ payments, p.customerId = c := by
  rw [payers, List.mem_dedup, List.mem_map]

theorem payers_nodup (payments : List Payment) : (payers payments).Nodup := List.nodup_dedup _

variable {b : Books} {company : Id} {unit : Option Id}

theorem mem_paidByEnd {t : Time} {p : Payment} : p ∈ b.paidByEnd company unit t ↔
    p ∈ b.payments ∧ p.scoped company unit = true ∧ p.paidAt ≤ t := by
  rw [Books.paidByEnd, List.mem_filter, Bool.and_eq_true, decide_eq_true_eq]

theorem mem_memberIds {t : Time} {c : Id} : c ∈ b.memberIds company unit t ↔
    ∃ p ∈ b.paidByEnd company unit t, p.customerId = c ∧ p.grantsFrom ≤ t ∧ t < p.grantsUntil := by
  rw [Books.memberIds, List.mem_filter, mem_payers, decide_eq_true_eq, covering,
    List.countP_pos_iff]
  constructor
  · rintro ⟨_, p, hp, hcov⟩
    obtain ⟨hp, hc⟩ := List.mem_filter.mp hp
    simp only [Payment.covers, Bool.and_eq_true, decide_eq_true_eq] at hc hcov
    exact ⟨p, hp, hc, hcov⟩
  · rintro ⟨p, hp, hc, hfrom, huntil⟩
    refine ⟨⟨p, hp, hc⟩, p, List.mem_filter.mpr ⟨hp, by simpa using hc⟩, ?_⟩
    simp [Payment.covers, hfrom, huntil]

theorem mem_lapsedIds {since until_ : Time} {c : Id} :
    c ∈ b.lapsedIds company unit since until_ ↔
      (∃ p ∈ b.paidByEnd company unit until_, p.customerId = c ∧ since < p.grantsUntil) ∧
      ∀ p ∈ b.paidByEnd company unit until_, p.customerId = c → p.grantsUntil ≤ until_ := by
  rw [Books.lapsedIds, List.mem_filter, Bool.and_eq_true, decide_eq_true_eq, decide_eq_true_eq,
    mem_payers, lt_ends]
  constructor
  · rintro ⟨_, hlt, hle⟩
    refine ⟨hlt, fun p hp hc => ?_⟩
    by_contra hno
    exact absurd (lt_ends.mpr ⟨p, hp, hc, Nat.lt_of_not_le hno⟩) (Nat.not_lt.mpr hle)
  · rintro ⟨⟨p, hp, hc, hlt⟩, hall⟩
    refine ⟨⟨p, hp, hc⟩, ⟨p, hp, hc, hlt⟩, Nat.le_of_not_lt fun hno => ?_⟩
    obtain ⟨q, hq, hqc, hqlt⟩ := lt_ends.mp hno
    exact absurd (hall q hq hqc) (Nat.not_le.mpr hqlt)

end Autora.Company
