import Autora.Memberships

/-! What a purchase does to the books, and when it goes through. -/

namespace Autora.Company

open Transactions

variable {b b' : Books}

/-! Only the customers change while the payer is looked up. -/

/-- Everything but the customers, the events and the next id is as before. -/
structure CustomersOnly (b b' : Books) : Prop where
  rest : b' = { b with
    customers := b'.customers
    events := b'.events
    nextId := b'.nextId }
  nextId : b.nextId ≤ b'.nextId

instance : IsPreorder Books CustomersOnly where
  refl b := ⟨rfl, Nat.le_refl _⟩
  trans _ _ _ h h' := ⟨by rw [h'.rest, h.rest], Nat.le_trans h.nextId h'.nextId⟩

theorem acquire_customersOnly (company : Id) (externalRef : String) (kind : CustomerKind)
    (businessUnit product : Option Id) (at_ : Time) :
    Keeps CustomersOnly (acquire company externalRef kind businessUnit product at_) := by
  unfold acquire
  refine Keeps.require.bind fun _ => Keeps.get.bind fun b => ?_
  split
  · exact Keeps.pure _
  · refine Keeps.bind ?_ fun id => Keeps.bind ?_ fun _ => Keeps.bind ?_ fun _ => Keeps.pure _
    · intro s i t h
      rw [(returns_uuid7.mp h).2]
      exact ⟨rfl, Nat.le_succ _⟩
    · exact Keeps.modify fun _ => ⟨rfl, Nat.le_refl _⟩
    · exact Keeps.modify fun _ => ⟨rfl, Nat.le_refl _⟩

theorem reactivate_customersOnly (customer : Customer) (at_ : Time) :
    Keeps CustomersOnly (reactivate customer at_) := by
  unfold reactivate
  split
  · exact Keeps.pure _
  · refine Keeps.bind ?_ fun _ => Keeps.bind ?_ fun _ => Keeps.pure _
    · exact Keeps.modify fun _ => ⟨rfl, Nat.le_refl _⟩
    · exact Keeps.modify fun _ => ⟨rfl, Nat.le_refl _⟩

theorem theCustomer_customersOnly (product : Product) (customerRef : String) (at_ : Time) :
    Keeps CustomersOnly (theCustomer product customerRef at_) := by
  unfold theCustomer
  refine Keeps.get.bind fun b => ?_
  split
  · exact acquire_customersOnly _ _ _ _ _ _
  · exact reactivate_customersOnly _ _

/-- The payer is the customer of that reference, or a new one. -/
theorem theCustomer_id {product : Product} {customerRef : String} {at_ : Time} {c : Customer}
    (h : Returns (theCustomer product customerRef at_) b c b') :
    (∃ known, b.byExternalRef product.companyId customerRef = some known ∧ c.id = known.id) ∨
      (b.byExternalRef product.companyId customerRef = none ∧ c.id = b.nextId ∧
        b'.nextId = b.nextId + 1) := by
  simp only [theCustomer, returns_bind, returns_get] at h
  obtain ⟨_, _, ⟨rfl, rfl⟩, h⟩ := h
  split at h
  · next hnone =>
    simp only [acquire, returns_bind, returns_require, returns_get] at h
    obtain ⟨_, _, ⟨_, rfl⟩, _, _, ⟨rfl, rfl⟩, h⟩ := h
    rw [hnone] at h
    simp only [returns_bind, returns_uuid7, returns_modify, returns_emit, returns_pure] at h
    obtain ⟨i, _, ⟨rfl, rfl⟩, _, _, rfl, _, _, rfl, rfl, rfl⟩ := h
    exact .inr ⟨hnone, rfl, rfl⟩
  · next known hknown =>
    refine .inl ⟨known, hknown, ?_⟩
    unfold reactivate at h
    split at h
    · rw [(returns_pure.mp h).1]
    · simp only [returns_bind, returns_modify, returns_emit, returns_pure] at h
      obtain ⟨_, _, rfl, _, _, rfl, rfl, _⟩ := h
      rfl

theorem acquire_returns {externalRef : String} (company : Id) (kind : CustomerKind)
    (businessUnit product : Option Id) (at_ : Time) (h : isBlank externalRef = false) :
    ∃ c b', Returns (acquire company externalRef kind businessUnit product at_) b c b' := by
  cases hf : b.byExternalRef company externalRef with
  | some known =>
    refine ⟨known, b, ?_⟩
    simp only [acquire, returns_bind, returns_require, returns_get]
    refine ⟨(), b, ⟨h, rfl⟩, b, b, ⟨rfl, rfl⟩, ?_⟩
    rw [hf]
    exact returns_pure.mpr ⟨rfl, rfl⟩
  | none =>
    let made : Customer := ⟨b.nextId, company, businessUnit, externalRef, kind, at_, none⟩
    refine ⟨made, { b with
      nextId := b.nextId + 1
      customers := b.customers ++ [made]
      events := b.events ++ [.customerAcquired b.nextId externalRef kind businessUnit product] }, ?_⟩
    simp only [acquire, returns_bind, returns_require, returns_get]
    refine ⟨(), b, ⟨h, rfl⟩, b, b, ⟨rfl, rfl⟩, ?_⟩
    rw [hf]
    simp only [returns_bind, returns_uuid7, returns_modify, returns_emit, returns_pure]
    exact ⟨_, _, ⟨rfl, rfl⟩, (), _, rfl, (), _, rfl, rfl, rfl⟩

theorem reactivate_returns (customer : Customer) (at_ : Time) :
    ∃ c b', Returns (reactivate customer at_) b c b' := by
  unfold reactivate
  split
  · exact ⟨_, _, returns_pure.mpr ⟨rfl, rfl⟩⟩
  · simp only [returns_bind, returns_modify, returns_emit, returns_pure]
    exact ⟨_, _, (), _, rfl, (), _, rfl, rfl, rfl⟩

theorem theCustomer_returns {product : Product} {customerRef : String} (at_ : Time)
    (h : isBlank customerRef = false ∨
      (b.byExternalRef product.companyId customerRef).isSome = true) :
    ∃ c b', Returns (theCustomer product customerRef at_) b c b' := by
  cases hf : b.byExternalRef product.companyId customerRef with
  | none =>
    have hblank : isBlank customerRef = false := by simpa [hf] using h
    obtain ⟨c, b', hlook⟩ := acquire_returns product.companyId .subscriber
      (some product.businessUnitId) (some product.id) at_ hblank
    refine ⟨c, b', ?_⟩
    simp only [theCustomer, returns_bind, returns_get]
    refine ⟨b, b, ⟨rfl, rfl⟩, ?_⟩
    rw [hf]
    exact hlook
  | some known =>
    obtain ⟨c, b', hlook⟩ := reactivate_returns known at_
    refine ⟨c, b', ?_⟩
    simp only [theCustomer, returns_bind, returns_get]
    refine ⟨b, b, ⟨rfl, rfl⟩, ?_⟩
    rw [hf]
    exact hlook

/-! The membership. -/

/-- The row a purchase writes. -/
def grantedRow (old : Option Membership) (product : Product) (customer newId : Id)
    (paidAt until_ : Time) : Membership :=
  { membershipRow old product customer newId paidAt with
    expiresAt := until_
    state := .active }

theorem returns_grant {product : Product} {customer : Customer} {interval : PriceInterval}
    {paidAt : Time} {r : Membership × Time × Bool} :
    Returns (grant product customer interval paidAt) b r b' ↔
      ∃ until_, addInterval (stretchFrom
          ((b.membership? customer.id product.id).map Membership.expiresAt) paidAt).1 interval =
            .ok until_ ∧
        r = (grantedRow (b.membership? customer.id product.id) product customer.id b.nextId paidAt
            until_,
          stretchFrom ((b.membership? customer.id product.id).map Membership.expiresAt) paidAt) ∧
        b' = Books.putMembership { b with nextId := b.nextId + 1 }
          (b.membership? customer.id product.id)
          (grantedRow (b.membership? customer.id product.id) product customer.id b.nextId paidAt
            until_) := by
  simp only [grant, returns_bind, returns_get, returns_orFail, returns_uuid7, returns_modify,
    returns_pure]
  constructor
  · rintro ⟨_, _, ⟨rfl, rfl⟩, until_, _, ⟨hu, rfl⟩, _, _, ⟨rfl, rfl⟩, _, _, rfl, rfl, rfl⟩
    exact ⟨until_, hu, rfl, rfl⟩
  · rintro ⟨until_, hu, rfl, rfl⟩
    exact ⟨b, b, ⟨rfl, rfl⟩, until_, b, ⟨hu, rfl⟩, _, _, ⟨rfl, rfl⟩, (), _, rfl, rfl, rfl⟩

/-! The purchase. -/

/-- The books of a purchase before its row: the payer found and the membership granted. -/
structure Grants (b : Books) (a : PurchaseArgs) (product : Product) (customer : Customer)
    (m : Membership) (stretch : Time × Bool) (b' : Books) : Prop where
  active : a.price.state = .active
  sold : b.product? a.price.productId = some product
  granted : ∃ b₁, Returns (theCustomer product a.customerRef a.paidAt) b customer b₁ ∧
    Returns (grant product customer a.price.interval a.paidAt) b₁ (m, stretch) b'

/-- The books once the payment, its ledger row and its two events are there as well. -/
def Books.paidBy (b : Books) (a : PurchaseArgs) (product : Product) (customer : Customer)
    (m : Membership) (stretch : Time × Bool) (c : Converted) : Books :=
  let b₁ := ({ b with nextId := b.nextId + 1 } : Books)
  let revenue := a.revenue product customer.id b.nextId
  let payment := a.payment product customer m stretch.1 b.nextId (b.nextId + 1)
  { b₁.booked revenue c with
    payments := b.payments ++ [payment]
    events := (b₁.booked revenue c).events ++
      [.membershipGranted m.id customer.id product.businessUnitId product.id payment.id stretch.1
        m.expiresAt stretch.2] ++
      [.paymentReceived payment.id (b.nextId + 1) customer.id product.businessUnitId m.id
        a.provider a.amount a.currency] }

theorem returns_purchase_known {a : PurchaseArgs} {known : Payment} {r : Payment × Bool}
    (hk : b.byProviderRef a.provider a.externalRef = some known) :
    Returns (purchase a) b r b' ↔ r = (known, false) ∧ b' = b := by
  simp only [purchase, returns_bind, returns_get]
  constructor
  · rintro ⟨_, _, ⟨rfl, rfl⟩, h⟩
    rw [hk] at h
    exact returns_pure.mp h
  · rintro ⟨rfl, rfl⟩
    refine ⟨_, _, ⟨rfl, rfl⟩, ?_⟩
    rw [hk]
    exact returns_pure.mpr ⟨rfl, rfl⟩

theorem returns_purchase_new {a : PurchaseArgs} {r : Payment × Bool}
    (hk : b.byProviderRef a.provider a.externalRef = none) :
    Returns (purchase a) b r b' ↔ ∃ product customer m stretch b₁ c,
      Grants b a product customer m stretch b₁ ∧
      b₁.fx.toBase a.amount a.currency = .ok c ∧ 0 < c.amount ∧
      b₁.used (paymentKey a.provider a.externalRef) = false ∧
      r = (a.payment product customer m stretch.1 b₁.nextId (b₁.nextId + 1), true) ∧
      b' = b₁.paidBy a product customer m stretch c := by
  simp only [purchase, returns_bind, returns_get]
  constructor
  · rintro ⟨_, _, ⟨rfl, rfl⟩, h⟩
    rw [hk] at h
    simp only [returns_bind, returns_require, returns_orRaise, returns_uuid7, returns_record,
      returns_modify, returns_emit, returns_pure] at h
    obtain ⟨_, _, ⟨hactive, rfl⟩, product, _, ⟨hproduct, rfl⟩, customer, b₁, hcustomer,
      ⟨m, stretch⟩, b₂, hgrant, _, _, ⟨rfl, rfl⟩, t?, _, ⟨c, hc, hpos, ht⟩, t, _, ⟨htrans, rfl⟩,
      _, _, rfl, _, _, rfl, _, _, rfl, rfl, rfl⟩ := h
    rcases ht with ⟨_, rfl, _⟩ | ⟨hused, rfl, rfl⟩
    · cases htrans
    · cases htrans
      exact ⟨product, customer, m, stretch, b₂, c, ⟨hactive, hproduct, b₁, hcustomer, hgrant⟩, hc,
        hpos, hused, rfl, rfl⟩
  · rintro ⟨product, customer, m, stretch, b₂, c, ⟨hactive, hproduct, b₁, hcustomer, hgrant⟩, hc,
      hpos, hused, rfl, rfl⟩
    refine ⟨_, _, ⟨rfl, rfl⟩, ?_⟩
    rw [hk]
    simp only [returns_bind, returns_require, returns_orRaise, returns_uuid7, returns_record,
      returns_modify, returns_emit, returns_pure]
    exact ⟨(), _, ⟨hactive, rfl⟩, product, _, ⟨hproduct, rfl⟩, customer, b₁, hcustomer,
      (m, stretch), b₂, hgrant, _, _, ⟨rfl, rfl⟩, _, _,
      ⟨c, hc, hpos, .inr ⟨hused, rfl, rfl⟩⟩, _, _, ⟨rfl, rfl⟩, (), _, rfl, (), _, rfl, (), _, rfl,
      rfl, rfl⟩

/-! When a purchase goes through. -/

/-- Where the stretch of a purchase starts. -/
def Books.startsAt (b : Books) (product : Product) (a : PurchaseArgs) : Time :=
  (stretchFrom (((b.byExternalRef product.companyId a.customerRef).bind fun c =>
    b.membership? c.id product.id).map Membership.expiresAt) a.paidAt).1

/-- The product is on the books, the payer is somebody, the stretch ends within the
calendar, the money can be booked and its key is not taken. -/
structure Bookable (b : Books) (a : PurchaseArgs) : Prop where
  sold : ∃ product, b.product? a.price.productId = some product ∧
    (isBlank a.customerRef = false ∨
      (b.byExternalRef product.companyId a.customerRef).isSome = true) ∧
    ∃ until_, addInterval (b.startsAt product a) a.price.interval = .ok until_
  booked : ∃ c, b.fx.toBase a.amount a.currency = .ok c ∧ 0 < c.amount
  unused : b.used (paymentKey a.provider a.externalRef) = false

/-- No row refers to an id that is still to be given out. -/
structure Books.Fresh (b : Books) : Prop where
  customers : ∀ c ∈ b.customers, c.id < b.nextId
  members : ∀ m ∈ b.memberships, m.id < b.nextId ∧ m.customerId < b.nextId
  payments : ∀ p ∈ b.payments, p.id < b.nextId

theorem Books.Fresh.membership?_new (h : b.Fresh) (product : Id) :
    b.membership? b.nextId product = none := by
  refine List.find?_eq_none.mpr fun m hm => ?_
  have hlt := (h.members m hm).2
  simp only [Bool.and_eq_true, decide_eq_true_eq, not_and]
  intro he
  exact absurd he (Nat.ne_of_lt hlt)

/-- The membership a purchase finds is that of the customer of its reference. -/
theorem membership?_of_customer (hf : b.Fresh) {product : Product} {customerRef : String}
    {at_ : Time} {c : Customer} (h : Returns (theCustomer product customerRef at_) b c b') :
    b'.membership? c.id product.id = (b.byExternalRef product.companyId customerRef).bind
      fun c => b.membership? c.id product.id := by
  have hrest := (theCustomer_customersOnly product customerRef at_ b c b' h).rest
  have hsame : b'.membership? c.id product.id = b.membership? c.id product.id := by
    rw [hrest]
    rfl
  rw [hsame]
  rcases theCustomer_id h with ⟨known, hknown, hid⟩ | ⟨hnone, hid, _⟩
  · rw [hknown, hid]
    rfl
  · rw [hnone, hid, hf.membership?_new]
    rfl

theorem Grants.rest {a : PurchaseArgs} {product : Product} {customer : Customer} {m : Membership}
    {stretch : Time × Bool} (h : Grants b a product customer m stretch b') :
    b' = { b with
      customers := b'.customers
      events := b'.events
      nextId := b'.nextId
      memberships := b'.memberships } ∧ b.nextId ≤ b'.nextId := by
  obtain ⟨b₁, hcustomer, hgrant⟩ := h.granted
  have hc := theCustomer_customersOnly _ _ _ _ _ _ hcustomer
  obtain ⟨until_, _, _, rfl⟩ := returns_grant.mp hgrant
  have hrest := hc.rest
  have hle := hc.nextId
  cases b₁.membership? customer.id product.id
  · simp only [Books.putMembership]
    rw [hrest]
    exact ⟨rfl, Nat.le_succ_of_le hle⟩
  · simp only [Books.putMembership]
    rw [hrest]
    exact ⟨rfl, Nat.le_succ_of_le hle⟩

theorem purchase_bookable (hf : b.Fresh) {a : PurchaseArgs} {r : Payment × Bool}
    (hk : b.byProviderRef a.provider a.externalRef = none)
    (h : Returns (purchase a) b r b') : a.price.state = .active ∧ Bookable b a := by
  obtain ⟨product, customer, m, stretch, b₁, c, hgrants, hc, hpos, hused, _⟩ :=
    (returns_purchase_new hk).mp h
  obtain ⟨b₀, hcustomer, hgrant⟩ := hgrants.granted
  obtain ⟨until_, hu, _⟩ := returns_grant.mp hgrant
  rw [membership?_of_customer hf hcustomer] at hu
  have hrest := hgrants.rest.1
  rw [hrest] at hc hused
  refine ⟨hgrants.active, ⟨product, hgrants.sold, ?_, until_, hu⟩, ⟨c, hc, hpos⟩, hused⟩
  -- the payer was found, or made from a reference that says something
  simp only [theCustomer, returns_bind, returns_get] at hcustomer
  obtain ⟨_, _, ⟨rfl, rfl⟩, hcustomer⟩ := hcustomer
  split at hcustomer
  · simp only [acquire, returns_bind, returns_require] at hcustomer
    obtain ⟨_, _, ⟨hblank, _⟩, _⟩ := hcustomer
    exact .inl hblank
  · next known hknown =>
    right
    rw [hknown]
    rfl

theorem purchase_returns (hf : b.Fresh) {a : PurchaseArgs}
    (hk : b.byProviderRef a.provider a.externalRef = none) (hactive : a.price.state = .active)
    (h : Bookable b a) : ∃ p b', Returns (purchase a) b (p, true) b' := by
  obtain ⟨product, hproduct, hpayer, until_, hu⟩ := h.sold
  obtain ⟨c, hc, hpos⟩ := h.booked
  obtain ⟨customer, b₁, hcustomer⟩ := theCustomer_returns a.paidAt hpayer
  have hmember := membership?_of_customer hf hcustomer
  have hgrant : ∃ r b₂, Returns (grant product customer a.price.interval a.paidAt) b₁ r b₂ := by
    refine ⟨_, _, returns_grant.mpr ⟨until_, ?_, rfl, rfl⟩⟩
    rw [hmember]
    exact hu
  obtain ⟨⟨m, stretch⟩, b₂, hgrant⟩ := hgrant
  have hgrants : Grants b a product customer m stretch b₂ :=
    ⟨hactive, hproduct, b₁, hcustomer, hgrant⟩
  have hunused : b₂.used (paymentKey a.provider a.externalRef) = false := by
    rw [hgrants.rest.1]
    exact h.unused
  have hconv : b₂.fx.toBase a.amount a.currency = .ok c := by
    rw [hgrants.rest.1]
    exact hc
  exact ⟨_, _, (returns_purchase_new hk).mpr
    ⟨product, customer, m, stretch, b₂, c, hgrants, hconv, hpos, hunused, rfl, rfl⟩⟩

/-! What a purchase leaves. -/

/-- A new payment, its ledger row and its stretch. -/
structure Bought (b : Books) (a : PurchaseArgs) (p : Payment) (b' : Books) : Prop where
  payments : b'.payments = b.payments ++ [p]
  transactions : ∃ t, b'.transactions = b.transactions ++ [t] ∧ p.transactionId = t.id ∧
    t.idempotencyKey = paymentKey a.provider a.externalRef
  reference : p.provider = a.provider ∧ p.externalRef = a.externalRef ∧ p.paidAt = a.paidAt
  stretch : addInterval p.grantsFrom a.price.interval = .ok p.grantsUntil
  id : b.nextId ≤ p.id ∧ p.id < b'.nextId
  rest : b' = { b with
    customers := b'.customers
    events := b'.events
    nextId := b'.nextId
    memberships := b'.memberships
    payments := b'.payments
    transactions := b'.transactions }

theorem purchase_bought {a : PurchaseArgs} {r : Payment × Bool}
    (hk : b.byProviderRef a.provider a.externalRef = none)
    (h : Returns (purchase a) b r b') : r.2 = true ∧ Bought b a r.1 b' := by
  obtain ⟨product, customer, m, stretch, b₁, c, hgrants, hc, hpos, hused, rfl, rfl⟩ :=
    (returns_purchase_new hk).mp h
  obtain ⟨hrest, hle⟩ := hgrants.rest
  have hp : b₁.payments = b.payments := by rw [hrest]
  have ht : b₁.transactions = b.transactions := by rw [hrest]
  obtain ⟨_, _, hgrant⟩ := hgrants.granted
  obtain ⟨until_, hu, hr, _⟩ := returns_grant.mp hgrant
  have hm := congrArg Prod.fst hr
  have hs := congrArg Prod.snd hr
  simp only at hm hs
  let t := (a.revenue product customer.id b₁.nextId).row { b₁ with nextId := b₁.nextId + 1 } c
  refine ⟨rfl, ⟨?_, ⟨t, ?_, rfl, rfl⟩, ⟨rfl, rfl, rfl⟩, ?_, ⟨hle, ?_⟩, ?_⟩⟩
  · show b₁.payments ++ _ = _
    rw [hp]
  · show b₁.transactions ++ [t] = b.transactions ++ [t]
    rw [ht]
  · show addInterval stretch.1 _ = .ok m.expiresAt
    rw [hs, hm]
    exact hu
  · exact Nat.lt_succ_of_lt (Nat.lt_succ_self _)
  · rw [hrest]
    rfl

/-! The ids. -/

theorem setCustomer_fresh (hf : b.Fresh) (id : Id) {f : Customer → Customer}
    (h : ∀ c, (f c).id = c.id) : (b.setCustomer id f).Fresh := by
  refine ⟨fun c hc => ?_, hf.members, hf.payments⟩
  obtain ⟨c₀, hc₀, rfl⟩ := List.mem_map.mp hc
  have hlt := hf.customers c₀ hc₀
  split
  · rw [h]
    exact hlt
  · exact hlt

theorem theCustomer_fresh (hf : b.Fresh) {product : Product} {customerRef : String} {at_ : Time}
    {c : Customer} (h : Returns (theCustomer product customerRef at_) b c b') :
    b'.Fresh ∧ c.id < b'.nextId := by
  have hlater : ∀ {i : Id}, i < b.nextId → i < b.nextId + 1 := Nat.lt_succ_of_lt
  simp only [theCustomer, returns_bind, returns_get] at h
  obtain ⟨_, _, ⟨rfl, rfl⟩, h⟩ := h
  split at h
  · next hnone =>
    simp only [acquire, returns_bind, returns_require, returns_get] at h
    obtain ⟨_, _, ⟨_, rfl⟩, _, _, ⟨rfl, rfl⟩, h⟩ := h
    rw [hnone] at h
    simp only [returns_bind, returns_uuid7, returns_modify, returns_emit, returns_pure] at h
    obtain ⟨i, _, ⟨rfl, rfl⟩, _, _, rfl, _, _, rfl, rfl, rfl⟩ := h
    refine ⟨⟨fun c hc => ?_, fun m hm => ?_, fun p hp => hlater (hf.payments p hp)⟩,
      Nat.lt_succ_self _⟩
    · rcases List.mem_append.mp hc with hc | hc
      · exact hlater (hf.customers c hc)
      · rw [List.mem_singleton.mp hc]
        exact Nat.lt_succ_self _
    · exact ⟨hlater (hf.members m hm).1, hlater (hf.members m hm).2⟩
  · next known hknown =>
    have hlt := hf.customers known (List.mem_of_find?_eq_some hknown)
    unfold reactivate at h
    split at h
    · obtain ⟨rfl, rfl⟩ := returns_pure.mp h
      exact ⟨hf, hlt⟩
    · simp only [returns_bind, returns_modify, returns_emit, returns_pure] at h
      obtain ⟨_, _, rfl, _, _, rfl, rfl, rfl⟩ := h
      have hset := setCustomer_fresh hf known.id
        (f := fun c => { c with churnedAt := none }) fun _ => rfl
      exact ⟨⟨hset.customers, hset.members, hset.payments⟩, hlt⟩

/-- The membership a purchase writes, and the payment that says so. -/
structure Granted (b : Books) (a : PurchaseArgs) (p : Payment) (product : Product)
    (old : Option Membership) (newId : Id) (b' : Books) : Prop where
  sold : b.product? a.price.productId = some product
  found : old = b.membership? p.customerId product.id
  from_ : p.grantsFrom = (stretchFrom (old.map Membership.expiresAt) a.paidAt).1
  row : b'.memberships = (b.putMembership old
    (grantedRow old product p.customerId newId a.paidAt p.grantsUntil)).memberships
  holder : p.membershipId = (grantedRow old product p.customerId newId a.paidAt p.grantsUntil).id ∧
    p.companyId = product.companyId ∧ p.businessUnitId = product.businessUnitId
  newId : b.nextId ≤ newId
  fresh : b'.Fresh

theorem putMembership_mem {old : Option Membership} {m m' : Membership}
    (h : m' ∈ (b.putMembership old m).memberships) : m' = m ∨ m' ∈ b.memberships := by
  cases old with
  | none =>
    rcases List.mem_append.mp h with h | h
    · exact .inr h
    · exact .inl (List.mem_singleton.mp h)
  | some o =>
    obtain ⟨x, hx, rfl⟩ := List.mem_map.mp h
    split
    · exact .inl rfl
    · exact .inr hx

theorem purchase_granted (hf : b.Fresh) {a : PurchaseArgs} {p : Payment}
    (hk : b.byProviderRef a.provider a.externalRef = none)
    (h : Returns (purchase a) b (p, true) b') :
    ∃ product old newId, Granted b a p product old newId b' := by
  obtain ⟨product, customer, m, stretch, b₂, c, hgrants, _, _, _, hp, rfl⟩ :=
    (returns_purchase_new hk).mp h
  obtain ⟨b₁, hcustomer, hgrant⟩ := hgrants.granted
  obtain ⟨hfresh₁, hlt⟩ := theCustomer_fresh hf hcustomer
  have hcust := theCustomer_customersOnly _ _ _ _ _ _ hcustomer
  have hsame : b₁.membership? customer.id product.id = b.membership? customer.id product.id := by
    rw [hcust.rest]
    rfl
  obtain ⟨until_, hu, hr, hb₂⟩ := returns_grant.mp hgrant
  rw [hsame] at hu hr hb₂
  have hm := congrArg Prod.fst hr
  have hs := congrArg Prod.snd hr
  simp only at hm hs
  have hpay := congrArg Prod.fst hp
  simp only at hpay
  have hmembers : b₁.memberships = b.memberships := by rw [hcust.rest]
  have hput : b₂.memberships = (b.putMembership (b.membership? customer.id product.id)
      m).memberships := by
    rw [hb₂, hm]
    cases b.membership? customer.id product.id <;> simp [Books.putMembership, hmembers]
  have hnext : b₁.nextId < b₂.nextId ∧ b₂.customers = b₁.customers ∧ b₂.payments = b.payments := by
    refine ⟨?_, ?_, by rw [hgrants.rest.1]⟩ <;> rw [hb₂] <;>
      cases b.membership? customer.id product.id
    · exact Nat.lt_succ_self _
    · exact Nat.lt_succ_self _
    · rfl
    · rfl
  have hrowid : m.id < b₂.nextId ∧ m.customerId < b₂.nextId := by
    rw [hm]
    cases hold : b.membership? customer.id product.id with
    | none => exact ⟨hnext.1, Nat.lt_trans hlt hnext.1⟩
    | some o =>
      have hmem := hf.members o (List.mem_of_find?_eq_some hold)
      have hle : b.nextId ≤ b₂.nextId := hgrants.rest.2
      simp only [grantedRow, membershipRow]
      split
      · exact ⟨Nat.lt_of_lt_of_le hmem.1 hle, Nat.lt_of_lt_of_le hmem.2 hle⟩
      · exact ⟨Nat.lt_of_lt_of_le hmem.1 hle, Nat.lt_of_lt_of_le hmem.2 hle⟩
  refine ⟨product, b.membership? customer.id product.id, b₁.nextId, hgrants.sold, ?_, ?_, ?_, ?_,
    hcust.nextId, ?_⟩
  · rw [hpay]
    rfl
  · rw [hpay]
    exact congrArg Prod.fst hs
  · rw [hpay]
    show b₂.memberships = _
    rw [hput, hm]
    rfl
  · rw [hpay]
    refine ⟨?_, rfl, rfl⟩
    show m.id = _
    rw [hm]
    rfl
  · have hlater : ∀ {i : Id}, i < b₂.nextId → i < b₂.nextId + 1 + 1 :=
      fun hi => Nat.lt_succ_of_lt (Nat.lt_succ_of_lt hi)
    refine ⟨fun x hx => ?_, fun x hx => ?_, fun x hx => ?_⟩
    · have hx' : x ∈ b₁.customers := hnext.2.1 ▸ hx
      exact hlater (Nat.lt_trans (hfresh₁.customers x hx') hnext.1)
    · have hx' : x ∈ b₂.memberships := hx
      rw [hput] at hx'
      rcases putMembership_mem hx' with rfl | hx'
      · exact ⟨hlater hrowid.1, hlater hrowid.2⟩
      · have hmem := hf.members x hx'
        exact ⟨hlater (Nat.lt_of_lt_of_le hmem.1 hgrants.rest.2),
          hlater (Nat.lt_of_lt_of_le hmem.2 hgrants.rest.2)⟩
    · rcases List.mem_append.mp hx with hx | hx
      · rw [hnext.2.2] at hx
        exact hlater (Nat.lt_of_lt_of_le (hf.payments x hx) hgrants.rest.2)
      · rw [List.mem_singleton.mp hx]
        exact Nat.lt_succ_of_lt (Nat.lt_succ_self _)

end Autora.Company
