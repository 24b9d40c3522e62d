import Autora.Lib.Systems
import Autora.Purchases
import Autora.Revenue

/-! Memberships against payments, over every sequence of purchases and expiries:
the rows and the stretches tell the same story. -/

namespace Autora.Company

open Transactions Systems

variable {b b' : Books}

/-! The shop as a system. -/

/-- What happens in the shop: somebody pays, or the day's expiries are written down. -/
inductive Trade where
  | purchase (a : PurchaseArgs)
  | expireDue (company : Id) (now : Time) (locked : List Id)

def Trade.exec : Trade → Tx Unit
  | .purchase a => do
    let _ ← Company.purchase a
    pure ()
  | .expireDue company now locked => Company.expireDue company now locked

/-- Products on sale, and nothing sold yet. -/
def Books.Unsold (b : Books) : Prop :=
  b.customers = [] ∧ b.memberships = [] ∧ b.payments = []

def trading : System Books Trade where
  init := Books.Unsold
  step b t b' := b' = b.commit t.exec

/-- Payments arrive in the order they were made. -/
def inOrder : Books → Trade → Prop
  | b, .purchase a => ∀ p ∈ b.payments, p.paidAt ≤ a.paidAt
  | _, .expireDue .. => True

/-! What holds in every state. -/

/-- The payment is for the membership: the holder, the company and the business agree. -/
structure Payment.Of (p : Payment) (m : Membership) : Prop where
  membership : p.membershipId = m.id
  customer : p.customerId = m.customerId
  company : p.companyId = m.companyId
  unit : p.businessUnitId = m.businessUnitId

/-- Two payments for one membership. -/
structure Payment.Alike (q p : Payment) : Prop where
  membership : q.membershipId = p.membershipId
  customer : q.customerId = p.customerId
  company : q.companyId = p.companyId
  unit : q.businessUnitId = p.businessUnitId

theorem Payment.Of.alike {p q : Payment} {m : Membership} (hq : q.Of m) (hp : p.Of m) : q.Alike p :=
  ⟨hq.membership.trans hp.membership.symm, hq.customer.trans hp.customer.symm,
    hq.company.trans hp.company.symm, hq.unit.trans hp.unit.symm⟩

theorem Payment.Alike.trans {p q r : Payment} (h : r.Alike q) (h' : q.Alike p) : r.Alike p :=
  ⟨h.membership.trans h'.membership, h.customer.trans h'.customer, h.company.trans h'.company,
    h.unit.trans h'.unit⟩

structure Holdings (b : Books) : Prop where
  fresh : b.Fresh
  ids : (b.payments.map Payment.id).Nodup
  rows : (b.memberships.map Membership.id).Nodup
  sold : ∀ m ∈ b.memberships, ∀ product, b.product? m.productId = some product →
    m.companyId = product.companyId ∧ m.businessUnitId = product.businessUnitId
  latest : ∀ m ∈ b.memberships, ∃ p ∈ b.payments, p.Of m ∧ p.grantsUntil = m.expiresAt
  held : ∀ p ∈ b.payments, ∃ m ∈ b.memberships, p.Of m ∧ p.grantsUntil ≤ m.expiresAt
  -- from its payment on, a stretch is covered by what was paid for by then
  covered : ∀ p ∈ b.payments, ∀ x, p.paidAt ≤ x → x < p.grantsUntil →
    ∃ q ∈ b.payments, q.Alike p ∧ q.paidAt ≤ p.paidAt ∧ q.grantsFrom ≤ x ∧ x < q.grantsUntil

theorem Holdings.unsold (h : b.Unsold) : Holdings b := by
  obtain ⟨hc, hm, hp⟩ := h
  refine ⟨⟨?_, ?_, ?_⟩, ?_, ?_, ?_, ?_, ?_, ?_⟩ <;> simp [hc, hm, hp]

/-! Expiries change only the states. -/

/-- The membership without its state. -/
def Membership.stateless (m : Membership) : Membership := { m with state := .active }

/-- The same payments and products, and the same memberships but for their states. -/
structure SameHoldings (b b' : Books) : Prop where
  payments : b'.payments = b.payments
  products : b'.products = b.products
  members : b'.memberships.map Membership.stateless = b.memberships.map Membership.stateless
  customers : b'.customers.map Customer.id = b.customers.map Customer.id
  nextId : b'.nextId = b.nextId

instance : IsPreorder Books SameHoldings where
  refl _ := ⟨rfl, rfl, rfl, rfl, rfl⟩
  trans _ _ _ h h' := ⟨h'.payments.trans h.payments, h'.products.trans h.products,
    h'.members.trans h.members, h'.customers.trans h.customers, h'.nextId.trans h.nextId⟩

theorem SameHoldings.member (h : SameHoldings b b') {m : Membership} (hm : m ∈ b'.memberships) :
    ∃ m₀ ∈ b.memberships, m₀.stateless = m.stateless := by
  have hmem : m.stateless ∈ b'.memberships.map Membership.stateless := List.mem_map_of_mem hm
  rw [h.members] at hmem
  exact List.mem_map.mp hmem

theorem SameHoldings.symm (h : SameHoldings b b') : SameHoldings b' b :=
  ⟨h.payments.symm, h.products.symm, h.members.symm, h.customers.symm, h.nextId.symm⟩

theorem Membership.eq_of_stateless {m m₀ : Membership} (h : m₀.stateless = m.stateless) :
    m₀.id = m.id ∧ m₀.companyId = m.companyId ∧ m₀.businessUnitId = m.businessUnitId ∧
      m₀.customerId = m.customerId ∧ m₀.productId = m.productId ∧ m₀.expiresAt = m.expiresAt := by
  simp only [Membership.stateless, Membership.mk.injEq] at h
  exact ⟨h.1, h.2.1, h.2.2.1, h.2.2.2.1, h.2.2.2.2.1, h.2.2.2.2.2.2.2⟩

theorem SameHoldings.holdings (h : SameHoldings b b') (hb : Holdings b) : Holdings b' := by
  refine ⟨⟨fun c hc => ?_, fun m hm => ?_, fun p hp => ?_⟩, ?_, ?_,
    fun m hm product hproduct => ?_, fun m hm => ?_, fun p hp => ?_, ?_⟩
  · have hid : c.id ∈ b'.customers.map Customer.id := List.mem_map_of_mem hc
    rw [h.customers] at hid
    obtain ⟨c₀, hc₀, he⟩ := List.mem_map.mp hid
    rw [← he, h.nextId]
    exact hb.fresh.customers c₀ hc₀
  · obtain ⟨m₀, hm₀, he⟩ := h.member hm
    obtain ⟨hid, _, _, hcust, _⟩ := Membership.eq_of_stateless he
    rw [← hid, ← hcust, h.nextId]
    exact hb.fresh.members m₀ hm₀
  · rw [h.payments] at hp
    rw [h.nextId]
    exact hb.fresh.payments p hp
  · rw [h.payments]
    exact hb.ids
  · have hid : b'.memberships.map Membership.id = b.memberships.map Membership.id := by
      have hmap := congrArg (List.map Membership.id) h.members
      rw [List.map_map, List.map_map] at hmap
      exact hmap
    rw [hid]
    exact hb.rows
  · obtain ⟨m₀, hm₀, he⟩ := h.member hm
    obtain ⟨_, hco, hu, _, hprod, _⟩ := Membership.eq_of_stateless he
    rw [← hco, ← hu]
    refine hb.sold m₀ hm₀ product ?_
    rw [hprod, ← hproduct, Books.product?, Books.product?, h.products]
  · obtain ⟨m₀, hm₀, he⟩ := h.member hm
    obtain ⟨hid, hco, hu, hcust, _, hexp⟩ := Membership.eq_of_stateless he
    obtain ⟨p, hp, hof, huntil⟩ := hb.latest m₀ hm₀
    rw [h.payments]
    exact ⟨p, hp, ⟨hof.membership.trans hid, hof.customer.trans hcust, hof.company.trans hco,
      hof.unit.trans hu⟩, huntil.trans hexp⟩
  · rw [h.payments] at hp
    obtain ⟨m₀, hm₀, hof, hle⟩ := hb.held p hp
    obtain ⟨m, hm, he⟩ := h.symm.member hm₀
    obtain ⟨hid, hco, hu, hcust, _, hexp⟩ := Membership.eq_of_stateless he
    exact ⟨m, hm, ⟨hof.membership.trans hid.symm, hof.customer.trans hcust.symm,
      hof.company.trans hco.symm, hof.unit.trans hu.symm⟩, hexp ▸ hle⟩
  · rw [h.payments]
    exact hb.covered

theorem churn_sameHoldings (customer : Customer) (reason : Option String) (at_ : Time) :
    Keeps SameHoldings (churn customer reason at_) := by
  unfold churn
  split
  · exact Keeps.pure _
  · refine Keeps.bind ?_ fun _ => ?_
    · refine Keeps.modify fun b => ⟨rfl, rfl, rfl, ?_, rfl⟩
      simp only [Books.setCustomer, List.map_map]
      refine List.map_congr_left fun c _ => ?_
      simp only [Function.comp]
      split <;> rfl
    · exact Keeps.modify fun b => ⟨rfl, rfl, rfl, rfl, rfl⟩

theorem expireOne_sameHoldings (now : Time) (m : Membership) :
    Keeps SameHoldings (expireOne now m) := by
  unfold expireOne
  refine Keeps.bind ?_ fun _ => Keeps.bind ?_ fun _ => Keeps.get.bind fun b => ?_
  · refine Keeps.modify fun b => ⟨rfl, rfl, ?_, rfl, rfl⟩
    rw [List.map_map]
    refine List.map_congr_left fun m' _ => ?_
    simp only [Function.comp]
    split <;> rfl
  · exact Keeps.modify fun b => ⟨rfl, rfl, rfl, rfl, rfl⟩
  · split
    · exact Keeps.pure _
    · exact Keeps.orRaise.bind fun c => churn_sameHoldings _ _ _

theorem expireDue_sameHoldings (company : Id) (now : Time) (locked : List Id) :
    Keeps SameHoldings (expireDue company now locked) :=
  Keeps.get.bind fun _ => Keeps.forEach _ fun m _ => expireOne_sameHoldings now m

/-! A purchase extends the story. -/

theorem product?_id {product : Product} {i : Id} (h : b.product? i = some product) :
    product.id = i := by
  simpa using List.find?_some h

/-- The holder, the company and the business of the row a purchase writes. -/
theorem Granted.of {a : PurchaseArgs} {p : Payment} {product : Product} {old : Option Membership}
    {newId : Id} (hb : Holdings b) (h : Granted b a p product old newId b') :
    p.Of (grantedRow old product p.customerId newId a.paidAt p.grantsUntil) := by
  obtain ⟨hid, hco, hu⟩ := h.holder
  cases hold : old with
  | none =>
    rw [hold] at hid
    exact ⟨hid, rfl, hco, hu⟩
  | some o =>
    have hfound := h.found
    rw [hold] at hid hfound
    have hmem := List.mem_of_find?_eq_some hfound.symm
    have hkey := List.find?_some hfound.symm
    simp only [Bool.and_eq_true, decide_eq_true_eq] at hkey
    have hproduct : b.product? o.productId = some product := by
      rw [hkey.2, product?_id h.sold]
      exact h.sold
    obtain ⟨hoc, hou⟩ := hb.sold o hmem product hproduct
    have hrow : (grantedRow (some o) product p.customerId newId a.paidAt p.grantsUntil).customerId =
        o.customerId ∧
        (grantedRow (some o) product p.customerId newId a.paidAt p.grantsUntil).companyId =
          o.companyId ∧
        (grantedRow (some o) product p.customerId newId a.paidAt p.grantsUntil).businessUnitId =
          o.businessUnitId := by
      simp only [grantedRow, membershipRow]
      split <;> exact ⟨rfl, rfl, rfl⟩
    exact ⟨hid, hkey.1.symm.trans hrow.1.symm, (hco.trans hoc.symm).trans hrow.2.1.symm,
      (hu.trans hou.symm).trans hrow.2.2.symm⟩

theorem grantedRow_id {old : Option Membership} {product : Product} {customer newId : Id}
    {paidAt until_ : Time} {o : Membership} (h : old = some o) :
    (grantedRow old product customer newId paidAt until_).id = o.id ∧
      (grantedRow old product customer newId paidAt until_).productId = o.productId := by
  rw [h]
  simp only [grantedRow, membershipRow]
  split <;> exact ⟨rfl, rfl⟩

theorem Granted.productId {a : PurchaseArgs} {p : Payment} {product : Product}
    {old : Option Membership} {newId : Id} (h : Granted b a p product old newId b') :
    (grantedRow old product p.customerId newId a.paidAt p.grantsUntil).productId = product.id := by
  cases hold : old with
  | none => rfl
  | some o =>
    have hfound := h.found
    rw [hold] at hfound
    have hkey := List.find?_some hfound.symm
    simp only [Bool.and_eq_true, decide_eq_true_eq] at hkey
    rw [(grantedRow_id rfl).2]
    exact hkey.2

theorem le_stretchFrom (expiresAt : Option Time) (paidAt : Time) :
    (∀ e, expiresAt = some e → e ≤ (stretchFrom expiresAt paidAt).1) ∧
      (paidAt < (stretchFrom expiresAt paidAt).1 →
        expiresAt = some (stretchFrom expiresAt paidAt).1) := by
  cases expiresAt with
  | none =>
    refine ⟨by simp, fun h => ?_⟩
    exact absurd h (Nat.lt_irrefl _)
  | some e =>
    simp only [stretchFrom]
    split
    · exact ⟨by simp, fun _ => rfl⟩
    · next hno =>
      refine ⟨fun e' he => ?_, fun h => absurd h (Nat.lt_irrefl _)⟩
      cases he
      exact Nat.le_of_not_lt hno

theorem nodup_append_fresh {ids : List Id} {i n : Id} (h : ids.Nodup) (hlt : ∀ j ∈ ids, j < n)
    (hi : n ≤ i) : (ids ++ [i]).Nodup := by
  rw [List.nodup_append]
  refine ⟨h, by simp, fun j hj k hk => ?_⟩
  rw [List.mem_singleton.mp hk]
  exact Nat.ne_of_lt (Nat.lt_of_lt_of_le (hlt j hj) hi)

theorem putMembership_ids {old : Option Membership} {m : Membership}
    (hold : ∀ o, old = some o → m.id = o.id) : (b.putMembership old m).memberships.map Membership.id =
      b.memberships.map Membership.id ++ (if old.isNone then [m.id] else []) := by
  cases old with
  | none => simp [Books.putMembership]
  | some o =>
    simp only [Books.putMembership, List.map_map, Option.isNone_some, Bool.false_eq_true, if_false,
      List.append_nil]
    refine List.map_congr_left fun x _ => ?_
    simp only [Function.comp]
    split
    · next h => exact h.symm
    · rfl

theorem mem_putMembership {old : Option Membership} {m : Membership} :
    (∀ o, old = some o → o ∈ b.memberships ∧ m.id = o.id) →
      m ∈ (b.putMembership old m).memberships := by
  intro hold
  cases old with
  | none => simp [Books.putMembership]
  | some o =>
    obtain ⟨ho, hid⟩ := hold o rfl
    refine List.mem_map.mpr ⟨o, ho, ?_⟩
    rw [if_pos hid.symm]

theorem mem_putMembership_of_ne {old : Option Membership} {m x : Membership}
    (hx : x ∈ b.memberships) (hne : old = none ∨ x.id ≠ m.id) :
    x ∈ (b.putMembership old m).memberships := by
  cases old with
  | none => exact List.mem_append_left _ hx
  | some o =>
    have hne' : x.id ≠ m.id := by simpa using hne
    refine List.mem_map.mpr ⟨x, hx, ?_⟩
    rw [if_neg hne']

/-- A new stretch is covered from its payment on: until it starts by the one it extends. -/
theorem Granted.covered {a : PurchaseArgs} {p : Payment} {product : Product}
    {old : Option Membership} {newId : Id} (hb : Holdings b)
    (h : Granted b a p product old newId b') (hpaid : p.paidAt = a.paidAt)
    (horder : ∀ q ∈ b.payments, q.paidAt ≤ a.paidAt) (hpay : b'.payments = b.payments ++ [p])
    (x : Time) (hx : p.paidAt ≤ x) (hlt : x < p.grantsUntil) :
    ∃ q ∈ b'.payments, q.Alike p ∧ q.paidAt ≤ p.paidAt ∧ q.grantsFrom ≤ x ∧ x < q.grantsUntil := by
  rw [hpay]
  by_cases hfrom : p.grantsFrom ≤ x
  · exact ⟨p, by simp, ⟨rfl, rfl, rfl, rfl⟩, Nat.le_refl _, hfrom, hlt⟩
  · have hext := (le_stretchFrom (old.map Membership.expiresAt) a.paidAt).2 (by
      rw [← h.from_, ← hpaid]
      exact Nat.lt_of_le_of_lt hx (Nat.lt_of_not_le hfrom))
    rw [← h.from_] at hext
    obtain ⟨o, rfl, hexp⟩ := Option.map_eq_some_iff.mp hext
    have ho := List.mem_of_find?_eq_some h.found.symm
    obtain ⟨q₀, hq₀, hof, huntil⟩ := hb.latest o ho
    have hq₀paid : q₀.paidAt ≤ a.paidAt := horder q₀ hq₀
    have hx₀ : x < q₀.grantsUntil := by
      rw [huntil, hexp]
      exact Nat.lt_of_not_le hfrom
    obtain ⟨q, hq, halike, hle, hcov⟩ := hb.covered q₀ hq₀ x
      (Nat.le_trans hq₀paid (hpaid ▸ hx)) hx₀
    have hrow : q₀.Alike p := by
      have hpof := h.of hb
      refine Payment.Of.alike (m := grantedRow (some o) product p.customerId newId a.paidAt
        p.grantsUntil) ?_ hpof
      simp only [grantedRow, membershipRow]
      split
      · exact ⟨hof.membership, hof.customer, hof.company, hof.unit⟩
      · exact ⟨hof.membership, hof.customer, hof.company, hof.unit⟩
    exact ⟨q, List.mem_append_left _ hq, halike.trans hrow,
      Nat.le_trans hle (hpaid ▸ hq₀paid), hcov⟩

theorem purchase_holdings {a : PurchaseArgs} {r : Payment × Bool} (hb : Holdings b)
    (horder : ∀ q ∈ b.payments, q.paidAt ≤ a.paidAt) (h : Returns (purchase a) b r b') :
    Holdings b' := by
  cases hk : b.byProviderRef a.provider a.externalRef with
  | some known =>
    rw [((returns_purchase_known hk).mp h).2]
    exact hb
  | none =>
  obtain ⟨p, created⟩ := r
  obtain ⟨rfl, hbought⟩ := purchase_bought hk h
  obtain ⟨product, old, newId, hg⟩ := purchase_granted hb.fresh hk h
  have hof := hg.of hb
  have hproduct := hg.productId
  have hlt : p.grantsFrom < p.grantsUntil := lt_addInterval hbought.stretch
  have hpaid : p.paidAt = a.paidAt := hbought.reference.2.2
  have hpay := hbought.payments
  have hprod : b'.products = b.products := by rw [hbought.rest]
  generalize hm : grantedRow old product p.customerId newId a.paidAt p.grantsUntil = m at *
  have hrow := hg.row
  rw [hm] at hrow
  have hexp : m.expiresAt = p.grantsUntil := by rw [← hm]; rfl
  have hold : ∀ o, old = some o → o ∈ b.memberships ∧ m.id = o.id := by
    intro o ho
    have hfound := hg.found
    rw [ho] at hfound
    refine ⟨List.mem_of_find?_eq_some hfound.symm, ?_⟩
    rw [← hm]
    exact (grantedRow_id ho).1
  refine ⟨hg.fresh, ?_, ?_, ?_, ?_, ?_, ?_⟩
  · rw [hpay, List.map_append]
    refine nodup_append_fresh hb.ids (fun i hi => ?_) hbought.id.1
    obtain ⟨q, hq, rfl⟩ := List.mem_map.mp hi
    exact hb.fresh.payments q hq
  · rw [hrow, putMembership_ids fun o ho => (hold o ho).2]
    cases ho : old with
    | some o => simpa using hb.rows
    | none =>
      have hid : m.id = newId := by rw [← hm, ho]; rfl
      rw [hid]
      refine nodup_append_fresh hb.rows (fun i hi => ?_) hg.newId
      obtain ⟨x, hx, rfl⟩ := List.mem_map.mp hi
      exact (hb.fresh.members x hx).1
  · intro x hx product' hproduct'
    rw [Books.product?, hprod, ← Books.product?] at hproduct'
    rw [hrow] at hx
    rcases putMembership_mem hx with rfl | hx
    · rw [hproduct, product?_id hg.sold, hg.sold, Option.some.injEq] at hproduct'
      rw [← hproduct', ← hof.company, ← hof.unit]
      exact hg.holder.2
    · exact hb.sold x hx product' hproduct'
  · intro x hx
    rw [hrow] at hx
    rw [hpay]
    rcases putMembership_mem hx with rfl | hx
    · exact ⟨p, by simp, hof, hexp.symm⟩
    · obtain ⟨q, hq, hqof, hquntil⟩ := hb.latest x hx
      exact ⟨q, List.mem_append_left _ hq, hqof, hquntil⟩
  · intro q hq
    rw [hpay] at hq
    rw [hrow]
    rcases List.mem_append.mp hq with hq | hq
    · obtain ⟨x, hx, hqof, hle⟩ := hb.held q hq
      by_cases hne : old = none ∨ x.id ≠ m.id
      · exact ⟨x, mem_putMembership_of_ne hx hne, hqof, hle⟩
      · rw [not_or, not_not] at hne
        obtain ⟨o, ho⟩ := Option.ne_none_iff_exists'.mp hne.1
        obtain ⟨homem, hoid⟩ := hold o ho
        have hxo : x = o :=
          List.inj_on_of_nodup_map hb.rows hx homem (hne.2.trans hoid)
        refine ⟨m, mem_putMembership hold, ?_, ?_⟩
        · rw [← hm, ho]
          simp only [grantedRow, membershipRow]
          rw [← hxo]
          split
          · exact ⟨hqof.membership, hqof.customer, hqof.company, hqof.unit⟩
          · exact ⟨hqof.membership, hqof.customer, hqof.company, hqof.unit⟩
        · have hstart : o.expiresAt ≤ p.grantsFrom := by
            rw [hg.from_, ho]
            exact (le_stretchFrom _ _).1 _ rfl
          rw [hexp]
          rw [hxo] at hle
          exact Nat.le_trans hle (Nat.le_trans hstart (Nat.le_of_lt hlt))
    · rw [List.mem_singleton.mp hq]
      exact ⟨m, mem_putMembership hold, hof, Nat.le_of_eq hexp.symm⟩
  · intro q hq x hx hxlt
    have hq' := hq
    rw [hpay] at hq'
    rcases List.mem_append.mp hq' with hq' | hq'
    · obtain ⟨q', hq'mem, hcov⟩ := hb.covered q hq' x hx hxlt
      exact ⟨q', by rw [hpay]; exact List.mem_append_left _ hq'mem, hcov⟩
    · rw [List.mem_singleton.mp hq'] at hx hxlt ⊢
      exact hg.covered hb hpaid horder hpay x hx hxlt

/-! Every reachable state of the shop. -/

theorem commit_holdings {t : Trade} (hb : Holdings b) (hok : inOrder b t) :
    Holdings (b.commit t.exec) := by
  unfold Books.commit
  split
  · next _ b' h =>
    cases t with
    | purchase a =>
      obtain ⟨_, r, hp⟩ := returns_discard.mp (show Returns _ b _ b' from h)
      exact purchase_holdings hb hok hp
    | expireDue company now locked =>
      exact (expireDue_sameHoldings company now locked _ _ _ h).holdings hb
  · exact hb

theorem reach_holdings (h : trading.Reach inOrder b) : Holdings b := by
  refine System.Reach.invariant (fun _ => Holdings.unsold) (fun s t s' hs hok hstep => ?_) h
  rw [hstep]
  exact commit_holdings hs hok

end Autora.Company
