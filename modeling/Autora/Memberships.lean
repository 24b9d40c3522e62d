import Autora.Ledger

/-! Customers and memberships: what a payment buys, and what is written down
when it runs out. -/

namespace Autora.Company

open Transactions

/-! `customers`. -/

def isBlank (s : String) : Bool := s.toList.all Char.isWhitespace

/-- `by_external_ref`. -/
def Books.byExternalRef (b : Books) (company : Id) (externalRef : String) : Option Customer :=
  b.customers.find? fun c => c.companyId = company && c.externalRef = externalRef

def acquire (company : Id) (externalRef : String) (kind : CustomerKind)
    (businessUnit product : Option Id) (acquiredAt : Time) : Tx Customer := do
  require (isBlank externalRef = false)
    (.customer "a customer is the provider's reference; an empty one is nobody")
  let b ← get
  match b.byExternalRef company externalRef with
  | some existing => pure existing
  | none => do
    let id ← uuid7
    let customer : Customer := ⟨id, company, businessUnit, externalRef, kind, acquiredAt, none⟩
    modify fun b => { b with customers := b.customers ++ [customer] }
    emit (.customerAcquired id externalRef kind businessUnit product)
    pure customer

def Books.setCustomer (b : Books) (id : Id) (f : Customer → Customer) : Books :=
  { b with customers := b.customers.map fun c => if c.id = id then f c else c }

def daysBetween (from_ until_ : Time) : Nat := (until_ - from_) / dayMicros

def churn (customer : Customer) (reason : Option String) (churnedAt : Time) : Tx Unit :=
  match customer.churnedAt with
  | some _ => pure ()
  | none => do
    modify fun b => b.setCustomer customer.id fun c => { c with churnedAt := some churnedAt }
    emit (.customerChurned customer.id customer.externalRef customer.kind customer.businessUnitId
      reason (daysBetween customer.acquiredAt churnedAt))

def reactivate (customer : Customer) (returnedAt : Time) : Tx Customer :=
  match customer.churnedAt with
  | none => pure customer
  | some churnedAt => do
    modify fun b => b.setCustomer customer.id fun c => { c with churnedAt := none }
    emit (.customerReturned customer.id customer.externalRef customer.kind
      customer.businessUnitId (daysBetween churnedAt returnedAt))
    pure { customer with churnedAt := none }

/-! Buying. -/

def revenueCategory : String := "membership"

def paymentKey (provider externalRef : String) : LedgerKey := .payment provider externalRef

/-- `MEMBERSHIP_FSM`. -/
def membershipFsm : StateMachine MembershipState where
  entityType := "membership"
  value
    | .active => "ACTIVE"
    | .expired => "EXPIRED"
  transitions
    | .active => [.expired]
    | .expired => [.active]

def Books.byProviderRef (b : Books) (provider externalRef : String) : Option Payment :=
  b.payments.find? fun p => p.provider = provider && p.externalRef = externalRef

/-- `_customer`: whoever is paying, made a customer if they were not. -/
def theCustomer (product : Product) (customerRef : String) (at_ : Time) : Tx Customer := do
  let b ← get
  match b.byExternalRef product.companyId customerRef with
  | none =>
    acquire product.companyId customerRef .subscriber (some product.businessUnitId)
      (some product.id) at_
  | some customer => reactivate customer at_

def Books.membership? (b : Books) (customer product : Id) : Option Membership :=
  b.memberships.find? fun m => m.customerId = customer && m.productId = product

/-- Where a stretch paid for at `paidAt` starts, and whether it extends one, by the
expiry that was read. -/
def stretchFrom (expiresAt : Option Time) (paidAt : Time) : Time × Bool :=
  match expiresAt with
  | none => (paidAt, false)
  | some expiresAt => if paidAt < expiresAt then (expiresAt, true) else (paidAt, false)

/-- The row of `_membership`, before the caller sets its expiry. -/
def membershipRow (row : Option Membership) (product : Product) (customer newId : Id)
    (paidAt : Time) : Membership :=
  match row with
  | none => ⟨newId, product.companyId, product.businessUnitId, customer, product.id, .active,
      paidAt, paidAt⟩
  | some m => if paidAt < m.expiresAt then m else { m with startedAt := paidAt }

def Books.putMembership (b : Books) (old : Option Membership) (m : Membership) : Books :=
  match old with
  | none => { b with memberships := b.memberships ++ [m] }
  | some _ =>
    { b with memberships := b.memberships.map fun m' => if m'.id = m.id then m else m' }

structure PurchaseArgs where
  price : Price
  customerRef : String
  provider : String
  externalRef : String
  amount : Money
  currency : String
  paidAt : Time

/-- What `purchase` posts to the ledger. -/
def PurchaseArgs.revenue (a : PurchaseArgs) (product : Product) (customer payment : Id) :
    RecordArgs where
  companyId := product.companyId
  kind := .revenue
  category := revenueCategory
  amount := a.amount
  currency := some a.currency
  idempotencyKey := paymentKey a.provider a.externalRef
  businessUnitId := some product.businessUnitId
  productId := some product.id
  customerId := some customer
  occurredAt := some a.paidAt
  source := .integration
  refType := some "payment"
  refId := some payment

def PurchaseArgs.payment (a : PurchaseArgs) (product : Product) (customer : Customer)
    (membership : Membership) (grantsFrom : Time) (id transaction : Id) : Payment where
  id := id
  companyId := product.companyId
  businessUnitId := product.businessUnitId
  customerId := customer.id
  priceId := a.price.id
  membershipId := membership.id
  grantsFrom := grantsFrom
  grantsUntil := membership.expiresAt
  transactionId := transaction
  provider := a.provider
  externalRef := a.externalRef
  amount := a.amount
  currency := a.currency
  paidAt := a.paidAt

/-- The membership of a purchase, its row written: where its stretch starts and whether
it extends one. -/
def grant (product : Product) (customer : Customer) (interval : PriceInterval) (paidAt : Time) :
    Tx (Membership × Time × Bool) := do
  let b ← get
  let old := b.membership? customer.id product.id
  let stretch := stretchFrom (old.map Membership.expiresAt) paidAt
  let until_ ← orFail id (addInterval stretch.1 interval)
  let newId ← uuid7
  let m : Membership := { membershipRow old product customer.id newId paidAt with
    expiresAt := until_
    state := .active }
  modify fun b => b.putMembership old m
  pure (m, stretch)

/-- Money arrived: record it, book it, and grant what it bought. -/
def purchase (a : PurchaseArgs) : Tx (Payment × Bool) := do
  let b ← get
  match b.byProviderRef a.provider a.externalRef with
  | some existing => pure (existing, false)
  | none => do
    require (a.price.state = .active)
      (.membership "this price is retired; nothing new can be bought at it")
    let product ← orRaise (.missing "products") (b.product? a.price.productId)
    let customer ← theCustomer product a.customerRef a.paidAt
    let (m, grantsFrom, extended) ← grant product customer a.price.interval a.paidAt
    let paymentId ← uuid7
    let transaction? ← record (a.revenue product customer.id paymentId)
    let transaction ← orRaise (.membership ("the ledger already has 'payment:" ++ a.provider ++
      ":" ++ a.externalRef ++ "' but no payment points at it; refusing to guess which is right"))
      transaction?
    let payment := a.payment product customer m grantsFrom paymentId transaction.id
    modify fun b => { b with payments := b.payments ++ [payment] }
    emit (.membershipGranted m.id customer.id product.businessUnitId product.id payment.id
      grantsFrom m.expiresAt extended)
    emit (.paymentReceived payment.id transaction.id customer.id product.businessUnitId m.id
      a.provider a.amount a.currency)
    pure (payment, true)

/-! Lapsing. -/

/-- `_has_access`. -/
def Books.hasAccess (b : Books) (customer : Id) (at_ : Time) : Bool :=
  b.memberships.any fun m => m.customerId = customer && at_ < m.expiresAt

/-- The rows of `expire_due`, soonest first; `locked` ones are skipped. -/
def Books.due (b : Books) (company : Id) (now : Time) (locked : List Id) : List Membership :=
  (b.memberships.filter fun m =>
    m.companyId = company && m.state = .active && m.expiresAt ≤ now && m.id ∉ locked).mergeSort
      fun m m' => m.expiresAt ≤ m'.expiresAt

def expireOne (now : Time) (m : Membership) : Tx Unit := do
  modify fun b => { b with memberships := b.memberships.map fun m' =>
    if m'.id = m.id then { m' with state := .expired } else m' }
  emit (.membershipExpired m.id m.customerId m.businessUnitId m.productId m.expiresAt)
  let b ← get
  if b.hasAccess m.customerId now then pure ()
  else do
    let customer ← orRaise (.missing "customers") (b.customer? m.customerId)
    churn customer (some "membership expired") m.expiresAt

def expireDue (company : Id) (now : Time) (locked : List Id) : Tx Unit := do
  let b ← get
  forEach (expireOne now) (b.due company now locked)

end Autora.Company
