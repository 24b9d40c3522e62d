import Mathlib.Data.Rat.Defs
import Autora.Lib.Calendars
import Autora.Lib.Transactions
import Autora.Events

/-! The tables of the company's money: customers and what they may buy, orders,
payments and memberships, the ledger, and the meter it is settled from. -/

namespace Autora.Company

open Transactions Calendars

/-- `NUMERIC(18, 6)`, in millionths. -/
abbrev Money := Int

/-- Round to a whole number, a half to the even one. -/
def halfEven (q : Rat) : Int :=
  let whole := q.floor
  if q - whole < 1 / 2 then whole
  else if q - whole = 1 / 2 then (if whole % 2 = 0 then whole else whole + 1)
  else whole + 1

/-- `Decimal.quantize(MONEY)`. -/
def quantize (amount : Rat) : Money := halfEven (amount * 1000000)

/-- `str` of a quantized amount. -/
def Money.text (amount : Money) : String :=
  (if amount < 0 then "-" else "") ++ toString (amount.natAbs / 1000000) ++ "." ++
    digits 6 (amount.natAbs % 1000000)

inductive CustomerKind where
  | subscriber | sponsor | client
  deriving DecidableEq, Repr

structure Customer where
  id : Id
  companyId : Id
  businessUnitId : Option Id
  externalRef : String
  kind : CustomerKind
  acquiredAt : Time
  churnedAt : Option Time
  deriving DecidableEq, Repr

inductive ProductState where
  | active | retired
  deriving DecidableEq, Repr

structure Product where
  id : Id
  companyId : Id
  businessUnitId : Id
  key : String
  state : ProductState
  deriving DecidableEq, Repr

inductive PriceInterval where
  | month | year
  deriving DecidableEq, Repr

inductive PriceState where
  | active | retired
  deriving DecidableEq, Repr

structure Price where
  id : Id
  companyId : Id
  productId : Id
  amount : Money
  currency : String
  interval : PriceInterval
  state : PriceState
  deriving DecidableEq, Repr

inductive MembershipState where
  | active | expired
  deriving DecidableEq, Repr

structure Membership where
  id : Id
  companyId : Id
  businessUnitId : Id
  customerId : Id
  productId : Id
  state : MembershipState
  startedAt : Time
  expiresAt : Time
  deriving DecidableEq, Repr

structure Payment where
  id : Id
  companyId : Id
  businessUnitId : Id
  customerId : Id
  priceId : Id
  membershipId : Id
  grantsFrom : Time
  grantsUntil : Time
  transactionId : Id
  provider : String
  externalRef : String
  amount : Money
  currency : String
  paidAt : Time
  deriving DecidableEq, Repr

inductive OrderState where
  | pending | paid | failed | expired
  deriving DecidableEq, Repr

structure Order where
  id : Id
  companyId : Id
  priceId : Id
  customerRef : String
  amount : Money
  currency : String
  provider : String
  merTradeNo : String
  state : OrderState
  paymentId : Option Id
  deriving DecidableEq, Repr

inductive TransactionKind where
  | expense | revenue | capitalIn | capitalOut | transfer
  deriving DecidableEq, Repr

inductive TransactionSource where
  | system | human | integration
  deriving DecidableEq, Repr

/-- The idempotency keys: one shape for each caller, and no two shapes share a text. -/
inductive LedgerKey where
  | cycleCost (cycle : Id) (project : Option Id)
  | payment (provider externalRef : String)
  | other (text : String)
  deriving DecidableEq, Repr

structure Transaction where
  id : Id
  companyId : Id
  businessUnitId : Option Id
  productId : Option Id
  projectId : Option Id
  customerId : Option Id
  kind : TransactionKind
  category : String
  amount : Money
  currency : String
  sourceAmount : Option Money
  sourceCurrency : Option String
  fxRate : Option Rat
  refType : Option String
  refId : Option Id
  occurredAt : Time
  source : TransactionSource
  idempotencyKey : LedgerKey
  memo : Option String
  deriving DecidableEq, Repr

inductive ModelCallStatus where
  | ok | error
  deriving DecidableEq, Repr

/-- One call on the meter. The database takes no negative cost. -/
structure ModelCall where
  id : Id
  companyId : Id
  projectId : Option Id
  cycleId : Option Id
  status : ModelCallStatus
  costUsd : Money
  cost_nonneg : 0 ≤ costUsd

structure Cycle where
  id : Id
  companyId : Id
  seq : Nat
  stage : CycleStage
  endedAt : Option Time
  deriving DecidableEq, Repr

inductive Event where
  | customerAcquired (customerId : Id) (externalRef : String) (kind : CustomerKind)
      (businessUnitId productId : Option Id)
  | customerChurned (customerId : Id) (externalRef : String) (kind : CustomerKind)
      (businessUnitId : Option Id) (reason : Option String) (days : Nat)
  | customerReturned (customerId : Id) (externalRef : String) (kind : CustomerKind)
      (businessUnitId : Option Id) (daysAway : Nat)
  | membershipGranted (membershipId customerId businessUnitId productId paymentId : Id)
      (grantsFrom grantsUntil : Time) (extended : Bool)
  | membershipExpired (membershipId customerId businessUnitId productId : Id) (expiredAt : Time)
  | paymentReceived (paymentId transactionId customerId businessUnitId membershipId : Id)
      (provider : String) (amount : Money) (currency : String)
  | revenueRecorded (transactionId : Id) (projectId : Option Id) (category : String)
      (amount : Money) (currency : String)
  | expenseRecorded (transactionId : Id) (projectId : Option Id) (category : String)
      (amount : Money) (currency : String)
  | cycleStarted (cycleId : Id) (seq : Nat)
  | cycleStageChanged (cycleId : Id) (fromStage toStage : CycleStage)
  | cycleCompleted (cycleId : Id) (seq : Nat)
  deriving DecidableEq, Repr

/-- `Fx`: the base currency, and its units per one unit of each other currency. -/
structure Fx where
  base : String
  rates : List (String × Rat)

inductive BookError where
  | fx (message : String)
  | ledger (message : String)
  | customer (message : String)
  | membership (message : String)
  | value (message : String)
  | cycle (message : String)
  | missing (table : String)
  deriving DecidableEq, Repr

structure Books where
  fx : Fx
  now : Time
  nextId : Id
  customers : List Customer
  products : List Product
  prices : List Price
  memberships : List Membership
  payments : List Payment
  orders : List Order
  transactions : List Transaction
  modelCalls : List ModelCall
  cycles : List Cycle
  events : List Event

abbrev Tx := StateT Books (Except BookError)

/-- A fresh `uuid7`. -/
def uuid7 : Tx Id := do
  let b ← get
  modify fun b => { b with nextId := b.nextId + 1 }
  pure b.nextId

def emit (event : Event) : Tx Unit :=
  modify fun b => { b with events := b.events ++ [event] }

@[simp] theorem returns_uuid7 {b b' : Books} {i : Id} :
    Returns uuid7 b i b' ↔ i = b.nextId ∧ b' = { b with nextId := b.nextId + 1 } := by
  simp only [uuid7, returns_bind, returns_get, returns_modify, returns_pure]
  constructor
  · rintro ⟨_, _, ⟨rfl, rfl⟩, _, _, rfl, rfl, rfl⟩
    exact ⟨rfl, rfl⟩
  · rintro ⟨rfl, rfl⟩
    exact ⟨_, _, ⟨rfl, rfl⟩, (), _, rfl, rfl, rfl⟩

@[simp] theorem returns_emit {event : Event} {b b' : Books} {u : Unit} :
    Returns (emit event) b u b' ↔ b' = { b with events := b.events ++ [event] } :=
  returns_modify

/-- The books once a transaction is over: rolled back when it raised. -/
def Books.commit (b : Books) (m : Tx Unit) : Books :=
  match m b with
  | .ok (_, b') => b'
  | .error _ => b

def Books.product? (b : Books) (id : Id) : Option Product := b.products.find? fun p => p.id = id

def Books.customer? (b : Books) (id : Id) : Option Customer := b.customers.find? fun c => c.id = id

def Books.price? (b : Books) (id : Id) : Option Price := b.prices.find? fun p => p.id = id

/-- `fx.rate`. -/
def Fx.rate (fx : Fx) (currency : String) : Except BookError Rat :=
  if currency = fx.base then .ok 1
  else match (fx.rates.lookup currency).filter fun rate => 0 < rate with
    | some rate => .ok rate
    | none => .error (.fx ("no rate from " ++ currency ++ " to " ++ fx.base ++
        "; add it to FX_RATES (e.g. \x7b\"" ++ currency ++ "\": \"32\"\x7d)"))

/-- An amount in the base currency, and where it came from. -/
structure Converted where
  amount : Money
  rate : Option Rat
  sourceAmount : Option Money
  sourceCurrency : Option String
  deriving DecidableEq, Repr

/-- `fx.to_base`. -/
def Fx.toBase (fx : Fx) (amount : Money) (currency : String) : Except BookError Converted :=
  if currency = fx.base then .ok ⟨amount, none, none, none⟩
  else do
    let rate ← fx.rate currency
    pure ⟨halfEven (amount * rate), some rate, some amount, some currency⟩

/-- Microseconds in a day. -/
def dayMicros : Nat := 86400000000

/-- `add_interval`: the same day next month or next year, or the month's last day. -/
def addInterval (start : Time) (interval : PriceInterval) : Except BookError Time :=
  let months := match interval with
    | .year => 12
    | .month => 1
  let day := start / dayMicros
  if 9999 < ((monthOf day).later months).year then .error (.value "year 10000 is out of range")
  else .ok (addMonths months day * dayMicros + start % dayMicros)

theorem lt_addInterval {start until_ : Time} {interval : PriceInterval}
    (h : addInterval start interval = .ok until_) : start < until_ := by
  have hlater : ∀ n, 0 < n →
      start < addMonths n (start / dayMicros) * dayMicros + start % dayMicros := by
    intro n hn
    have hlt := lt_addMonths hn (start / dayMicros)
    have hdiv := Nat.div_add_mod start dayMicros
    have hmul : (start / dayMicros + 1) * dayMicros ≤
        addMonths n (start / dayMicros) * dayMicros := Nat.mul_le_mul_right _ hlt
    have hpos : 0 < dayMicros := by decide
    rw [Nat.add_mul, Nat.one_mul, Nat.mul_comm] at hmul
    calc start = dayMicros * (start / dayMicros) + start % dayMicros := hdiv.symm
      _ < addMonths n (start / dayMicros) * dayMicros + start % dayMicros :=
        Nat.add_lt_add_right (Nat.lt_of_lt_of_le (Nat.lt_add_of_pos_right hpos) hmul) _
  unfold addInterval at h
  cases interval <;> simp only at h <;> split at h
  · cases h
  · cases h
    exact hlater 1 (by decide)
  · cases h
  · cases h
    exact hlater 12 (by decide)

end Autora.Company
