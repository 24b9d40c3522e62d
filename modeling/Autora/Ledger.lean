import Mathlib
import Autora.Finance

/-! The ledger: the only door into the transactions, and the settling of a
cycle's model calls into one expense for each project. -/

namespace Autora.Company

open Transactions

/-- `MODEL_COST`. -/
def modelCost : String := "model_cost"

/-- `METER_CURRENCY`. -/
def meterCurrency : String := "USD"

def cycleCostKey (cycle : Id) (project : Option Id) : LedgerKey := .cycleCost cycle project

structure RecordArgs where
  companyId : Id
  kind : TransactionKind
  category : String
  amount : Money
  idempotencyKey : LedgerKey
  projectId : Option Id := none
  businessUnitId : Option Id := none
  productId : Option Id := none
  customerId : Option Id := none
  occurredAt : Option Time := none
  source : TransactionSource := .system
  refType : Option String := none
  refId : Option Id := none
  memo : Option String := none
  currency : Option String := none

def RecordArgs.converted (a : RecordArgs) (fx : Fx) : Except BookError Converted :=
  fx.toBase a.amount (a.currency.getD fx.base)

/-- The row `record` writes. -/
def RecordArgs.row (a : RecordArgs) (b : Books) (c : Converted) : Transaction where
  id := b.nextId
  companyId := a.companyId
  businessUnitId := a.businessUnitId
  productId := a.productId
  projectId := a.projectId
  customerId := a.customerId
  kind := a.kind
  category := a.category
  amount := c.amount
  currency := b.fx.base
  sourceAmount := c.sourceAmount
  sourceCurrency := c.sourceCurrency
  fxRate := c.rate
  refType := a.refType
  refId := a.refId
  occurredAt := a.occurredAt.getD b.now
  source := a.source
  idempotencyKey := a.idempotencyKey
  memo := a.memo

def earning : List TransactionKind := [.revenue, .capitalIn]

def RecordArgs.event (a : RecordArgs) (b : Books) (c : Converted) : Event :=
  if a.kind ∈ earning then .revenueRecorded b.nextId a.projectId a.category c.amount b.fx.base
  else .expenseRecorded b.nextId a.projectId a.category c.amount b.fx.base

def Books.used (b : Books) (key : LedgerKey) : Bool :=
  b.transactions.any fun t => t.idempotencyKey = key

/-- Post one transaction, or nothing when its key was already used. -/
def record (a : RecordArgs) : Tx (Option Transaction) := do
  let b ← get
  let converted ← orFail id (a.converted b.fx)
  require (0 < converted.amount)
    (.ledger ("a transaction must move money, got " ++ converted.amount.text))
  if b.used a.idempotencyKey then pure none
  else do
    let _ ← uuid7
    modify fun b' => { b' with transactions := b'.transactions ++ [a.row b converted] }
    emit (a.event b converted)
    pure (some (a.row b converted))

/-- The books with one more row. -/
def Books.booked (b : Books) (a : RecordArgs) (c : Converted) : Books :=
  { b with
    nextId := b.nextId + 1
    transactions := b.transactions ++ [a.row b c]
    events := b.events ++ [a.event b c] }

theorem returns_record {a : RecordArgs} {b b' : Books} {r : Option Transaction} :
    Returns (record a) b r b' ↔ ∃ c, a.converted b.fx = .ok c ∧ 0 < c.amount ∧
      ((b.used a.idempotencyKey = true ∧ r = none ∧ b' = b) ∨
        (b.used a.idempotencyKey = false ∧ r = some (a.row b c) ∧ b' = b.booked a c)) := by
  simp only [record, returns_bind, returns_get, returns_orFail, returns_require]
  constructor
  · rintro ⟨_, _, ⟨rfl, rfl⟩, c, _, ⟨hc, rfl⟩, _, _, ⟨hpos, rfl⟩, h⟩
    refine ⟨c, hc, hpos, ?_⟩
    rcases returns_ite.mp h with ⟨hu, h⟩ | ⟨hu, h⟩
    · exact .inl ⟨hu, returns_pure.mp h⟩
    · simp only [returns_bind, returns_uuid7, returns_modify, returns_emit, returns_pure] at h
      obtain ⟨_, _, ⟨_, rfl⟩, _, _, rfl, _, _, rfl, rfl, rfl⟩ := h
      exact .inr ⟨by simpa using hu, rfl, rfl⟩
  · rintro ⟨c, hc, hpos, h⟩
    refine ⟨_, _, ⟨rfl, rfl⟩, c, _, ⟨hc, rfl⟩, (), _, ⟨hpos, rfl⟩, returns_ite.mpr ?_⟩
    rcases h with ⟨hu, rfl, rfl⟩ | ⟨hu, rfl, rfl⟩
    · exact .inl ⟨hu, returns_pure.mpr ⟨rfl, rfl⟩⟩
    · refine .inr ⟨by simp [hu], ?_⟩
      simp only [returns_bind, returns_uuid7, returns_modify, returns_emit, returns_pure, true_and]
      exact ⟨_, _, ⟨rfl, rfl⟩, (), _, rfl, (), _, rfl, rfl⟩

/-- The successful calls of a cycle. -/
def Books.settled (b : Books) (cycle : Id) : List ModelCall :=
  b.modelCalls.filter fun c => c.cycleId = some cycle ∧ c.status = .ok

def cost (calls : List ModelCall) : Money := (calls.map ModelCall.costUsd).sum

/-- `GROUP BY project_id`: each project of the calls, with what its calls cost. -/
def perProject (calls : List ModelCall) : List (Option Id × Money) :=
  (calls.map ModelCall.projectId).dedup.map fun p =>
    (p, cost (calls.filter fun c => c.projectId = p))

structure Settlement where
  cycleId : Id
  transactions : List Transaction
  total : Money
  alreadySettled : Bool
  deriving DecidableEq, Repr

def costArgs (cycle : Cycle) (project : Option Id) (cost : Money) (at_ : Time) : RecordArgs where
  companyId := cycle.companyId
  kind := .expense
  category := modelCost
  amount := cost
  idempotencyKey := cycleCostKey cycle.id project
  projectId := project
  occurredAt := some (cycle.endedAt.getD at_)
  refType := some "cycle"
  refId := some cycle.id
  memo := some ("model calls of cycle " ++ toString cycle.seq)
  currency := some meterCurrency

/-- One project's share of `settle_cycle`. -/
def settleProject (cycle : Cycle) (s : Settlement) (share : Option Id × Money) :
    Tx Settlement := do
  if share.2 ≤ 0 then pure s
  else do
    let b ← get
    match ← record (costArgs cycle share.1 share.2 b.now) with
    | none => pure { s with total := s.total + share.2, alreadySettled := true }
    | some t => pure { s with total := s.total + share.2, transactions := s.transactions ++ [t] }

def settleCycle (cycle : Cycle) : Tx Settlement := do
  let b ← get
  foldEach (settleProject cycle) ⟨cycle.id, [], 0, false⟩ (perProject (b.settled cycle.id))

/-- What the cycle's model calls cost, read from the meter. -/
def Books.metered (b : Books) (cycle : Id) : Money := cost (b.settled cycle)

end Autora.Company
