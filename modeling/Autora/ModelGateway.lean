import Autora.Lib.Calendars
import Autora.Lib.Refusals
import Autora.Lib.Untyped
import Autora.AgentRunner
import Autora.Events

/-! `ModelGateway.complete` over `DbCostGuard`: each candidate binding is reserved
for, called, recorded and settled, in transactions of their own. -/

namespace Autora.Models

open Transactions Refusals Untyped
open Agents (StopReason)

structure Usage where
  inputTokens : Nat := 0
  outputTokens : Nat := 0
  cacheReadTokens : Nat := 0
  cacheWriteTokens : Nat := 0
  deriving DecidableEq, Repr

/-- USD per million tokens. -/
structure Price where
  input : Usd
  output : Usd
  cacheRead : Usd := 0
  cacheWrite : Usd := 0

-- `quantize` to six places, half up, for what is not negative
def toMicros (q : Usd) : Usd := ⌊q * 1000000 + 1 / 2⌋ / 1000000

def Price.cost (p : Price) (u : Usage) : Usd :=
  toMicros ((u.inputTokens * p.input + u.outputTokens * p.output +
    u.cacheReadTokens * p.cacheRead + u.cacheWriteTokens * p.cacheWrite) / 1000000)

structure ModelBinding where
  provider : String
  modelId : Str
  price : Price

structure ModelRouter where
  aliases : List (String × ModelBinding)
  routes : List (String × String)
  fallbacks : List (String × List String)
  prices : List (Str × Price)

structure CallContext where
  companyId : Id
  role : String
  projectId : Option Id
  agentId : Option Id
  runId : Option Id
  taskId : Option Id
  workflowRunId : Option Id
  cycleId : Option Id

inductive Block where
  | text (text : Str)
  | toolUse (id name : Str) (input : List (Str × Value))
  -- an `OpaqueBlock`
  | verbatim (provider : String) (data : List (Str × Value))

/-- The request, as far as the guard and the gateway read it: `chars` counts its system
text, its messages and its tools as JSON; `outputModel` checks a reply's text. -/
structure ModelRequest where
  capability : String
  context : CallContext
  chars : Nat
  maxOutputTokens : Nat
  outputModel : Option (Str → Except (List String) Value)

structure ProviderResponse where
  content : List Block
  stopReason : StopReason
  usage : Usage
  modelId : Str

structure ProviderError where
  errorClass : String
  message : Str
  fallbackAllowed : Bool
  deriving DecidableEq, Repr

structure ModelResponse where
  modelCallId : Id
  content : List Block
  stopReason : StopReason
  usage : Usage
  provider : String
  alias_ : String
  modelId : Str
  costUsd : Usd
  latencyMs : Nat
  parsed : Option Value
  outputIssues : List String

inductive ModelCallStatus where
  | ok | error
  deriving DecidableEq, Repr

structure ModelCall where
  id : Id
  context : CallContext
  capability : String
  alias_ : String
  provider : String
  modelId : Str
  status : ModelCallStatus
  stopReason : Option StopReason
  usage : Usage
  costUsd : Usd
  latencyMs : Nat
  error : Option (String × Str)
  createdAt : Time

structure CostReservation where
  id : Id
  companyId : Id
  projectId : Option Id
  taskId : Option Id
  runId : Option Id
  amount : Usd
  createdAt : Time
  settledAt : Option Time
  releasedAt : Option Time
  modelCallId : Option Id
  actualCost : Option Usd

inductive Period where
  | cycle | day | month
  deriving DecidableEq, Repr

structure Budget where
  companyId : Id
  projectId : Option Id
  businessUnitId : Option Id
  period : Period
  amount : Usd
  currency : String
  hardCap : Bool

inductive Scope where
  | run | task | project | company | daily
  deriving DecidableEq, Repr

/-- A BUDGET_EXHAUSTED event. -/
structure BudgetExhausted where
  scope : Scope
  context : CallContext
  limit : Usd
  spent : Usd
  requested : Usd

/-- The tables a call reads and writes. -/
structure Meter where
  now : Time
  nextId : Id
  calls : List ModelCall
  reservations : List CostReservation
  budgets : List Budget
  /-- `agents.budget.per_run_usd`. -/
  perRun : Id → Option Usd
  /-- `tasks.budget_usd`. -/
  taskBudget : Id → Option Usd
  /-- When the company's open cycle began. -/
  openCycle : Id → Option Time
  exhausted : List BudgetExhausted

structure DbCostGuard where
  reservationTtl : Time
  /-- A budget's amount in the meter's currency. -/
  metered : Budget → Usd
  dailyCapUsd : Option Usd

structure ModelGateway where
  router : ModelRouter
  providers : List String
  costGuard : DbCostGuard

/-- What leaves `complete` other than by returning. -/
inductive Raised where
  | budgetExceeded (scope : Scope) (limit spent requested : Usd)
  | modelCallFailed (failures : List (String × ProviderError))
  | modelConfigError (message : String)
  | other (errorClass : String)
  | cancelled

/-! The cost guard. -/

structure Limit where
  scope : Scope
  amount : Usd
  windowStart : Option Time
  projectId : Option Id := none
  taskId : Option Id := none
  runId : Option Id := none

def estimateCost (request : ModelRequest) (binding : ModelBinding) : Usd :=
  binding.price.cost
    { inputTokens := (request.chars + 3) / 4, outputTokens := request.maxOutputTokens }

def microsPerDay : Nat := 86400000000

def windowStart (period : Period) (now : Time) (cycleStartedAt : Option Time) : Time :=
  let day := now / microsPerDay
  match period with
  | .cycle => cycleStartedAt.getD (day * microsPerDay)
  | .day => day * microsPerDay
  | .month => (Calendars.monthOf day).firstDay * microsPerDay

def Budget.limit (guard : DbCostGuard) (scope : Scope) (projectId : Option Id) (now : Time)
    (cycleStart : Option Time) (b : Budget) : Limit :=
  ⟨scope, guard.metered b, some (windowStart b.period now cycleStart), projectId, none, none⟩

-- `_limits`, and the daily cap that `reserve` adds
def limits (guard : DbCostGuard) (m : Meter) (request : ModelRequest) : List Limit :=
  let ctx := request.context
  let cycleStart := m.openCycle ctx.companyId
  let hard := m.budgets.filter fun b => b.companyId = ctx.companyId ∧ b.hardCap = true
  let run := match ctx.agentId, ctx.runId with
    | some agent, some run => (m.perRun agent).toList.map fun x =>
        (⟨.run, x, none, none, none, some run⟩ : Limit)
    | _, _ => []
  let task := match ctx.taskId with
    | some task => (m.taskBudget task).toList.map fun x =>
        (⟨.task, x, none, none, some task, none⟩ : Limit)
    | none => []
  let project := match ctx.projectId with
    | some project => (hard.filter (·.projectId = some project)).map
        (Budget.limit guard .project (some project) m.now cycleStart)
    | none => []
  let company := (hard.filter fun b => b.projectId = none ∧ b.businessUnitId = none).map
    (Budget.limit guard .company none m.now cycleStart)
  let daily := (guard.dailyCapUsd.filter (· ≠ 0)).toList.map fun x =>
    (⟨.daily, x, some (windowStart .day m.now none), none, none, none⟩ : Limit)
  run ++ task ++ project ++ company ++ daily

-- `scoped`: whose rows count against a limit
def Limit.scoped (l : Limit) (company rowCompany : Id) (project task run : Option Id)
    (createdAt : Time) : Bool :=
  (l.scope = .daily || rowCompany = company) && l.runId.all (fun i => run = some i) &&
    l.taskId.all (fun i => task = some i) && l.projectId.all (fun i => project = some i) &&
    l.windowStart.all (· ≤ createdAt)

def CostReservation.isOpen (r : CostReservation) : Bool :=
  r.settledAt.isNone && r.releasedAt.isNone

def spent (guard : DbCostGuard) (m : Meter) (company : Id) (l : Limit) : Usd :=
  ((m.calls.filter fun c => c.status = .ok && l.scoped company c.context.companyId
      c.context.projectId c.context.taskId c.context.runId c.createdAt).map (·.costUsd)).sum +
  ((m.reservations.filter fun r => r.isOpen && m.now ≤ r.createdAt + guard.reservationTtl &&
      l.scoped company r.companyId r.projectId r.taskId r.runId r.createdAt).map (·.amount)).sum

-- the first limit the call would pass
def firstExceeded (guard : DbCostGuard) (m : Meter) (request : ModelRequest) (amount : Usd) :
    Option Limit :=
  (limits guard m request).find? fun l =>
    l.amount < spent guard m request.context.companyId l + amount

abbrev Work := Refusals.Work Meter Raised

def freshId : Work Id := do
  let m ← get
  modify fun m => { m with nextId := m.nextId + 1 }
  pure m.nextId

/-- The reservation's id, or none when there is nothing to hold. -/
def reserve (guard : DbCostGuard) (request : ModelRequest) (binding : ModelBinding) :
    Work (Option Id) := do
  let amount := estimateCost request binding
  let ctx := request.context
  let m ← get
  match firstExceeded guard m request amount with
  | some l => do
    let used := spent guard m ctx.companyId l
    -- committed although the call does not happen
    modify fun m => { m with exhausted := m.exhausted ++ [⟨l.scope, ctx, l.amount, used, amount⟩] }
    raise (.budgetExceeded l.scope l.amount used amount)
  | none =>
    if amount = 0 then pure none
    else do
      let id ← freshId
      modify fun m => { m with reservations := m.reservations ++ [{
        id := id
        companyId := ctx.companyId
        projectId := ctx.projectId
        taskId := ctx.taskId
        runId := ctx.runId
        amount := amount
        createdAt := m.now
        settledAt := none
        releasedAt := none
        modelCallId := none
        actualCost := none }] }
      pure (some id)

def Meter.setReservation (m : Meter) (id : Id) (f : CostReservation → CostReservation) : Meter :=
  { m with reservations := m.reservations.map fun r => if r.id = id then f r else r }

def settle (reservation : Option Id) (cost : Usd) (call : Id) : Work PUnit :=
  forSome reservation fun id => modify fun m => m.setReservation id fun r =>
    { r with settledAt := some m.now, modelCallId := some call, actualCost := some cost }

def release (reservation : Option Id) : Work PUnit :=
  forSome reservation fun id => modify fun m => m.setReservation id fun r =>
    { r with releasedAt := some m.now }

/-! The gateway. -/

def ModelRouter.resolve (r : ModelRouter) (role capability : String) : Option String :=
  [role ++ "." ++ capability, "*." ++ capability, role ++ ".*", "*.*"].firstM fun key =>
    r.routes.lookup key

def ModelRouter.chain (r : ModelRouter) (alias_ : String) : List String :=
  alias_ :: (r.fallbacks.lookup alias_).getD []

def ModelRouter.priceFor (r : ModelRouter) (modelId : Str) (default : Price) : Price :=
  match r.aliases.find? fun a => a.2.modelId = modelId with
  | some a => a.2.price
  | none => (r.prices.lookup modelId).getD default

-- text a column can hold
def storable (s : Str) : Bool := s.all fun c => c ≠ 0 && !isSurrogate c

def maxBigInt : Nat := 9223372036854775807

def Usage.storable (u : Usage) : Bool :=
  u.inputTokens ≤ maxBigInt && u.outputTokens ≤ maxBigInt && u.cacheReadTokens ≤ maxBigInt &&
    u.cacheWriteTokens ≤ maxBigInt

-- a NUMERIC(18, 6) column holds no more; `quantize` refuses only what is larger still
def payable (cost : Usd) : Bool := cost < 10 ^ 12

-- `model_id or binding.model_id`
def servedBy (binding : ModelBinding) (modelId : Option Str) : Str :=
  match modelId with
  | some id => if id.isEmpty then binding.modelId else id
  | none => binding.modelId

/-- `_record`; the database refuses what its columns cannot hold. -/
def record (request : ModelRequest) (alias_ : String) (binding : ModelBinding) (usage : Usage)
    (cost : Usd) (latencyMs : Nat) (status : ModelCallStatus) (stopReason : Option StopReason)
    (error : Option (String × Str)) (modelId : Option Str) : Work Id := do
  let model := servedBy binding modelId
  ensure (usage.storable = true ∧ storable model = true ∧
    error.all (fun e => storable e.2) = true) (.other "DBAPIError")
  let id ← freshId
  modify fun m => { m with calls := m.calls ++ [{
    id := id
    context := request.context
    capability := request.capability
    alias_ := alias_
    provider := binding.provider
    modelId := model
    status := status
    stopReason := stopReason
    usage := usage
    costUsd := cost
    latencyMs := latencyMs
    error := error
    createdAt := m.now }] }
  pure id

def Block.text? : Block → Option Str
  | .text s => some s
  | _ => none

-- `_parse` of what the reply's text blocks say together, fence and blanks aside
def parse (outputModel : Option (Str → Except (List String) Value)) (r : ProviderResponse) :
    Option Value × List String :=
  match outputModel with
  | none => (none, [])
  | some model =>
    if r.stopReason = .toolUse then (none, [])
    else match model (r.content.filterMap Block.text?).flatten with
      | .ok value => (some value, [])
      | .error issues => (none, issues)

/-- Where the caller's cancellation falls in a transaction, if it does. -/
inductive Cut where
  | none | beforeCommit | afterCommit
  deriving DecidableEq, Repr

/-- How a call of a provider ends. -/
inductive Answer where
  | reply (r : ProviderResponse)
  | fails (e : ProviderError)
  | raises (errorClass : String)
  | cancelled

/-- What one candidate meets: when it is reserved for, where the caller is cancelled, and
how its provider answers. -/
structure Attempt where
  at_ : Time
  reserving : Cut
  answer : Answer
  latencyMs : Nat
  closing : Cut

/-- A transaction the caller may be cancelled in. -/
def cut {α : Type} : Cut → Work α → Work α
  | .none, m => m
  | .beforeCommit, _ => raise .cancelled
  | .afterCommit, m => do
    let _ ← handled (m >>= fun _ => pure ⟨⟩) fun _ => pure PUnit.unit
    raise .cancelled

namespace ModelGateway

variable (g : ModelGateway)

-- the transaction that records a failure and releases what was reserved for it
def closeFailed (request : ModelRequest) (alias_ : String) (binding : ModelBinding)
    (reservation : Option Id) (latencyMs : Nat) (e : ProviderError) : Work PUnit :=
  atomically do
    let _ ← record request alias_ binding {} 0 latencyMs .error none
      (some (e.errorClass, e.message.take 2000)) none
    release reservation

-- the transaction that records a reply and settles what was reserved for it
def closeOk (request : ModelRequest) (alias_ : String) (binding : ModelBinding)
    (reservation : Option Id) (latencyMs : Nat) (cost : Usd) (r : ProviderResponse) : Work Id :=
  atomically do
    let id ← record request alias_ binding r.usage cost latencyMs .ok (some r.stopReason) none
      (some r.modelId)
    settle reservation cost id
    pure id

def replyCost (binding : ModelBinding) (r : ProviderResponse) : Usd :=
  (g.router.priceFor r.modelId binding.price).cost r.usage

def responseOf (request : ModelRequest) (alias_ : String) (binding : ModelBinding)
    (latencyMs : Nat) (cost : Usd) (r : ProviderResponse) (modelCallId : Id) : ModelResponse :=
  let parsed := parse request.outputModel r
  { modelCallId := modelCallId
    content := r.content
    stopReason := r.stopReason
    usage := r.usage
    provider := binding.provider
    alias_ := alias_
    modelId := r.modelId
    costUsd := cost
    latencyMs := latencyMs
    parsed := parsed.1
    outputIssues := parsed.2 }

-- the provider's answer, and the transaction that closes what was reserved for it
def answered (request : ModelRequest) (alias_ : String) (binding : ModelBinding) (a : Attempt)
    (reservation : Option Id) : Work (Except ProviderError ModelResponse) :=
  match a.answer with
  | .cancelled => raise .cancelled
  | .raises errorClass => raise (.other errorClass)
  | .fails e => do
    cut a.closing (closeFailed request alias_ binding reservation a.latencyMs e)
    pure (.error e)
  | .reply r => do
    let cost := g.replyCost binding r
    ensure (payable cost = true) (.other "DBAPIError")
    let id ← cut a.closing (closeOk request alias_ binding reservation a.latencyMs cost r)
    pure (.ok (responseOf request alias_ binding a.latencyMs cost r id))

/-- One candidate: the response, or the failure the next candidate is tried for. -/
def attempt (request : ModelRequest) (alias_ : String) (binding : ModelBinding) (a : Attempt) :
    Work (Except ProviderError ModelResponse) := do
  modify fun m => { m with now := a.at_ }
  let reservation ← cut a.reserving (reserve g.costGuard request binding)
  g.answered request alias_ binding a reservation

-- the loop over the candidates
def candidates (request : ModelRequest) :
    List (String × Attempt) → List (String × ProviderError) → Work ModelResponse
  | [], failures => raise (.modelCallFailed failures)
  | (alias_, a) :: rest, failures => do
    let binding ← found (.modelConfigError "unknown model alias") (g.router.aliases.lookup alias_)
    ensure (binding.provider ∈ g.providers) (.modelConfigError "provider not installed")
    let outcome ← g.attempt request alias_ binding a
    match outcome with
    | .ok response => pure response
    | .error e =>
      if e.fallbackAllowed = true then candidates request rest (failures ++ [(alias_, e)])
      else raise (.modelCallFailed (failures ++ [(alias_, e)]))

/-- The candidates a request is tried on, each with what it will meet. -/
def tries (alias_ : String) (attempts : Nat → Attempt) : List (String × Attempt) :=
  (g.router.chain alias_).zipIdx.map fun c => (c.1, attempts c.2)

def complete (request : ModelRequest) (attempts : Nat → Attempt) : Work ModelResponse := do
  let alias_ ← found (.modelConfigError "no route")
    (g.router.resolve request.context.role request.capability)
  g.candidates request (g.tries alias_ attempts) []

end ModelGateway

end Autora.Models
