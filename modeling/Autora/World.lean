import Autora.Lib.Transactions
import Autora.Events

/-! The tables the runtime works on, one row type each, and the transactions
over them. A transaction that raises is rolled back. -/

namespace Autora

open Transactions

structure Task where
  id : Id
  companyId : Id
  projectId : Id
  workflowRunId : Option Id
  cycleId : Option Id
  name : String
  displayName : String
  requiredRole : String
  state : TaskState
  dependsOn : List Id
  input : Dict
  output : Option Dict
  outputSchemaRef : Option String
  attempt : Nat
  maxAttempts : Nat
  budgetUsd : Option Usd
  priority : Int
  availableAt : Option Time
  leaseOwner : Option String
  leaseUntil : Option Time
  leaseToken : Option Id
  createdAt : Time

structure RunError where
  errorClass : String
  message : String
  deriving DecidableEq, Repr

structure AgentRun where
  id : Id
  companyId : Id
  taskId : Id
  agentId : Id
  attempt : Nat
  state : AgentRunState
  input : Dict
  output : Option Dict
  handoff : List Handoff
  error : Option RunError
  costUsd : Usd
  stepsCount : Nat
  startedAt : Option Time
  finishedAt : Option Time
  createdAt : Time

structure WorkflowRun where
  id : Id
  companyId : Id
  projectId : Id
  cycleId : Option Id
  templateName : String
  params : Dict
  state : WorkflowRunState
  finishedAt : Option Time
  createdAt : Time

inductive AgentStatus where
  | active | paused | retired
  deriving DecidableEq, Repr

structure Agent where
  id : Id
  companyId : Id
  role : String
  displayName : String
  avatarKey : String
  capabilities : List String
  /-- What the joins over the departments give for this agent. -/
  place : Placement
  perRunUsd : Option Usd
  status : AgentStatus
  createdAt : Time

/-- `agent_activity.detail`: the payload's JSON, the run, task and workflow it
belongs to, and the `links` key. -/
structure Detail where
  payload : Payload
  runId : Option Id
  taskId : Option Id
  workflowRunId : Option Id
  taskName : Option String
  links : Option (List Link)

structure AgentActivity where
  agentId : Id
  companyId : Id
  state : ActivityState
  detail : Detail
  runId : Option Id
  taskId : Option Id
  since : Time
  lastEventSeq : Nat

inductive ApprovalState where
  | pending | approved | rejected | returned | expired
  deriving DecidableEq, Repr

structure Approval where
  id : Id
  companyId : Id
  kind : String
  refType : String
  refId : Id
  taskId : Option Id
  runId : Option Id
  action : Option String
  payload : Dict
  summary : String
  state : ApprovalState
  expiresAt : Time
  createdAt : Time
  /-- `payload["delegated"]["task_id"]`. -/
  delegatedTask : Option Id
  /-- `payload["delegated_before"]`. -/
  delegatedBefore : Bool

structure Cycle where
  id : Id
  companyId : Id
  seq : Nat
  stage : CycleStage
  startedAt : Time
  stageDeadline : Option Time

structure Project where
  id : Id
  companyId : Id
  businessUnitId : Option Id
  name : String

structure BusinessUnit where
  id : Id
  companyId : Id
  key : String

structure Budget where
  id : Id
  companyId : Id
  businessUnitId : Option Id
  projectId : Option Id
  period : String
  amount : Usd
  currency : String
  hardCap : Bool

/-- The database, the event log, the next id and the clock. Rows of a table stand
in the order they were inserted, which is the order of `(created_at, id)`. -/
structure World where
  now : Time
  nextId : Id
  nextSeq : Nat
  tasks : List Task
  agentRuns : List AgentRun
  workflowRuns : List WorkflowRun
  agents : List Agent
  agentActivity : List AgentActivity
  approvals : List Approval
  cycles : List Cycle
  projects : List Project
  businessUnits : List BusinessUnit
  budgets : List Budget
  events : List EventEnvelope

inductive ActivityError where
  | notInitialized
  | alreadyInitialized
  | doesNotChange (eventType : String)
  | traceData
  | alreadyPaused
  | notUntilResumed (eventType : String)
  | cannotResume (current : ActivityState)
  | idleNotValid (reason : IdleReason) (current : ActivityState)
  deriving DecidableEq, Repr

inductive ApprovalError where
  | notFound (approval : Id)
  | already (approval : Id) (state : ApprovalState)
  | onlyReady (task : Id) (state : TaskState)
  | alreadyPending (refType : String) (refId : Id)
  | onlyHuman
  | onlyAgent
  | reasonNeeded
  | onlyDecisionTask
  | notDelegated (approval : Id)
  deriving DecidableEq, Repr

/-- What a transaction can raise. -/
inductive Err where
  | fsm (e : FSMError)
  | leaseLost (message : String)
  | agentBusy (message : String)
  | activity (e : ActivityError)
  | workflow (message : String)
  | approval (e : ApprovalError)
  | refused (message : String)
  | integrity (constraint : String)
  | keyError (key : String)
  | indexError
  | attributeError
  | noRow (table : String)
  | recursion
  deriving DecidableEq, Repr

abbrev Tx := StateT World (Except Err)

/-! Reading and writing rows. -/

def clock : Tx Time := do
  let w ← get
  pure w.now

/-- The next `uuid7`. -/
def uuid7 : Tx Id := do
  let w ← get
  modify fun w => { w with nextId := w.nextId + 1 }
  pure w.nextId

def World.task? (w : World) (id : Id) : Option Task := w.tasks.find? (·.id = id)

def World.agentRun? (w : World) (id : Id) : Option AgentRun := w.agentRuns.find? (·.id = id)

def World.workflowRun? (w : World) (id : Id) : Option WorkflowRun :=
  w.workflowRuns.find? (·.id = id)

def World.agent? (w : World) (id : Id) : Option Agent := w.agents.find? (·.id = id)

def World.activity? (w : World) (agentId : Id) : Option AgentActivity :=
  w.agentActivity.find? (·.agentId = agentId)

/-- The row of an ORM object that is held: the current values under its id. -/
def theTask (id : Id) : Tx Task := do
  let w ← get
  orRaise (.noRow "tasks") (w.task? id)

def theRun (id : Id) : Tx AgentRun := do
  let w ← get
  orRaise (.noRow "agent_runs") (w.agentRun? id)

def theAgent (id : Id) : Tx Agent := do
  let w ← get
  orRaise (.noRow "agents") (w.agent? id)

def World.setTask (w : World) (id : Id) (f : Task → Task) : World :=
  { w with tasks := w.tasks.map fun t => if t.id = id then f t else t }

def World.setRun (w : World) (id : Id) (f : AgentRun → AgentRun) : World :=
  { w with agentRuns := w.agentRuns.map fun r => if r.id = id then f r else r }

def World.setWorkflowRun (w : World) (id : Id) (f : WorkflowRun → WorkflowRun) : World :=
  { w with workflowRuns := w.workflowRuns.map fun r => if r.id = id then f r else r }

def updateTask (id : Id) (f : Task → Task) : Tx Unit := modify fun w => w.setTask id f

def updateRun (id : Id) (f : AgentRun → AgentRun) : Tx Unit := modify fun w => w.setRun id f

def updateWorkflowRun (id : Id) (f : WorkflowRun → WorkflowRun) : Tx Unit :=
  modify fun w => w.setWorkflowRun id f

/-- `FSM.transition` on a row: raise unless the move is legal, then write the state. -/
def checked {S : Type} [DecidableEq S] (m : StateMachine S) (current target : S) : Tx Unit :=
  require (m.can current target = true) (.fsm (m.illegal current target))

def transitionTask (id : Id) (target : TaskState) : Tx Unit := do
  let task ← theTask id
  checked taskFsm task.state target
  updateTask id fun t => { t with state := target }

def transitionRun (id : Id) (target : AgentRunState) : Tx Unit := do
  let run ← theRun id
  checked agentRunFsm run.state target
  updateRun id fun r => { r with state := target }

/-- `outbox.emit`: append the event; the log assigns its `seq`. -/
def emit (event : EventEnvelope) : Tx EventEnvelope := do
  let w ← get
  let event := { event with seq := w.nextSeq, occurredAt := w.now }
  modify fun w => { w with events := w.events ++ [event], nextSeq := w.nextSeq + 1 }
  pure event

end Autora
