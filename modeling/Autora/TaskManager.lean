import Autora.Lib.Calendars
import Autora.Activity
import Autora.Template

/-! The task manager: the work queue and the lifecycle of tasks and their agent
runs. Rows are live objects: a row that is written is read again by its id. -/

namespace Autora

open Transactions Calendars

/-- What a claim holds: the rows as they were when it was made, and its token. -/
structure Claim where
  task : Task
  run : AgentRun
  agent : Agent
  token : Id
  resumed : Bool

/-- The hooks of the workflow engine and of the domains, and the timing. -/
structure TaskManager where
  lease : Nat := 300000000
  retryBase : Nat := 10000000
  retryMax : Nat := 300000000
  onTaskFinished : Option (Id → Tx (List UnlockedTask)) := none
  onTaskFailed : Option (Id → Tx Unit) := none
  -- `none` is a hook that raises
  linkHooks : List (World → Task → Option AgentRun → Option (List Link)) := []

structure TaskArgs where
  companyId : Id
  projectId : Id
  name : String
  displayName : String
  requiredRole : String
  workflowRunId : Option Id := none
  cycleId : Option Id := none
  dependsOn : List Id := []
  input : Dict := []
  outputSchemaRef : Option String := none
  budgetUsd : Option Usd := none
  maxAttempts : Nat := 3
  priority : Int := 100
  ready : Option Bool := none
  taskId : Option Id := none

-- `input["service"]`: no agent runs this task
def Task.isService (task : Task) : Bool := (task.input.lookup "service").isSome

/-! Internals that do not call the hooks. -/

def emitTask (task : Task) (payload : Payload) (run : Option AgentRun) : Tx Unit := do
  let ofRun := run.isSome && payload.typeStartsWith "AGENT_"
  let _ ← emit {
    seq := 0
    companyId := task.companyId
    occurredAt := 0
    aggregateType := if ofRun then "agent_run" else "task"
    aggregateId := if ofRun then (run.map (·.id)).getD task.id else task.id
    agentId := run.map (·.agentId)
    taskId := some task.id
    runId := run.map (·.id)
    workflowRunId := task.workflowRunId
    cycleId := task.cycleId
    correlationId := task.workflowRunId
    payload := payload }
  pure ()

-- `_release`
def releaseLease (task : Id) : Tx Unit :=
  updateTask task fun t => { t with leaseOwner := none, leaseUntil := none, leaseToken := none }

def taskContext (task : Task) (run : Option AgentRun) : ActivityContext where
  runId := run.map (·.id)
  taskId := some task.id
  workflowRunId := task.workflowRunId
  taskName := some task.displayName

-- `_activity`
def taskActivity (agent : Agent) (payload : Payload) (task : Task) (run : Option AgentRun) :
    Tx Unit :=
  setActivityUnlessPaused agent payload (taskContext task run)

/-- `_finish_run`: along the legal path; `finished_at` is set right before the last move. -/
def finishRun (run : Id) (target : AgentRunState) (now : Time) : Tx Unit := do
  let row ← theRun run
  let path ← orFail .fsm (agentRunFsm.shortestPath AgentRunState.all row.state target)
  forEach (fun hop => transitionRun run hop) path.dropLast
  updateRun run fun r => { r with finishedAt := some now }
  let last ← orRaise .indexError path.getLast?
  transitionRun run last

-- `message[:2000]`
def truncate (message : String) : String := String.ofList (message.toList.take 2000)

def abortRun (run : Id) (reason : AbortReason) (message : Option String) : Tx Unit := do
  updateRun run fun r => { r with
    error := some ⟨"Aborted:" ++ reason.value, truncate (message.getD "")⟩ }
  let now ← clock
  finishRun run .aborted now

/-- `_locked_task`: the claim is current, or `LeaseLost`. -/
def lockedTask (claim : Claim) : Tx Task := do
  let w ← get
  let lost := s!"claim on task {claim.task.id} is no longer valid"
  let task ← orRaise (.leaseLost lost) (w.task? claim.task.id)
  require (task.state = .running ∧ task.leaseToken = some claim.token) (.leaseLost lost)
  pure task

def runOf (claim : Claim) : Tx AgentRun := do
  let w ← get
  let lost := s!"run {claim.run.id} already finished"
  let run ← orRaise (.leaseLost lost) (w.agentRun? claim.run.id)
  require (run.state.isOpen = true) (.leaseLost lost)
  pure run

def World.openRun? (w : World) (agent : Id) : Option AgentRun :=
  w.agentRuns.find? fun r => r.agentId = agent && r.state.isOpen

def World.openRunOf? (w : World) (task : Id) : Option AgentRun :=
  w.agentRuns.find? fun r => r.taskId = task && r.state.isOpen

-- the order of `sorted`, without duplicates
def sortedRoles (roles : List String) : List String := roles.dedup.insertionSort (· ≤ ·)

def markIdleAgentsWaiting (task : Task) : Tx Unit := do
  let w ← get
  let upstreamRoles := sortedRoles
    ((w.tasks.filter fun t => t.id ∈ task.dependsOn).map (·.requiredRole))
  let rows := w.agents.filter fun a =>
    a.companyId = task.companyId && a.role = task.requiredRole && (w.activity? a.id).isSome
  forEach (fun agent => do
    let w ← get
    let activity ← orRaise (.noRow "agent_activity") (w.activity? agent.id)
    let now ← clock
    let waiting := Payload.agentWaiting .upstream none (some task.id) upstreamRoles
    if effectiveState activity.state activity.detail now ≠ .idle then pure ()
    else setActivityUnlessPaused agent waiting (taskContext task none)) rows

def agentsWaitingOn (task : Task) : Tx (List Agent) := do
  let w ← get
  pure (w.agents.filter fun agent => agent.companyId = task.companyId &&
    (w.activity? agent.id).any fun a =>
      a.state = .waiting && a.detail.payload.blockedTaskId = some task.id)

/-- `datetime.isoformat` of a UTC time. -/
def isoformat (t : Time) : String :=
  let seconds := t / 1000000
  let month := monthOf (seconds / 86400)
  let micros := t % 1000000
  digits 4 month.year ++ "-" ++ digits 2 month.month ++ "-" ++
    digits 2 (seconds / 86400 - month.firstDay + 1) ++ "T" ++
    digits 2 (seconds % 86400 / 3600) ++ ":" ++ digits 2 (seconds % 3600 / 60) ++ ":" ++
    digits 2 (seconds % 60) ++ (if micros = 0 then "" else "." ++ digits 6 micros) ++ "+00:00"

namespace TaskManager

variable (tm : TaskManager)

def finished (task : Id) : Tx (List UnlockedTask) :=
  match tm.onTaskFinished with
  | some hook => hook task
  | none => pure []

def failed (task : Id) : Tx Unit :=
  match tm.onTaskFailed with
  | some hook => hook task
  | none => pure ()

/-- Every domain's links for the task; a hook that raises adds none. -/
def activityLinks (task : Task) (run : Option AgentRun) : Tx (List Link) := do
  let w ← get
  pure (tm.linkHooks.flatMap fun hook => (hook w task run).getD [])

/-! Creating tasks. -/

/-- `mark_ready`: also how a blocked task is put back in the queue. -/
def markReady (task : Id) : Tx Unit := do
  transitionTask task .ready
  let task ← theTask task
  emitTask task (.taskReady task.requiredRole) none

def newTask (args : TaskArgs) (id : Id) (now : Time) : Task where
  id := id
  companyId := args.companyId
  projectId := args.projectId
  workflowRunId := args.workflowRunId
  cycleId := args.cycleId
  name := args.name
  displayName := args.displayName
  requiredRole := args.requiredRole
  state := .pending
  dependsOn := args.dependsOn
  input := args.input
  output := none
  outputSchemaRef := args.outputSchemaRef
  attempt := 0
  maxAttempts := args.maxAttempts
  budgetUsd := args.budgetUsd
  priority := args.priority
  availableAt := none
  leaseOwner := none
  leaseUntil := none
  leaseToken := none
  createdAt := now

/-- The new row's key and CHECK constraints. -/
def flushTask (task : Task) : Tx Unit := do
  let w ← get
  require ((w.task? task.id).isNone = true) (.integrity "pk_tasks")
  require (matchesName false true task.name.toList = true ∧ newline ∉ task.name.toList)
    (.integrity "ck_tasks_name_format")
  require (matchesName false true task.requiredRole.toList = true ∧
    newline ∉ task.requiredRole.toList) (.integrity "ck_tasks_required_role_format")
  require (1 ≤ task.maxAttempts) (.integrity "ck_tasks_max_attempts_positive")
  require (∀ b ∈ task.budgetUsd, 0 ≤ b) (.integrity "ck_tasks_budget_non_negative")
  modify fun w => { w with tasks := w.tasks ++ [task] }

/-- READY when it has no dependencies (or `ready` says so), else PENDING. -/
def addTask (args : TaskArgs) : Tx Id := do
  let id ← args.taskId.elim uuid7 pure
  let now ← clock
  let task := newTask args id now
  flushTask task
  emitTask task (.taskCreated args.name args.displayName args.requiredRole args.dependsOn
    args.workflowRunId args.budgetUsd) none
  let ready := args.ready.getD args.dependsOn.isEmpty
  (if ready = true then markReady id else markIdleAgentsWaiting task)
  pure id

/-! Claiming. -/

/-- A new attempt: it is counted on the task, and its run is CREATED. -/
def startAttempt (task : Task) (agent : Agent) (now : Time) : Tx AgentRun := do
  updateTask task.id fun t => { t with attempt := t.attempt + 1 }
  let id ← uuid7
  let run : AgentRun := {
    id := id
    companyId := task.companyId
    taskId := task.id
    agentId := agent.id
    attempt := task.attempt + 1
    state := .created
    input := task.input
    output := none
    handoff := []
    error := none
    costUsd := 0
    stepsCount := 0
    startedAt := none
    finishedAt := none
    createdAt := now }
  modify fun w => { w with agentRuns := w.agentRuns ++ [run] }
  pure run

/-- `_take`: lease the task; resume a run or start a new attempt. -/
def take (task : Task) (agent : Agent) (workerId : String) (now : Time)
    (resume : Option AgentRun) : Tx Claim := do
  let run ← resume.elim (startAttempt task agent now) pure
  let token ← uuid7
  updateTask task.id fun t => { t with
    leaseOwner := some workerId
    leaseUntil := some (now + tm.lease)
    leaseToken := some token
    availableAt := none }
  transitionTask task.id .running
  let task ← theTask task.id
  emitTask task (.taskStarted run.id agent.id task.attempt) (some run)
  pure ⟨task, run, agent, token, resume.isSome⟩

-- `order_by(Task.priority, Task.created_at)`
def best (tasks : List Task) : Option Task :=
  (tasks.insertionSort fun a b =>
    a.priority < b.priority ∨ (a.priority = b.priority ∧ a.createdAt ≤ b.createdAt)).head?

/-- The rows the claim query selects for an agent, with those another transaction
has locked skipped. -/
def claimable (w : World) (agent : Agent) (locked : List Id) (task : Task) : Bool :=
  task.companyId = agent.companyId && task.requiredRole = agent.role && task.state = .ready &&
    task.attempt < task.maxAttempts && task.availableAt.all (· ≤ w.now) &&
    !(w.agentRuns.any fun r => r.taskId = task.id && r.state = .waitingApproval) &&
    task.id ∉ locked

def claimNext (agent : Agent) (workerId : String) (locked : List Id) :
    Tx (Option Claim) := do
  let w ← get
  match w.openRun? agent.id with
  | some openRun => do
    require (openRun.state = .waitingApproval)
      (.agentBusy s!"agent {agent.id} already has an unfinished run")
    let task ← orRaise (.agentBusy s!"agent {agent.id} is waiting for an approval")
      (w.tasks.find? fun t => t.id = openRun.taskId && t.state = .ready && t.id ∉ locked)
    let claim ← tm.take task agent workerId w.now (some openRun)
    pure (some claim)
  | none =>
    match best (w.tasks.filter (claimable w agent locked)) with
    | none => pure none
    | some task => do
      let claim ← tm.take task agent workerId w.now none
      pure (some claim)

def heartbeat (claim : Claim) : Tx Time := do
  let task ← lockedTask claim
  let now ← clock
  updateTask task.id fun t => { t with leaseUntil := some (now + tm.lease) }
  pure (now + tm.lease)

/-! Finishing. -/

-- `_ms`
def milliseconds (start stop : Time) : Nat := (stop - start) / 1000

def succeed (claim : Claim) (output : Option Dict) (outputSummary : Option String) :
    Tx (List UnlockedTask) := do
  let task ← lockedTask claim
  let run ← runOf claim
  let now ← clock
  updateTask task.id fun t => { t with output := output }
  releaseLease task.id
  transitionTask task.id .succeeded
  let unlocked ← tm.finished task.id
  emitTask task (.taskSucceeded (some run.id) outputSummary unlocked) (some run)
  let handoff := unlocked.map fun u => Handoff.mk u.requiredRole u.taskId
  updateRun run.id fun r => { r with output := output, handoff := handoff }
  finishRun run.id .completed now
  let task ← theTask task.id
  let run ← theRun run.id
  let links ← tm.activityLinks task (some run)
  setActivityUnlessPaused claim.agent
    (.agentRunCompleted outputSummary run.costUsd run.stepsCount
      (milliseconds (run.startedAt.getD run.createdAt) now) handoff none [])
    { taskContext task (some run) with links := links }
  pure unlocked

def backoff (attempt : Nat) : Nat := min tm.retryMax (tm.retryBase * 2 ^ (attempt - 1))

-- `getattr(ended, "error_class", "LeaseExpired")`
def errorClassOf : Payload → String
  | .agentRunFailed errorClass .. => errorClass
  | _ => "LeaseExpired"

/-- RUNNING to READY with backoff, after a non-final failure or an expired lease. -/
def requeue (task : Task) (run : Option AgentRun) (ended : Payload) : Tx Unit := do
  let now ← clock
  updateTask task.id fun t => { t with availableAt := some (now + tm.backoff t.attempt) }
  transitionTask task.id .ready
  emitTask task (.taskFailed (run.map (·.id)) false (errorClassOf ended)) run
  emitTask task (.taskReady task.requiredRole) none
  forSome run fun run => do
    emitTask task ended (some run)
    let agent ← theAgent run.agentId
    taskActivity agent (.agentIdle .runEnded) task (some run)

/-- Returns whether the task will be retried. -/
def fail (claim : Claim) (errorClass message : String) (retryable : Bool) : Tx Bool := do
  let task ← lockedTask claim
  let run ← runOf claim
  let now ← clock
  updateRun run.id fun r => { r with error := some ⟨errorClass, truncate message⟩ }
  finishRun run.id .failed now
  let retry := retryable && task.attempt < task.maxAttempts
  let failed := Payload.agentRunFailed errorClass (truncate message) task.attempt (!retry)
  releaseLease task.id
  if retry = true then do
    tm.requeue task (some run) failed
    pure true
  else do
    transitionTask task.id .failed
    emitTask task (.taskFailed (some run.id) true errorClass) (some run)
    taskActivity claim.agent failed task (some run)
    tm.failed task.id
    pure false

/-- budget: the task is BLOCKED_BUDGET until it is released; policy: it fails for
good; otherwise it is cancelled. -/
def abort (claim : Claim) (reason : AbortReason) (message : Option String) :
    Tx Unit := do
  let task ← lockedTask claim
  let run ← runOf claim
  abortRun run.id reason message
  releaseLease task.id
  if reason = .budget then do
    transitionTask task.id .blockedBudget
    emitTask task .taskBlocked (some run)
    emitTask task (.agentRunAborted .budget message false) (some run)
    setActivityUnlessPaused claim.agent (.agentWaiting .budget none (some task.id) [])
      (taskContext task none)
  else if reason = .policy then do
    transitionTask task.id .failed
    emitTask task (.taskFailed (some run.id) true "PolicyDenied") (some run)
    taskActivity claim.agent (.agentRunAborted .policy message true) task (some run)
    tm.failed task.id
  else do
    transitionTask task.id .cancelled
    emitTask task (.taskCancelled (message.getD "human")) (some run)
    taskActivity claim.agent (.agentIdle .runEnded) task (some run)
    tm.failed task.id

/-- Cancel a task from outside a claim; its unfinished run is ended first. -/
def cancel (taskId : Id) (reason : String) : Tx Unit := do
  let task ← theTask taskId
  if task.state.final = true then pure ()
  else do
    let w ← get
    let run := w.openRunOf? task.id
    forSome run fun run => abortRun run.id .human (some reason)
    let waiting ← agentsWaitingOn task
    let waitingAgents := waiting.filter fun a => run.all fun r => a.id ≠ r.agentId
    releaseLease task.id
    transitionTask task.id .cancelled
    emitTask task (.taskCancelled reason) run
    forSome run fun run => do
      let agent ← theAgent run.agentId
      taskActivity agent (.agentIdle .runEnded) task (some run)
    forEach (fun agent => setActivityUnlessPaused agent (.agentIdle .waitingCleared) {})
      waitingAgents
    tm.failed task.id

/-! Approvals. -/

/-- Release the worker and keep the run open, waiting for a decision. -/
def suspendForApproval (claim : Claim) (approval : Id) : Tx Unit := do
  let task ← lockedTask claim
  let run ← runOf claim
  let path ← orFail .fsm (agentRunFsm.shortestPath AgentRunState.all run.state .waitingApproval)
  forEach (fun hop => transitionRun run.id hop) path
  releaseLease task.id
  transitionTask task.id .waitingApproval
  emitTask task (.taskWaiting .approval (some approval)) (some run)
  taskActivity claim.agent (.agentWaiting .approval (some approval) (some task.id) [])
    task (some run)

def awaitApproval (taskId approval : Id) : Tx Unit := do
  transitionTask taskId .waitingApproval
  let task ← theTask taskId
  emitTask task (.taskWaiting .approval (some approval)) none

def releaseAfterApproval (taskId : Id) : Tx Unit := do
  transitionTask taskId .ready
  let task ← theTask taskId
  emitTask task (.taskReady task.requiredRole) none

def completeWithoutRun (taskId : Id) (output : Option Dict)
    (outputSummary : Option String) : Tx (List UnlockedTask) := do
  updateTask taskId fun t => { t with output := output }
  transitionTask taskId .succeeded
  let unlocked ← tm.finished taskId
  let task ← theTask taskId
  emitTask task (.taskSucceeded none outputSummary unlocked) none
  pure unlocked

def failWithoutRun (taskId : Id) (errorClass message : String) : Tx Unit := do
  updateTask taskId fun t => { t with
    output := some [("error_class", .str errorClass), ("message", .str message)] }
  transitionTask taskId .failed
  let task ← theTask taskId
  emitTask task (.taskFailed none true errorClass) none
  tm.failed taskId

/-! Maintenance. -/

/-- One blocked task after its budget was raised: READY, or FAILED when it has no
attempt left. -/
def releaseBlockedTask (taskId : Id) : Tx Unit := do
  let task ← theTask taskId
  if task.attempt < task.maxAttempts then markReady task.id
  else do
    transitionTask task.id .failed
    emitTask task (.taskFailed none true "BudgetExhausted") none
    tm.failed task.id

def releaseBlocked (company : Id) (locked : List Id) : Tx Nat := do
  let w ← get
  let tasks := w.tasks.filter fun t =>
    t.companyId = company && t.state = .blockedBudget && t.id ∉ locked
  forEach (fun t => tm.releaseBlockedTask t.id) tasks
  pure tasks.length

/-- One expired lease: its run is aborted, the task is retried or fails for good. -/
def reapTask (taskId : Id) : Tx Unit := do
  let task ← theTask taskId
  let w ← get
  let run := w.openRunOf? task.id
  let agent := run.bind fun r => w.agent? r.agentId
  let retry : Bool := task.attempt < task.maxAttempts
  let leaseUntil ← orRaise .attributeError task.leaseUntil
  let message := s!"lease expired at {isoformat leaseUntil}"
  let expired := Payload.agentRunAborted .timeout (some message) (!retry)
  forSome run fun run => abortRun run.id .timeout (some message)
  releaseLease task.id
  if retry = true then tm.requeue task run expired
  else do
    transitionTask task.id .failed
    emitTask task (.taskFailed (run.map (·.id)) true "LeaseExpired") run
    forSome agent fun agent => taskActivity agent expired task run
    tm.failed task.id

def reapExpiredLeases (limit : Nat) (locked : List Id) : Tx (List Id) := do
  let w ← get
  let tasks := (w.tasks.filter fun t =>
    t.state = .running && t.leaseUntil.any (· < w.now) && t.id ∉ locked).take limit
  forEach (fun t => tm.reapTask t.id) tasks
  pure (tasks.map (·.id))

end TaskManager

end Autora
