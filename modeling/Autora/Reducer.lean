import Mathlib.Data.List.DropRight
import Mathlib.Logic.Function.Basic
import Autora.Lib.Systems
import Autora.Activity

/-! The reference reducer of the backend: a snapshot and events give the office
view. Dictionaries are functions of their key, as views are compared key by key. -/

namespace Autora.Realtime

-- FINISHED_TASK_WINDOW: ten minutes
def finishedTaskWindow : Nat := 600000000

-- RECENT_EVENTS
def recentEvents : Nat := 100

/-- The event types a reducer asks for by name. -/
def reducedTypes : List String :=
  ["AGENT_CREATED", "AGENT_ASSIGNED", "CYCLE_STARTED", "CYCLE_STAGE_CHANGED", "AGENT_RETIRED",
    "AGENT_IDLE", "AGENT_RESUMED", "AGENT_THINKING", "AGENT_WORKING", "AGENT_WAITING",
    "AGENT_REVIEWING", "AGENT_RUN_COMPLETED", "AGENT_RUN_FAILED", "AGENT_RUN_ABORTED",
    "AGENT_PAUSED", "TASK_CREATED", "TASK_READY", "TASK_STARTED", "TASK_WAITING",
    "TASK_SUCCEEDED", "TASK_FAILED", "TASK_CANCELLED", "TASK_BLOCKED"]

/-- A payload of the runtime, or one of a kind no reducer knows by name. -/
inductive Body where
  | runtime (payload : Payload)
  | other (eventType : String) (unnamed : eventType ∉ reducedTypes)

def Body.eventType : Body → String
  | runtime payload => payload.eventType
  | other eventType _ => eventType

-- event.event_type.startswith("TASK_")
def Body.isTask (b : Body) : Bool := "TASK_".toList.isPrefixOf b.eventType.toList

/-- An `EventEnvelope` as both sides parse it: `seq` is null for ephemeral ones. -/
structure Event where
  seq : Option Nat
  companyId : Id
  occurredAt : Time
  agentId : Option Id
  taskId : Option Id
  runId : Option Id
  workflowRunId : Option Id
  cycleId : Option Id
  body : Body

structure ActivityView where
  state : ActivityState
  storedState : ActivityState
  detail : Detail
  since : Time
  runId : Option Id
  taskId : Option Id
  lastEventSeq : Nat

structure AgentView where
  id : Id
  role : String
  displayName : String
  avatarKey : String
  place : Placement
  activity : ActivityView

structure TaskView where
  id : Id
  name : String
  displayName : String
  requiredRole : String
  state : TaskState
  dependsOn : List Id
  workflowRunId : Option Id
  attempt : Nat
  runId : Option Id
  agentId : Option Id
  since : Time
  lastEventSeq : Nat
  deriving DecidableEq, Repr

structure CycleView where
  id : Id
  seq : Nat
  stage : CycleStage
  deadline : Option Time
  deriving DecidableEq, Repr

structure RealtimeSnapshot where
  companyId : Id
  lastSeq : Nat
  agents : List AgentView
  tasks : List TaskView
  recentEvents : List Event
  cycle : Option CycleView

/-- What a view shows, keyed by id as `canonical` compares it. -/
structure View where
  companyId : Id
  lastSeq : Nat
  agents : Id → Option AgentView
  tasks : Id → Option TaskView
  recentEvents : List Event
  cycle : Option CycleView

/-- `_Agent`. -/
structure Agent where
  id : Id
  role : String
  displayName : String
  avatarKey : String
  place : Placement
  activity : Option ActivityView

structure RealtimeState where
  companyId : Id
  lastSeq : Nat
  cycle : Option CycleView
  agents : Id → Option Agent
  tasks : Id → Option TaskView
  recent : List Event

/-- Rewrite the entry of a key, when the key is there. -/
def amend {β : Type} (m : Id → Option β) (k : Option Id) (f : β → β) : Id → Option β :=
  fun i => if k = some i then (m i).map f else m i

/-- One entry for each row, under its id. -/
def keyedBy {α β : Type} (key : α → Id) (f : α → β) (rows : List α) : Id → Option β :=
  rows.foldl (fun m row => Function.update m (key row) (some (f row))) fun _ => none

def RealtimeState.fromSnapshot (snapshot : RealtimeSnapshot) : RealtimeState where
  companyId := snapshot.companyId
  lastSeq := snapshot.lastSeq
  cycle := snapshot.cycle
  agents := keyedBy AgentView.id
    (fun a => ⟨a.id, a.role, a.displayName, a.avatarKey, a.place, some a.activity⟩) snapshot.agents
  tasks := keyedBy TaskView.id id snapshot.tasks
  recent := snapshot.recentEvents.rtake recentEvents

/-- `_ACTIVITY`. -/
def activityByClass : Payload → Option ActivityState
  | .agentIdle .. => some .idle
  | .agentResumed .. => some .idle
  | .agentThinking .. => some .thinking
  | .agentWorking .. => some .working
  | .agentWaiting .. => some .waiting
  | .agentReviewing .. => some .reviewing
  | .agentRunCompleted .. => some .completed
  | .agentRunFailed .. => some .failed
  | .agentRunAborted .. => some .failed
  | .agentPaused .. => some .paused
  | _ => none

/-- `_RUNLESS`. -/
def runless (state : ActivityState) : Bool := state == .idle || state == .paused

/-- `_TASK_STATE`. -/
def taskStateByClass : Payload → Option TaskState
  | .taskReady .. => some .ready
  | .taskStarted .. => some .running
  | .taskWaiting .. => some .waitingApproval
  | .taskSucceeded .. => some .succeeded
  | .taskCancelled .. => some .cancelled
  | .taskBlocked => some .blockedBudget
  | _ => none

/-- `_FINISHED`. -/
def finishedStates : List TaskState := [.succeeded, .failed, .cancelled]

/-- `_activity`. -/
def Agent.record (agent : Agent) (state : ActivityState) (payload : Payload) (e : Event)
    (seq : Nat) (tasks : Id → Option TaskView) : Agent :=
  let runId := if runless state then none else e.runId
  let taskId := if runless state then none else e.taskId
  let workflowRunId := if runless state then none else e.workflowRunId
  let taskName := if runless state then none else (e.taskId.bind tasks).map TaskView.displayName
  { agent with
    activity := some
      { state, storedState := state
        detail := ⟨payload, runId, taskId, workflowRunId, taskName.filter (· != ""), none⟩
        since := match agent.activity with
          | some current => if current.storedState = state then current.since else e.occurredAt
          | none => e.occurredAt
        runId, taskId, lastEventSeq := seq } }

/-- `_task`. -/
def TaskView.record (task : TaskView) (e : Event) (seq : Nat) : TaskView :=
  let task := { task with since := e.occurredAt, lastEventSeq := seq }
  match e.body with
  | .other _ _ => task
  | .runtime (.taskFailed _ final _) => if final then { task with state := .failed } else task
  | .runtime (.taskStarted runId agentId attempt) =>
    { task with state := .running, attempt, runId := some runId, agentId := some agentId }
  | .runtime payload =>
    match taskStateByClass payload with
    | some target => { task with state := target }
    | none => task

/-- The branches of `apply`, once the event counts. -/
def RealtimeState.reduce (s : RealtimeState) (e : Event) (seq : Nat) : RealtimeState :=
  match e.body with
  | .runtime (.agentCreated role displayName _ avatarKey place) =>
    match e.agentId with
    | some id =>
      { s with
        agents := Function.update s.agents id
          (some ⟨id, role, displayName, avatarKey, place, none⟩) }
    | none => s
  | .runtime (.agentAssigned role _ place) =>
    { s with agents := amend s.agents e.agentId fun agent => { agent with role, place } }
  | .runtime (.cycleStarted number stage deadline) =>
    match e.cycleId with
    | some id => { s with cycle := some ⟨id, number, stage, deadline⟩ }
    | none => s
  | .runtime (.cycleStageChanged _ toStage deadline) =>
    { s with cycle := s.cycle.map fun cycle => { cycle with stage := toStage, deadline } }
  | .runtime (.agentRetired ..) =>
    match e.agentId with
    | some id => { s with agents := Function.update s.agents id none }
    | none => s
  | .runtime (.taskCreated name displayName requiredRole dependsOn workflowRunId _) =>
    match e.taskId with
    | some id =>
      { s with
        tasks := Function.update s.tasks id
          (some ⟨id, name, displayName, requiredRole, .pending, dependsOn, workflowRunId, 0,
            none, none, e.occurredAt, seq⟩) }
    | none => s
  | .runtime payload =>
    match activityByClass payload with
    | some state =>
      if payload.isNonFinalEnd then s
      else
        { s with
          agents := amend s.agents e.agentId fun agent =>
            agent.record state payload e seq s.tasks }
    | none =>
      if e.body.isTask then { s with tasks := amend s.tasks e.taskId (·.record e seq) } else s
  | .other _ _ =>
    if e.body.isTask then { s with tasks := amend s.tasks e.taskId (·.record e seq) } else s

def RealtimeState.apply (s : RealtimeState) (e : Event) : RealtimeState :=
  match e.seq with
  | none => s
  | some seq =>
    if seq ≤ s.lastSeq ∨ e.companyId ≠ s.companyId then s
    else
      { s with lastSeq := seq, recent := (s.recent ++ [e]).rtake recentEvents }.reduce e seq

/-- `_effective`. -/
def effective (activity : ActivityView) (now : Time) : ActivityState :=
  if activity.storedState = .completed then
    match activity.detail.payload.displayUntil with
    | some displayUntil => if displayUntil ≤ now then .idle else activity.storedState
    | none => activity.storedState
  else activity.storedState

def Agent.view (agent : Agent) (now : Time) : Option AgentView :=
  agent.activity.map fun activity =>
    ⟨agent.id, agent.role, agent.displayName, agent.avatarKey, agent.place,
      { activity with state := effective activity now }⟩

def TaskView.finished (task : TaskView) : Bool := finishedStates.contains task.state

def RealtimeState.view (s : RealtimeState) (now : Time) : View where
  companyId := s.companyId
  lastSeq := s.lastSeq
  agents := fun id => (s.agents id).bind (·.view now)
  tasks := fun id => (s.tasks id).filter fun task =>
    !task.finished || decide (now < task.since + finishedTaskWindow)
  recentEvents := s.recent
  cycle := s.cycle

end Autora.Realtime
