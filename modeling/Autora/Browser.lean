import Autora.Reducer

/-! The browser's reducer. Its strings of time are compared after `Date.parse`,
which keeps whole milliseconds. -/

namespace Autora.Realtime.Browser

-- FINISHED_TASK_WINDOW_MS
def finishedTaskWindowMs : Nat := 10 * 60 * 1000

-- RECENT_EVENTS_VIEW
def recentEventsView : Nat := 100

-- RECENT_EVENTS_KEPT
def recentEventsKept : Nat := 500

/-- `Date.parse` of the JSON of a time. -/
def parseDate (t : Time) : Nat := t / 1000

structure Progress where
  label : String
  current : Nat
  target : Option Nat

structure LiveProgress where
  runId : Option Id
  stepSeq : Nat
  tokensSoFar : Nat
  progress : Option Progress
  at_ : Time

structure AgentState where
  id : Id
  role : String
  displayName : String
  avatarKey : String
  place : Placement
  activity : Option ActivityView
  liveProgress : Option LiveProgress

structure RealtimeState where
  companyId : Id
  lastSeq : Nat
  agents : Id → Option AgentState
  tasks : Id → Option TaskView
  recentEvents : List Event
  cycle : Option CycleView

/-- `ACTIVITY_BY_TYPE`. -/
def activityByType : List (String × ActivityState) :=
  [("AGENT_IDLE", .idle), ("AGENT_RESUMED", .idle), ("AGENT_THINKING", .thinking),
    ("AGENT_WORKING", .working), ("AGENT_WAITING", .waiting), ("AGENT_REVIEWING", .reviewing),
    ("AGENT_RUN_COMPLETED", .completed), ("AGENT_RUN_FAILED", .failed),
    ("AGENT_RUN_ABORTED", .failed), ("AGENT_PAUSED", .paused)]

/-- `TASK_STATE_BY_TYPE`. -/
def taskStateByType : List (String × TaskState) :=
  [("TASK_READY", .ready), ("TASK_STARTED", .running), ("TASK_WAITING", .waitingApproval),
    ("TASK_SUCCEEDED", .succeeded), ("TASK_CANCELLED", .cancelled),
    ("TASK_BLOCKED", .blockedBudget)]

/-- `RUNLESS`. -/
def runlessStates : List ActivityState := [.idle, .paused]

/-- `FINISHED`. -/
def finished : List TaskState := [.succeeded, .failed, .cancelled]

def hydrate (snapshot : RealtimeSnapshot) : RealtimeState where
  companyId := snapshot.companyId
  lastSeq := snapshot.lastSeq
  agents := keyedBy AgentView.id
    (fun a => ⟨a.id, a.role, a.displayName, a.avatarKey, a.place, some a.activity, none⟩)
    snapshot.agents
  tasks := keyedBy TaskView.id id snapshot.tasks
  recentEvents := snapshot.recentEvents
  cycle := snapshot.cycle

/-- Past the window at a moment of the browser's milliseconds. -/
def stale (task : TaskView) (at_ : Nat) : Bool :=
  finished.contains task.state && decide (parseDate task.since + finishedTaskWindowMs ≤ at_)

def pruneFinishedTasks (state : RealtimeState) (at_ : Nat) : RealtimeState :=
  { state with tasks := fun id => (state.tasks id).filter fun task => !stale task at_ }

def withActivity (agent : AgentState) (state : ActivityState) (payload : Payload) (e : Event)
    (seq : Nat) (current : RealtimeState) : AgentState :=
  let runless := runlessStates.contains state
  let taskName := if runless then none else e.taskId.bind fun id =>
    (current.tasks id).map TaskView.displayName
  let runId := if runless then none else e.runId
  let taskId := if runless then none else e.taskId
  let workflowRunId := if runless then none else e.workflowRunId
  let since := match agent.activity with
    | some previous => if previous.storedState = state then previous.since else e.occurredAt
    | none => e.occurredAt
  { agent with
    activity := some
      { state, storedState := state
        detail := ⟨payload, runId, taskId, workflowRunId, taskName.filter (· != ""), none⟩
        since, runId, taskId, lastEventSeq := seq }
    liveProgress := agent.liveProgress.filter (·.runId == runId) }

def withTaskEvent (task : TaskView) (e : Event) (seq : Nat) : TaskView :=
  let next := { task with since := e.occurredAt, lastEventSeq := seq }
  match e.body with
  | .runtime (.taskFailed _ final _) => if final then { next with state := .failed } else next
  | body =>
    let next := match taskStateByType.lookup body.eventType with
      | some target => { next with state := target }
      | none => next
    match body with
    | .runtime (.taskStarted runId agentId attempt) =>
      { next with attempt, runId := some runId, agentId := some agentId }
    | _ => next

/-- Not the last word on a run: kept in the trace only. -/
def traceOnly : Payload → Bool
  | .agentRunFailed _ _ _ final => final == false
  | .agentRunAborted _ _ final => final == false
  | _ => false

/-- An `AGENT_*` event that names an activity, or a `TASK_*` event. -/
def applyRest (state : RealtimeState) (e : Event) (seq : Nat) : RealtimeState :=
  match e.body, activityByType.lookup e.body.eventType with
  | .runtime payload, some activityState =>
    if traceOnly payload then state
    else
      { state with
        agents := amend state.agents e.agentId fun agent =>
          withActivity agent activityState payload e seq state }
  | body, _ =>
    if body.isTask then
      { state with tasks := amend state.tasks e.taskId fun task => withTaskEvent task e seq }
    else state

def applyKnown (state : RealtimeState) (e : Event) (seq : Nat) : RealtimeState :=
  match e.body with
  | .runtime (.agentCreated role displayName _ avatarKey place) =>
    match e.agentId with
    | some id =>
      { state with
        agents := Function.update state.agents id
          (some ⟨id, role, displayName, avatarKey, place, none, none⟩) }
    | none => state
  | .runtime (.agentAssigned role _ place) =>
    { state with agents := amend state.agents e.agentId fun agent => { agent with role, place } }
  | .runtime (.cycleStarted number stage deadline) =>
    match e.cycleId with
    | some id => { state with cycle := some ⟨id, number, stage, deadline⟩ }
    | none => state
  | .runtime (.cycleStageChanged _ toStage deadline) =>
    { state with cycle := state.cycle.map fun cycle => { cycle with stage := toStage, deadline } }
  | .runtime (.agentRetired ..) =>
    match e.agentId with
    | some id => { state with agents := Function.update state.agents id none }
    | none => state
  | .runtime (.taskCreated name displayName requiredRole dependsOn workflowRunId _) =>
    match e.taskId with
    | some id =>
      { state with
        tasks := Function.update state.tasks id
          (some ⟨id, name, displayName, requiredRole, .pending, dependsOn, workflowRunId, 0,
            none, none, e.occurredAt, seq⟩) }
    | none => state
  | _ => applyRest state e seq

/-- `applyOne`, with nothing for an event that is ignored. -/
def applyOne (state : RealtimeState) (e : Event) : Option RealtimeState :=
  match e.seq with
  | none => none
  | some seq =>
    if seq ≤ state.lastSeq ∨ e.companyId ≠ state.companyId then none
    else
      some (applyKnown
        { state with
          lastSeq := seq
          recentEvents := (state.recentEvents ++ [e]).rtake recentEventsKept } e seq)

def applyEvent (state : RealtimeState) (e : Event) : RealtimeState :=
  match applyOne state e with
  | none => state
  | some next => pruneFinishedTasks next (parseDate e.occurredAt)

structure EphemeralMessage where
  eventType : String
  agentId : Option Id
  runId : Option Id
  stepSeq : Option Nat
  tokensSoFar : Option Nat
  progress : Option Progress
  occurredAt : Time

def applyEphemeral (state : RealtimeState) (m : EphemeralMessage) : RealtimeState :=
  if m.eventType ≠ "AGENT_STEP_PROGRESS" then state
  else
    { state with
      agents := amend state.agents m.agentId fun agent =>
        { agent with
          liveProgress := some
            ⟨m.runId, m.stepSeq.getD 0, m.tokensSoFar.getD 0, m.progress, m.occurredAt⟩ } }

def effectiveState (activity : ActivityView) (now : Nat) : ActivityState :=
  if activity.storedState = .completed then
    match activity.detail.payload.displayUntil with
    | some until_ => if parseDate until_ ≤ now then .idle else activity.storedState
    | none => activity.storedState
  else activity.storedState

def isTaskVisible (task : TaskView) (now : Nat) : Bool :=
  !finished.contains task.state || decide (now < parseDate task.since + finishedTaskWindowMs)

def AgentState.view (agent : AgentState) (now : Nat) : Option AgentView :=
  agent.activity.map fun activity =>
    ⟨agent.id, agent.role, agent.displayName, agent.avatarKey, agent.place,
      { activity with state := effectiveState activity now }⟩

/-- The projection at `now`, a `Date`: milliseconds. -/
def RealtimeState.view (state : RealtimeState) (now : Nat) : View where
  companyId := state.companyId
  lastSeq := state.lastSeq
  agents := fun id => (state.agents id).bind (·.view now)
  tasks := fun id => (state.tasks id).filter (isTaskVisible · now)
  recentEvents := state.recentEvents.rtake recentEventsView
  cycle := state.cycle

end Autora.Realtime.Browser
