import Autora.World

/-! Agent activity: the state is read off the event's payload, and the row and
its event are written together. -/

namespace Autora

open Transactions

/-- `_STATE_BY_PAYLOAD`. -/
def stateByPayload : Payload → Option ActivityState
  | .agentIdle .. => some .idle
  | .agentResumed .. => some .idle
  | .agentThinking .. => some .thinking
  | .agentWorking .. => some .working
  | .agentWaiting .. => some .waiting
  | .agentReviewing .. => some .reviewing
  | .agentRunCompleted .. => some .completed
  | .agentRunFailed .. => some .failed
  | .agentRunAborted .. => some .failed
  | .agentPaused .. => some .paused
  | _ => none

-- COMPLETED_DISPLAY: twenty seconds
def completedDisplay : Nat := 20000000

-- the "display_until" key of a payload's JSON
def Payload.displayUntil : Payload → Option Time
  | .agentRunCompleted _ _ _ _ _ displayUntil _ => displayUntil
  | _ => none

-- the "links" key of a payload's JSON
def Payload.links : Payload → Option (List Link)
  | .agentThinking _ _ links => some links
  | .agentWorking _ _ _ links => some links
  | .agentReviewing _ _ _ links => some links
  | .agentRunCompleted _ _ _ _ _ _ links => some links
  | _ => none

-- the "blocked_task_id" key of a payload's JSON
def Payload.blockedTaskId : Payload → Option Id
  | .agentWaiting _ _ blockedTaskId _ => blockedTaskId
  | _ => none

def Payload.isNonFinalEnd : Payload → Bool
  | .agentRunFailed _ _ _ final => !final
  | .agentRunAborted _ _ final => !final
  | _ => false

def effectiveState (state : ActivityState) (detail : Detail) (now : Time) : ActivityState :=
  if state = .completed then
    match detail.payload.displayUntil with
    | some displayUntil => if displayUntil ≤ now then .idle else state
    | none => state
  else state

/-- `_check`: the moves that would lose information are refused. -/
def checkActivity (current : ActivityState) (payload : Payload) : Except Err Unit :=
  if (stateByPayload payload).isNone then .error (.activity (.doesNotChange payload.eventType))
  else if payload.isNonFinalEnd then .error (.activity .traceData)
  else match payload with
    | .agentPaused _ =>
      if current = .paused then .error (.activity .alreadyPaused) else .ok ()
    | .agentResumed _ =>
      if current = .paused then .ok () else .error (.activity (.cannotResume current))
    | .agentIdle reason =>
      if current = .paused then .error (.activity (.notUntilResumed payload.eventType))
      else match reason with
        | .initialized => .error (.activity (.idleNotValid reason current))
        | .failureAcknowledged =>
          if current = .failed then .ok () else .error (.activity (.idleNotValid reason current))
        | .waitingCleared =>
          if current = .waiting then .ok () else .error (.activity (.idleNotValid reason current))
        | .runEnded => .ok ()
    | _ =>
      if current = .paused then .error (.activity (.notUntilResumed payload.eventType))
      else .ok ()

/-- The run, task and workflow an activity event is about, and the links to its work. -/
structure ActivityContext where
  runId : Option Id := none
  taskId : Option Id := none
  workflowRunId : Option Id := none
  taskName : Option String := none
  links : List Link := []

-- `model_copy`: display_until when it is missing, and the links where the payload has the key
def completePayload (payload : Payload) (links : List Link) (now : Time) : Payload :=
  match payload with
  | .agentRunCompleted summary cost steps duration handoff displayUntil own =>
    .agentRunCompleted summary cost steps duration handoff
      (some (displayUntil.getD (now + completedDisplay))) (if links.isEmpty then own else links)
  | .agentThinking phase stepSeq own =>
    .agentThinking phase stepSeq (if links.isEmpty then own else links)
  | .agentWorking tool callId stepSeq own =>
    .agentWorking tool callId stepSeq (if links.isEmpty then own else links)
  | .agentReviewing phase attempt issues own =>
    .agentReviewing phase attempt issues (if links.isEmpty then own else links)
  | payload => payload

def ActivityState.runless (state : ActivityState) : Bool := state = .idle || state = .paused

-- "detail.update": empty values are left out, as `if v` does
def activityDetail (payload : Payload) (runless : Bool) (runId taskId workflowRunId : Option Id)
    (taskName : Option String) (links : List Link) : Detail where
  payload := payload
  runId := if runless then none else runId
  taskId := if runless then none else taskId
  workflowRunId := if runless then none else workflowRunId
  taskName := if runless then none else taskName.filter (· ≠ "")
  links := if !links.isEmpty && !runless then some links else payload.links

/-- `_write`: emit the event, then write the row from it. -/
def writeActivity (agent : Agent) (payload : Payload) (state : ActivityState)
    (current : Option AgentActivity) (ctx : ActivityContext) : Tx Unit := do
  let now ← clock
  let payload := completePayload payload ctx.links now
  let envelope ← emit {
    seq := 0
    companyId := agent.companyId
    occurredAt := now
    aggregateType := if ctx.runId.isSome then "agent_run" else "agent"
    aggregateId := ctx.runId.getD agent.id
    agentId := some agent.id
    taskId := ctx.taskId
    runId := ctx.runId
    workflowRunId := ctx.workflowRunId
    cycleId := none
    correlationId := none
    payload := payload }
  let detail := activityDetail payload state.runless ctx.runId ctx.taskId ctx.workflowRunId
    ctx.taskName ctx.links
  let row : AgentActivity := {
    agentId := agent.id
    companyId := agent.companyId
    state := state
    detail := detail
    runId := detail.runId
    taskId := detail.taskId
    since := match current with
      | some current => if current.state = state then current.since else now
      | none => now
    lastEventSeq := envelope.seq }
  -- insert ... on conflict do update
  modify fun w =>
    if (w.activity? agent.id).isSome then
      { w with agentActivity := w.agentActivity.map fun a => if a.agentId = agent.id then row else a }
    else { w with agentActivity := w.agentActivity ++ [row] }

def initializeActivity (agent : Agent) : Tx Unit := do
  let w ← get
  require ((w.activity? agent.id).isNone = true) (.activity .alreadyInitialized)
  writeActivity agent (.agentIdle .initialized) .idle none {}

def setActivity (agent : Agent) (payload : Payload) (ctx : ActivityContext) : Tx Unit := do
  let w ← get
  let current ← orRaise (.activity .notInitialized) (w.activity? agent.id)
  match checkActivity current.state payload, stateByPayload payload with
  | .ok (), some state => writeActivity agent payload state (some current) ctx
  | .ok (), none => throw (.activity (.doesNotChange payload.eventType))
  | .error e, _ => throw e

/-- A PAUSED agent stays PAUSED: nothing is written and there is no event. -/
def setActivityUnlessPaused (agent : Agent) (payload : Payload) (ctx : ActivityContext) :
    Tx Unit := do
  let w ← get
  if (w.activity? agent.id).map (·.state) = some .paused then pure ()
  else setActivity agent payload ctx

end Autora
