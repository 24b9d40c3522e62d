import Autora.TaskManager

/-! The workflow engine: it turns a template into a run with one task per node
and reacts to the ends of tasks through the task manager's hooks. -/

namespace Autora

open Transactions

structure TemplateRegistry where
  templates : List WorkflowTemplate
  distinct : (templates.map (·.name)).Nodup

def TemplateRegistry.get (r : TemplateRegistry) (name : String) : Option WorkflowTemplate :=
  r.templates.find? (·.name = name)

structure WorkflowEngine where
  taskManager : TaskManager
  templates : TemplateRegistry
  -- `_cancelling`: the runs being cancelled as a whole, with the operator's reason
  cancelling : List (Id × String) := []

-- `_input`
def nodeInput (node : NodeSpec) (params : Dict) : Dict :=
  let extra : Dict := match node.service with
    | some service => if service = "" then [] else [("service", .str service)]
    | none => []
  Dict.merge (Dict.merge node.input extra) [("params", .dict params)]

-- `_render`
def render (template : TemplateSpec) (node : NodeSpec) (params : Dict) : Tx String :=
  match node.displayName params with
  | .ok text => pure text
  | .error key => throw (.workflow
      s!"{template.name}.{node.name}: display_name needs parameter {key}")

def format (text : Except String String) : Tx String :=
  match text with
  | .ok text => pure text
  | .error key => throw (.keyError key)

/-- `_tasks`: the tasks of a run in creation order. -/
def World.tasksOf (w : World) (run : Id) : List Task :=
  w.tasks.filter (·.workflowRunId = some run)

def tasksOf (run : Id) : Tx (List Task) := do
  let w ← get
  pure (w.tasksOf run)

def emitWorkflowRun (run : WorkflowRun) (payload : Payload) : Tx Unit := do
  let _ ← emit {
    seq := 0
    companyId := run.companyId
    occurredAt := 0
    aggregateType := "workflow_run"
    aggregateId := run.id
    agentId := none
    taskId := none
    runId := none
    workflowRunId := some run.id
    cycleId := run.cycleId
    correlationId := some run.id
    payload := payload }
  pure ()

def transitionWorkflowRun (run : WorkflowRun) (target : WorkflowRunState) (now : Time) :
    Tx Unit := do
  checked workflowRunFsm run.state target
  updateWorkflowRun run.id fun r => { r with state := target, finishedAt := some now }

namespace TemplateSpec

-- the first halt that fires on the check node's output
def haltOf (t : TemplateSpec) (task : Task) : Option Halt :=
  t.halts.find? fun h => h.check = task.name && h.fires (task.output.getD [])

-- the first loop that asks for another round
def loopOf (t : TemplateSpec) (task : Task) : Option Loop :=
  t.loops.find? fun l => l.check = task.name && l.again (task.output.getD [])

end TemplateSpec

/-- The rounds of a check node so far: its tasks but the first. -/
def roundsOf (siblings : List Task) (check : String) : Int :=
  (siblings.countP (·.name = check) : Int) - 1

def waitingFor (siblings : List Task) (task : Task) : List Task :=
  siblings.filter fun t => task.id ∈ t.dependsOn

/-- In creation order the last task of a name wins. -/
def latest (siblings : List Task) (name : String) : Option Task :=
  siblings.reverse.find? (·.name = name)

/-- What a repeated node waits for: the new copies of its dependencies inside the
loop, and the latest task of each dependency outside it. -/
def roundDeps (inside : String → Bool) (new : List (String × Id)) (siblings : List Task)
    (node : NodeSpec) : List Id :=
  node.dependsOn.filterMap fun d =>
    if inside d then new.lookup d else (latest siblings d).map (·.id)

namespace WorkflowEngine

variable (e : WorkflowEngine)

/-- Close the run when no task of it is left unfinished. The siblings a caller
passes are live rows, the same as reading them again. -/
def closeIfDone (runId : Id) : Tx Unit := do
  let w ← get
  match w.workflowRun? runId with
  | none => pure ()
  | some run =>
    let tasks := w.tasksOf runId
    if run.state.final = true ∨ ∃ t ∈ tasks, t.state.final = false then pure ()
    else do
      let now ← clock
      let duration := TaskManager.milliseconds run.createdAt now
      if ∀ t ∈ tasks, t.state = .succeeded then do
        transitionWorkflowRun run .succeeded now
        emitWorkflowRun run (.workflowRunCompleted duration)
      else match tasks.find? (·.state = .failed) with
        | some first => do
          transitionWorkflowRun run .failed now
          emitWorkflowRun run (.workflowRunFailed duration (some first.id)
            (some s!"task {first.name} failed"))
        | none => do
          let reason := (e.cancelling.lookup runId).getD "tasks cancelled"
          transitionWorkflowRun run .cancelled now
          emitWorkflowRun run (.workflowRunCancelled duration reason)

-- `_cancel_waiting`
def cancelWaiting (tm : TaskManager) (waiting : List Task) (reason : String) : Tx Unit :=
  forEach (fun t => do
    let downstream ← theTask t.id
    if downstream.state.final = true then pure ()
    else tm.cancel downstream.id reason) waiting

/-- `_halt`: a veto cancels what waited for the task. -/
def halt (tm : TaskManager) (task : Task) (runId : Id) (siblings : List Task) : Tx Bool := do
  let w ← get
  let found := do
    let run ← w.workflowRun? runId
    let template ← e.templates.get run.templateName
    template.haltOf task
  match found with
  | none => pure false
  | some halt => do
    let reason ← format (halt.reason task.name)
    cancelWaiting tm (waitingFor siblings task) reason
    e.closeIfDone runId
    pure true

/-- The tasks of a new round, in the order of the loop's body. -/
def addRound (run : WorkflowRun) (template : TemplateSpec) (loop : Loop) (task : Task)
    (siblings : List Task) : Tx (List (String × Id)) :=
  foldEach (fun new node => do
    let nodeParams := if node.name = loop.backTo then
      Dict.merge run.params (loop.carry (task.output.getD [])) else run.params
    let name ← render template node run.params
    let displayName ← format
      (loop.roundLabel name (roundsOf siblings loop.check + 2).toNat)
    let id ← TaskManager.addTask {
      companyId := run.companyId
      projectId := run.projectId
      workflowRunId := some run.id
      cycleId := run.cycleId
      name := node.name
      displayName := displayName
      requiredRole := node.requiredRole
      dependsOn := roundDeps (template.inside loop) new siblings node
      input := nodeInput node nodeParams
      outputSchemaRef := node.outputSchemaRef
      budgetUsd := node.budgetUsd
      maxAttempts := node.maxAttempts
      priority := node.priority
      ready := some !(node.dependsOn.any (template.inside loop)) }
    pure (new ++ [(node.name, id)])) [] (template.loopBody loop)

-- `again.id if d == task.id else d`
def rewire (old new : Id) (deps : List Id) : List Id :=
  deps.map fun d => if d = old then new else d

/-- Start another round: add its tasks, and let what waited for the check node
wait for the new copy of it. -/
def startRound (run : WorkflowRun) (template : TemplateSpec) (loop : Loop) (task : Task)
    (siblings : List Task) : Tx (List UnlockedTask) := do
  let new ← addRound run template loop task siblings
  let again ← orRaise (.keyError loop.check) (new.lookup loop.check)
  forEach (fun t => updateTask t.id fun t => { t with
    dependsOn := rewire task.id again t.dependsOn }) (waitingFor siblings task)
  emitWorkflowRun run (.workflowRunExtended s!"{task.name} asked for another round"
    (roundsOf siblings loop.check + 2).toNat (new.map (·.2)))
  let w ← get
  pure ((new.filterMap fun n => w.task? n.2).filterMap fun t =>
    if t.state = .ready then some ⟨t.id, t.requiredRole⟩ else none)

/-- `_loop`: another round if a loop asks for one and has rounds left; when they
are used up, what waited for the task is cancelled. -/
def loop (tm : TaskManager) (task : Task) (runId : Id) (siblings : List Task) :
    Tx (Option (List UnlockedTask)) := do
  let w ← get
  let found := do
    let run ← w.workflowRun? runId
    let template ← e.templates.get run.templateName
    let loop ← template.loopOf task
    pure (run, template, loop)
  match found with
  | none => pure none
  | some (run, template, loop) =>
    if roundsOf siblings loop.check ≥ loop.maxRounds then do
      cancelWaiting tm (waitingFor siblings task)
        s!"{task.name} still asks for another round after {loop.maxRounds} rounds"
      e.closeIfDone runId
      pure (some [])
    else do
      let unlocked ← startRound run template.toTemplateSpec loop task siblings
      pure (some unlocked)

/-- Downstream of a finished task: ready when every dependency has succeeded. -/
def unlock (task : Task) (siblings : List Task) : Tx (List UnlockedTask) :=
  let succeeded := (siblings.filter (·.state = .succeeded)).map (·.id)
  foldEach (fun unlocked t => do
    let downstream ← theTask t.id
    if task.id ∈ downstream.dependsOn ∧ downstream.state = .pending ∧
        downstream.dependsOn ⊆ succeeded then do
      TaskManager.markReady downstream.id
      pure (unlocked ++ [⟨downstream.id, downstream.requiredRole⟩])
    else pure unlocked) [] siblings

def onTaskFinished (tm : TaskManager) (taskId : Id) : Tx (List UnlockedTask) := do
  let task ← theTask taskId
  match task.workflowRunId with
  | none => pure []
  | some runId => do
    let siblings ← tasksOf runId
    let halted ← e.halt tm task runId siblings
    if halted = true then pure []
    else do
      let looped ← e.loop tm task runId siblings
      match looped with
      | some unlocked => pure unlocked
      | none => do
        let unlocked ← unlock task siblings
        e.closeIfDone runId
        pure unlocked

/-- Nothing that depends on a failed or cancelled task can run any more. -/
def onTaskFailed (tm : TaskManager) (taskId : Id) : Tx Unit := do
  let task ← theTask taskId
  match task.workflowRunId with
  | none => pure ()
  | some runId => do
    let siblings ← tasksOf runId
    forEach (fun t => do
      let downstream ← theTask t.id
      if taskId ∈ downstream.dependsOn ∧ downstream.state.final = false then
        tm.cancel downstream.id s!"upstream {task.name} {task.state.value.map Char.toLower}"
      else pure ()) siblings
    e.closeIfDone runId

/-- The task manager the engine's hooks call again: cancelling a task calls the
hook, which cancels tasks. One level for each nested call. -/
def manager : Nat → TaskManager
  | 0 => { e.taskManager with
      onTaskFinished := some fun _ => throw .recursion
      onTaskFailed := some fun _ => throw .recursion }
  | n + 1 => { e.taskManager with
      onTaskFinished := some (e.onTaskFinished (manager n))
      onTaskFailed := some (e.onTaskFailed (manager n)) }

/-- The task manager bound to the engine. Every nested cancellation ends a task
for good, so the number of tasks bounds the nesting. -/
def bound : TaskManager :=
  { e.taskManager with
    onTaskFinished := some fun task => do
      let w ← get
      e.onTaskFinished (e.manager w.tasks.length) task
    onTaskFailed := some fun task => do
      let w ← get
      e.onTaskFailed (e.manager w.tasks.length) task }

/-- Cancel every unfinished task of the run, with the operator's reason. -/
def cancel (runId : Id) (reason : String) : Tx Unit := do
  let e := { e with cancelling := (runId, reason) :: e.cancelling }
  let tasks ← tasksOf runId
  cancelWaiting e.bound tasks reason
  e.closeIfDone runId

/-- A run of the template with one task per node. -/
def instantiate (templateName : String) (companyId projectId : Id) (params : Dict)
    (cycleId : Option Id) : Tx Id := do
  let template ← orRaise (.workflow s!"unknown workflow template '{templateName}'")
    (e.templates.get templateName)
  let order := template.order
  let ids ← foldEach (fun ids (node : NodeSpec) => do
    let id ← uuid7
    pure (ids ++ [(node.name, id)])) [] order
  let display ← foldEach (fun display (node : NodeSpec) => do
    let text ← render template.toTemplateSpec node params
    pure (display ++ [(node.name, text)])) [] order
  let runId ← uuid7
  let now ← clock
  let run : WorkflowRun := {
    id := runId
    companyId := companyId
    projectId := projectId
    cycleId := cycleId
    templateName := template.name
    params := params
    state := .running
    finishedAt := none
    createdAt := now }
  modify fun w => { w with workflowRuns := w.workflowRuns ++ [run] }
  emitWorkflowRun run (.workflowRunCreated template.name params projectId (ids.map (·.2)))
  forEach (fun (node : NodeSpec) => do
    let id ← orRaise (.keyError node.name) (ids.lookup node.name)
    let displayName ← orRaise (.keyError node.name) (display.lookup node.name)
    let _ ← TaskManager.addTask {
      taskId := some id
      companyId := companyId
      projectId := projectId
      workflowRunId := some runId
      cycleId := cycleId
      name := node.name
      displayName := displayName
      requiredRole := node.requiredRole
      -- every dependency is a node of the template
      dependsOn := node.dependsOn.filterMap fun d => ids.lookup d
      input := nodeInput node params
      outputSchemaRef := node.outputSchemaRef
      budgetUsd := node.budgetUsd
      maxAttempts := node.maxAttempts
      priority := node.priority }
    pure ()) order
  pure runId

end WorkflowEngine

end Autora
