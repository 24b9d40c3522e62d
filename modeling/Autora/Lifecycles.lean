import Autora.Fsm

/-! The lifecycles of tasks, agent runs and workflow runs. -/

namespace Autora

inductive TaskState where
  | pending | ready | running | waitingApproval | blockedBudget | succeeded | failed | cancelled
  deriving DecidableEq, Repr

inductive AgentRunState where
  | created | running | waitingApproval | evaluating | repairing | completed | failed | aborted
  deriving DecidableEq, Repr

inductive WorkflowRunState where
  | running | succeeded | failed | cancelled
  deriving DecidableEq, Repr

def TaskState.value : TaskState → String
  | pending => "PENDING"
  | ready => "READY"
  | running => "RUNNING"
  | waitingApproval => "WAITING_APPROVAL"
  | blockedBudget => "BLOCKED_BUDGET"
  | succeeded => "SUCCEEDED"
  | failed => "FAILED"
  | cancelled => "CANCELLED"

def AgentRunState.value : AgentRunState → String
  | created => "CREATED"
  | running => "RUNNING"
  | waitingApproval => "WAITING_APPROVAL"
  | evaluating => "EVALUATING"
  | repairing => "REPAIRING"
  | completed => "COMPLETED"
  | failed => "FAILED"
  | aborted => "ABORTED"

def WorkflowRunState.value : WorkflowRunState → String
  | running => "RUNNING"
  | succeeded => "SUCCEEDED"
  | failed => "FAILED"
  | cancelled => "CANCELLED"

def AgentRunState.all : List AgentRunState :=
  [created, running, waitingApproval, evaluating, repairing, completed, failed, aborted]

/-- `AGENT_RUN_TERMINAL`. -/
def agentRunTerminal : List AgentRunState := [.completed, .failed, .aborted]

/-- `TASK_FSM`. -/
def taskFsm : StateMachine TaskState where
  entityType := "task"
  value := TaskState.value
  transitions
    | .pending => [.ready, .cancelled]
    | .ready => [.running, .waitingApproval, .blockedBudget, .cancelled, .succeeded, .failed]
    | .running => [.succeeded, .failed, .ready, .waitingApproval, .blockedBudget, .cancelled]
    | .waitingApproval => [.ready, .succeeded, .cancelled]
    | .blockedBudget => [.ready, .failed, .cancelled]
    | .succeeded | .failed | .cancelled => []

/-- `AGENT_RUN_FSM`. -/
def agentRunFsm : StateMachine AgentRunState where
  entityType := "agent_run"
  value := AgentRunState.value
  transitions
    | .created => [.running, .aborted]
    | .running => [.evaluating, .waitingApproval, .failed, .aborted]
    | .waitingApproval => [.running, .aborted]
    | .evaluating => [.completed, .repairing, .failed, .aborted]
    | .repairing => [.running, .failed, .aborted]
    | .completed | .failed | .aborted => []

/-- `WORKFLOW_RUN_FSM`. -/
def workflowRunFsm : StateMachine WorkflowRunState where
  entityType := "workflow_run"
  value := WorkflowRunState.value
  transitions
    | .running => [.succeeded, .failed, .cancelled]
    | .succeeded | .failed | .cancelled => []

/-- A task that can never move again. -/
def TaskState.final (s : TaskState) : Bool := taskFsm.isTerminal s

-- ended without success: what depends on it can never run
def TaskState.dead (s : TaskState) : Bool := s = .failed || s = .cancelled

-- unlocked and not ended
def TaskState.active (s : TaskState) : Bool := !s.final && s ≠ .pending

def WorkflowRunState.final (s : WorkflowRunState) : Bool := workflowRunFsm.isTerminal s

/-- `state not in AGENT_RUN_TERMINAL`: the run is unfinished. -/
def AgentRunState.isOpen (s : AgentRunState) : Bool := !(s ∈ agentRunTerminal)

theorem TaskState.final_iff {s : TaskState} :
    s.final = true ↔ s = .succeeded ∨ s = .failed ∨ s = .cancelled := by
  cases s <;> decide

theorem WorkflowRunState.final_iff {s : WorkflowRunState} :
    s.final = true ↔ s ≠ .running := by
  cases s <;> decide

theorem TaskState.dead_iff {s : TaskState} : s.dead = true ↔ s = .failed ∨ s = .cancelled := by
  cases s <;> decide

theorem TaskState.final_of_dead {s : TaskState} (h : s.dead = true) : s.final = true := by
  cases s <;> first | rfl | cases h

theorem TaskState.final_of_active {s : TaskState} (h : s.active = true) : s.final = false := by
  cases s <;> first | rfl | cases h

/-- A final state allows no move. -/
theorem TaskState.not_can_of_final {s t : TaskState} (h : s.final = true) :
    taskFsm.can s t = false := by
  rcases final_iff.mp h with rfl | rfl | rfl <;> rfl

/-- The final states of the agent run machine are the ones the queries call terminal. -/
theorem agentRun_terminal_iff (s : AgentRunState) :
    agentRunFsm.isTerminal s = true ↔ s.isOpen = false := by
  cases s <;> decide

/-- Every unfinished run can be brought to any end, along a path that stays
open until its last move. -/
theorem agentRun_end_path {s t : AgentRunState} (hs : s.isOpen = true) (ht : t.isOpen = false) :
    ∃ path, agentRunFsm.shortestPath AgentRunState.all s t = .ok path ∧
      path.getLast? = some t ∧ ∀ h ∈ path.dropLast, h.isOpen = true := by
  cases s <;> cases t <;>
    first
      | exact absurd hs (by decide)
      | exact absurd ht (by decide)
      | exact ⟨_, rfl, by decide, by decide⟩

/-- Every unfinished run can be suspended for an approval, staying open. -/
theorem agentRun_suspend_path {s : AgentRunState} (hs : s.isOpen = true) :
    ∃ path, agentRunFsm.shortestPath AgentRunState.all s .waitingApproval = .ok path ∧
      ∀ h ∈ path, h.isOpen = true := by
  cases s <;>
    first
      | exact absurd hs (by decide)
      | exact ⟨_, rfl, by decide⟩

end Autora
