import Mathlib.Data.Rat.Defs
import Autora.Lifecycles

/-! Events: the payloads the runtime emits and the envelope they travel in. -/

namespace Autora

/-- A `uuid7`: a later id is a larger one. -/
abbrev Id := Nat

/-- Microseconds since the epoch, UTC. -/
abbrev Time := Nat

/-- An amount of money. -/
abbrev Usd := Rat

/-- The values JSON columns and task parameters hold. -/
inductive Json where
  | null
  | bool (b : Bool)
  | num (n : Int)
  | str (s : String)
  | list (xs : List Json)
  | dict (kvs : List (String × Json))
  deriving Repr

/-- `dict[str, Any]`, keys in insertion order. -/
abbrev Dict := List (String × Json)

/-- `a | b`: the keys of `b` win and new ones come last. -/
def Dict.merge (a b : Dict) : Dict :=
  a.map (fun kv => (kv.1, (b.lookup kv.1).getD kv.2)) ++
    b.filter fun kv => (a.lookup kv.1).isNone

inductive ActivityState where
  | idle | thinking | working | waiting | reviewing | completed | failed | paused
  deriving DecidableEq, Repr

inductive CycleStage where
  | planning | executing | measuring | reviewing | done
  deriving DecidableEq, Repr

structure Handoff where
  toRole : String
  taskId : Id
  deriving DecidableEq, Repr

structure Link where
  label : String
  href : String
  deriving DecidableEq, Repr

structure UnlockedTask where
  taskId : Id
  requiredRole : String
  deriving DecidableEq, Repr

/-- Where an agent sits: its department and what the floor inherits from it. -/
structure Placement where
  departmentId : Option Id
  departmentKey : Option String
  officeZoneKey : Option String
  businessUnitKey : Option String
  deriving DecidableEq, Repr

inductive IdleReason where
  | failureAcknowledged | waitingCleared | initialized | runEnded
  deriving DecidableEq, Repr

inductive WaitReason where
  | approval | budget | upstream | rateLimit
  deriving DecidableEq, Repr

inductive AbortReason where
  | budget | policy | timeout | human
  deriving DecidableEq, Repr

def AbortReason.value : AbortReason → String
  | budget => "budget"
  | policy => "policy"
  | timeout => "timeout"
  | human => "human"

inductive Payload where
  | agentCreated (role displayName : String) (capabilities : List String) (avatarKey : String)
      (place : Placement)
  | agentAssigned (role : String) (roleId : Id) (place : Placement)
  | agentRetired (role displayName : String) (reason : Option String)
  | agentPaused (reason : Option String)
  | agentResumed (reason : Option String)
  | agentIdle (reason : IdleReason)
  | agentRunStarted (attempt : Nat) (taskName requiredRole : String) (inputSummary : Option String)
  | agentThinking (phase : String) (stepSeq : Nat) (links : List Link)
  | agentWorking (tool toolCallId : String) (stepSeq : Nat) (links : List Link)
  | agentWaiting (reason : WaitReason) (approvalId blockedTaskId : Option Id)
      (waitingOnRoles : List String)
  | agentReviewing (phase : String) (attempt issuesCount : Nat) (links : List Link)
  | agentRunCompleted (outputSummary : Option String) (costUsd : Usd) (steps durationMs : Nat)
      (handoff : List Handoff) (displayUntil : Option Time) (links : List Link)
  | agentRunFailed (errorClass message : String) (attempt : Nat) (final : Bool)
  | agentRunAborted (reason : AbortReason) (message : Option String) (final : Bool)
  | workflowRunCreated (template : String) (params : Dict) (projectId : Id) (taskIds : List Id)
  | workflowRunExtended (reason : String) (round : Nat) (taskIds : List Id)
  | workflowRunCompleted (durationMs : Nat)
  | workflowRunFailed (durationMs : Nat) (failedTaskId : Option Id) (reason : Option String)
  | workflowRunCancelled (durationMs : Nat) (reason : String)
  | taskCreated (name displayName requiredRole : String) (dependsOn : List Id)
      (workflowRunId : Option Id) (budgetUsd : Option Usd)
  | taskReady (requiredRole : String)
  | taskStarted (runId agentId : Id) (attempt : Nat)
  | taskWaiting (reason : WaitReason) (approvalId : Option Id)
  | taskSucceeded (runId : Option Id) (outputRef : Option String) (unlocks : List UnlockedTask)
  | taskFailed (runId : Option Id) (final : Bool) (errorClass : String)
  | taskCancelled (reason : String)
  | taskBlocked
  | approvalRequested (kind refType : String) (refId : Id) (summary : String) (expiresAt : Time)
  | approvalApproved (kind refType : String) (refId : Id) (reason : Option String)
  | approvalRejected (kind refType : String) (refId : Id) (reason : Option String)
  | approvalReturned (kind refType : String) (refId : Id) (reason : String)
  | approvalExpired (kind refType : String) (refId : Id)
  | approvalDelegated (kind refType : String) (refId taskId : Id)
  | cycleStarted (seq : Nat) (stage : CycleStage) (deadline : Option Time)
  | cycleStageChanged (fromStage toStage : CycleStage) (deadline : Option Time)
  | budgetAllocated (budgetId : Id) (projectId : Option Id) (period : String) (amount : Usd)
      (currency : String)

def Payload.eventType : Payload → String
  | agentCreated .. => "AGENT_CREATED"
  | agentAssigned .. => "AGENT_ASSIGNED"
  | agentRetired .. => "AGENT_RETIRED"
  | agentPaused .. => "AGENT_PAUSED"
  | agentResumed .. => "AGENT_RESUMED"
  | agentIdle .. => "AGENT_IDLE"
  | agentRunStarted .. => "AGENT_RUN_STARTED"
  | agentThinking .. => "AGENT_THINKING"
  | agentWorking .. => "AGENT_WORKING"
  | agentWaiting .. => "AGENT_WAITING"
  | agentReviewing .. => "AGENT_REVIEWING"
  | agentRunCompleted .. => "AGENT_RUN_COMPLETED"
  | agentRunFailed .. => "AGENT_RUN_FAILED"
  | agentRunAborted .. => "AGENT_RUN_ABORTED"
  | workflowRunCreated .. => "WORKFLOW_RUN_CREATED"
  | workflowRunExtended .. => "WORKFLOW_RUN_EXTENDED"
  | workflowRunCompleted .. => "WORKFLOW_RUN_COMPLETED"
  | workflowRunFailed .. => "WORKFLOW_RUN_FAILED"
  | workflowRunCancelled .. => "WORKFLOW_RUN_CANCELLED"
  | taskCreated .. => "TASK_CREATED"
  | taskReady .. => "TASK_READY"
  | taskStarted .. => "TASK_STARTED"
  | taskWaiting .. => "TASK_WAITING"
  | taskSucceeded .. => "TASK_SUCCEEDED"
  | taskFailed .. => "TASK_FAILED"
  | taskCancelled .. => "TASK_CANCELLED"
  | taskBlocked => "TASK_BLOCKED"
  | approvalRequested .. => "APPROVAL_REQUESTED"
  | approvalApproved .. => "APPROVAL_APPROVED"
  | approvalRejected .. => "APPROVAL_REJECTED"
  | approvalReturned .. => "APPROVAL_RETURNED"
  | approvalExpired .. => "APPROVAL_EXPIRED"
  | approvalDelegated .. => "APPROVAL_DELEGATED"
  | cycleStarted .. => "CYCLE_STARTED"
  | cycleStageChanged .. => "CYCLE_STAGE_CHANGED"
  | budgetAllocated .. => "BUDGET_ALLOCATED"

/-- `event_type.startswith(prefix)`. -/
def Payload.typeStartsWith (p : Payload) (start : String) : Bool :=
  start.toList.isPrefixOf p.eventType.toList

/-- `EventEnvelope` with the `seq` the log gave it. The event id, the actor and the
schema version are left out: nothing modelled reads them back. -/
structure EventEnvelope where
  seq : Nat
  companyId : Id
  occurredAt : Time
  aggregateType : String
  aggregateId : Id
  agentId : Option Id
  taskId : Option Id
  runId : Option Id
  workflowRunId : Option Id
  cycleId : Option Id
  correlationId : Option Id
  payload : Payload

end Autora
