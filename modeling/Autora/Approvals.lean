import Autora.Lib.Systems
import Autora.World

/-! `ApprovalService`: requests, decisions, and the pass that expires what is
overdue, hands it to a delegate once and asks again. A transaction that raises
is no step. -/

namespace Autora.Approvals

open Systems

-- DELEGATE_WINDOW: six hours
def delegateWindow : Int := 21600000000

structure ApprovalService where
  /-- The actions with a registered delegate. -/
  delegates : List String
  defaultExpiry : Int
  positive : 0 < defaultExpiry

inductive Actor where
  | human (id : Nat)
  | agent (id : Nat)
  | system (name : String)
  deriving DecidableEq, Repr

inductive DecisionOutcome where
  | approve | reject | revise
  deriving DecidableEq, Repr

structure Approval where
  id : Nat
  refType : String
  refId : Nat
  taskId : Option Nat
  runId : Option Nat
  action : Option String
  state : ApprovalState
  expiresAt : Int
  decidedBy : Option Actor
  reason : Option String
  /-- `payload["delegated"]["task_id"]`. -/
  delegated : Option Nat
  /-- `payload["delegated_before"]`. -/
  delegatedBefore : Bool
  /-- The approval its renewals began with; not stored. -/
  chain : Nat
  /-- The expiry it was created with; not stored. -/
  askedUntil : Int
  deriving DecidableEq, Repr

structure Task where
  state : TaskState
  /-- The agents that have claimed it. -/
  agents : List Nat
  deriving DecidableEq, Repr

/-- A task's id is its place in the table. -/
structure Desk where
  now : Int
  approvals : List Approval
  tasks : List Task

structure Request where
  refType : String
  refId : Nat
  taskId : Option Nat
  runId : Option Nat
  action : Option String
  expiresAfter : Option Int

inductive Answer where
  | declined | failed | started
  deriving DecidableEq, Repr

/-- What one `expire_due` meets: what each approval's delegate answers, the rows it
skips as locked, and the tasks the workflow cancels after a delegate's own. -/
structure Pass where
  answers : Nat → Answer
  lockedApprovals : List Nat
  lockedTasks : List Nat
  fallen : Nat → List Nat

inductive Act where
  | tick (d : Nat)
  | addTask
  | moveTask (t : Nat) (state : TaskState)
  | claim (t agent : Nat)
  | cancel (t : Nat)
  | requestForRun (t run : Nat) (action : Option String) (expiresAfter : Option Int)
  | requestForTask (t : Nat) (action : Option String) (expiresAfter : Option Int)
  | request (refType : String) (refId : Nat) (action : Option String) (expiresAfter : Option Int)
  | decide (i : Nat) (outcome : DecisionOutcome) (actor : Actor) (reason : Option String)
      (hookRaises : Bool) (fallen : List Nat)
  | decideDelegated (i : Nat) (outcome : DecisionOutcome) (actor : Actor) (reason : String)
      (t : Nat) (hookRaises : Bool)
  | expireDue (pass : Pass)

def Approval.isPending (a : Approval) : Bool := a.state == .pending

def Approval.sameRef (a : Approval) (refType : String) (refId : Nat) : Bool :=
  a.refType == refType && a.refId == refId

/-- `reason and reason.strip()`. -/
def spoken : Option String → Bool
  | none => false
  | some reason => reason.toList.any fun c => !c.isWhitespace

namespace Desk

variable (cfg : ApprovalService) (s : Desk)

def stateOf (t : Nat) : Option TaskState := s.tasks[t]?.map Task.state

def setTask (t : Nat) (state : TaskState) : Desk :=
  { s with tasks := s.tasks.modify t fun task => { task with state } }

/-- `TaskManager.cancel`: nothing happens to a task that has ended. -/
def cancel (t : Nat) : Desk :=
  { s with
    tasks := s.tasks.modify t fun task =>
      if task.state.final then task else { task with state := .cancelled } }

def cancelAll (ts : List Nat) : Desk := ts.foldl cancel s

def get (i : Nat) : Option Approval := s.approvals.find? (·.id == i)

def amend (i : Nat) (f : Approval → Approval) : Desk :=
  { s with approvals := s.approvals.map fun a => if a.id = i then f a else a }

/-- The row `_create` adds. -/
def filing (r : Request) (delegatedBefore : Bool) (chain : Nat) : Approval :=
  let expiresAt := s.now + match r.expiresAfter with
    | some d => if d = 0 then cfg.defaultExpiry else d
    | none => cfg.defaultExpiry
  { id := s.approvals.length, refType := r.refType, refId := r.refId, taskId := r.taskId
    runId := r.runId, action := r.action, state := .pending, expiresAt, decidedBy := none
    reason := none, delegated := none, delegatedBefore, chain, askedUntil := expiresAt }

/-- `_create`. -/
def create (r : Request) (delegatedBefore : Bool) (chain : Nat) : Option Desk :=
  if s.approvals.any fun a => a.sameRef r.refType r.refId && a.isPending then none
  else some { s with approvals := s.approvals ++ [s.filing cfg r delegatedBefore chain] }

/-- `_release_delegate`. -/
def releaseDelegate (a : Approval) (decidedBy : Option Actor) (fallen : List Nat) : Desk :=
  match a.delegated with
  | none => s
  | some t =>
    match s.stateOf t, decidedBy with
    | none, _ => s
    | some _, some (.agent _) => s
    | some state, _ => if state.final then s else (s.cancel t).cancelAll fallen

end Desk

def DecisionOutcome.target : DecisionOutcome → ApprovalState
  | approve => .approved
  | reject => .rejected
  | revise => .returned

/-- Where a waiting task goes: `release_after_approval`, `cancel` or `complete_without_run`. -/
def DecisionOutcome.taskState (outcome : DecisionOutcome) (runId : Option Nat) : TaskState :=
  match outcome, runId with
  | .reject, _ => .cancelled
  | .approve, some _ => .ready
  | _, _ => .succeeded

namespace Desk

variable (cfg : ApprovalService) (s : Desk)

/-- `_decide`. -/
def settle (i : Nat) (outcome : DecisionOutcome) (actor : Actor) (reason : Option String)
    (hookRaises : Bool) (fallen : List Nat) : Option Desk :=
  match s.get i with
  | none => none
  | some a =>
    if a.state ≠ .pending then none
    else if outcome = .revise ∧ (spoken reason = false ∨ a.taskId = none ∨ a.runId ≠ none) then none
    else if hookRaises then none
    else
      let s := (s.releaseDelegate a (some actor) fallen).amend i fun a =>
        { a with state := outcome.target, decidedBy := some actor, reason }
      match a.taskId with
      | none => some s
      | some t =>
        if s.stateOf t = some .waitingApproval then
          some (s.setTask t (outcome.taskState a.runId))
        else some s

def decide (i : Nat) (outcome : DecisionOutcome) (actor : Actor) (reason : Option String)
    (hookRaises : Bool) (fallen : List Nat) : Option Desk :=
  match actor with
  | .human _ => s.settle i outcome actor reason hookRaises fallen
  | _ => none

def decideDelegated (i : Nat) (outcome : DecisionOutcome) (actor : Actor) (reason : String)
    (t : Nat) (hookRaises : Bool) : Option Desk :=
  match actor with
  | .agent _ =>
    if outcome = .revise ∨ spoken (some reason) = false then none
    else
      match s.get i with
      | none => none
      | some a =>
        if (a.action.any fun action => cfg.delegates.contains action) = true ∧
            a.delegated = some t then
          s.settle i outcome actor (some reason) hookRaises []
        else none
  | _ => none

/-- The delegate's task is new, and the approval waits for it a while longer. -/
def handed (i : Nat) : Desk :=
  { s.amend i fun a =>
      { a with delegated := some s.tasks.length, expiresAt := s.now + delegateWindow } with
    tasks := s.tasks ++ [⟨.ready, []⟩] }

/-- `_delegate`: nothing when the approval is left to expire. -/
def delegate (pass : Pass) (a : Approval) : Option Desk :=
  if (a.action.any fun action => cfg.delegates.contains action) = true ∧
      a.delegated = none ∧ a.delegatedBefore = false ∧ pass.answers a.id = .started then
    some (s.handed a.id)
  else none

/-- The loop over what is due: the delegated stay, the ids of the others are returned. -/
def handOver (pass : Pass) : Desk → List Nat → Desk × List Nat
  | s, [] => (s, [])
  | s, i :: due =>
    match (s.get i).bind (s.delegate cfg pass) with
    | some s => handOver pass s due
    | none => let (s, expired) := handOver pass s due; (s, i :: expired)

/-- `_failed_delegations`. -/
def failedDelegations (pass : Pass) (due : List Nat) : List Nat :=
  (s.approvals.filter fun a =>
    a.isPending && !pass.lockedApprovals.contains a.id && !due.contains a.id &&
      a.delegated.any fun t => (s.stateOf t).all TaskState.final).map Approval.id

def expire (pass : Pass) : Desk → List Nat → Option Desk
  | s, [] => some s
  | s, i :: rest =>
    match s.get i with
    | none => none
    | some a =>
      if a.state ≠ .pending then none
      else
        expire pass ((s.releaseDelegate a none (pass.fallen i)).amend i fun a =>
          { a with state := .expired }) rest

def latest (t : Nat) : Option Approval :=
  (s.approvals.filter fun a => a.taskId == some t).getLast?

/-- `renew_waiting`; the payload of the new one is `_after_delegation`'s. -/
def renewWaiting (pass : Pass) : Desk → List Nat → Option Desk
  | s, [] => some s
  | s, t :: rest =>
    match s.latest t with
    | none => renewWaiting pass s rest
    | some a =>
      if s.stateOf t = some .waitingApproval ∧ t ∉ pass.lockedTasks ∧ a.state = .expired then
        (s.create cfg ⟨a.refType, a.refId, a.taskId, a.runId, a.action, none⟩
          (a.delegated.isSome || a.delegatedBefore) a.chain).bind fun s => renewWaiting pass s rest
      else renewWaiting pass s rest

def due (pass : Pass) : List Nat :=
  (s.approvals.filter fun a => a.isPending && Decidable.decide (a.expiresAt ≤ s.now) &&
    !pass.lockedApprovals.contains a.id).map Approval.id

def expireDue (pass : Pass) : Option Desk :=
  let due := s.due pass
  let (s, expired) := s.handOver cfg pass due
  (s.expire pass (expired ++ s.failedDelegations pass due)).bind fun s =>
    s.renewWaiting cfg pass (List.range s.tasks.length)

def step : Act → Option Desk
  | .tick d => some { s with now := s.now + d }
  | .addTask => some { s with tasks := s.tasks ++ [⟨.pending, []⟩] }
  | .moveTask t state =>
    match s.stateOf t with
    | none => none
    | some current =>
      if taskFsm.can current state ∧ current ≠ .waitingApproval ∧ state ≠ .waitingApproval then
        some (s.setTask t state)
      else none
  | .claim t agent =>
    if s.stateOf t = some .ready then
      some { s with
        tasks := s.tasks.modify t fun task => ⟨.running, task.agents ++ [agent]⟩ }
    else none
  | .cancel t => some (s.cancel t)
  | .requestForRun t run action expiresAfter =>
    if s.stateOf t = some .running then
      (s.create cfg ⟨"agent_run", run, some t, some run, action, expiresAfter⟩ false
        s.approvals.length).map fun s => s.setTask t .waitingApproval
    else none
  | .requestForTask t action expiresAfter =>
    if s.stateOf t = some .ready then
      (s.create cfg ⟨"task", t, some t, none, action, expiresAfter⟩ false
        s.approvals.length).map fun s => s.setTask t .waitingApproval
    else none
  | .request refType refId action expiresAfter =>
    s.create cfg ⟨refType, refId, none, none, action, expiresAfter⟩ false s.approvals.length
  | .decide i outcome actor reason hookRaises fallen =>
    s.decide i outcome actor reason hookRaises fallen
  | .decideDelegated i outcome actor reason t hookRaises =>
    -- the tool passes the agent and the task of the claim it runs under
    if (s.tasks[t]?.any fun task => task.agents.any fun agent => actor == .agent agent) = true then
      s.decideDelegated cfg i outcome actor reason t hookRaises
    else none
  | .expireDue pass => s.expireDue cfg pass

end Desk

/-- No approval and no task, at any time. -/
def approvals (cfg : ApprovalService) : System Desk Act where
  init := fun s => s.approvals = [] ∧ s.tasks = []
  step := fun s act t => s.step cfg act = some t

end Autora.Approvals
