import Autora.Lib.Systems
import Autora.Dag

/-! The runtime as a whole: the transactions its parts run against one database,
one at a time, in any order. A transaction that raises changes nothing. -/

namespace Autora

open Transactions Systems

/-- `AgentRunner._start`: the worker that made the claim starts or resumes the run. -/
def startRun (tm : TaskManager) (claim : Claim) : Tx Unit := do
  let _ ← tm.heartbeat claim
  transitionRun claim.run.id .running
  if claim.resumed = true then pure ()
  else do
    let now ← clock
    updateRun claim.run.id fun r => { r with startedAt := some now }

/-- `AgentRunner._evaluate`: the run's answer is checked, and repaired if it has to be. -/
def evaluate (tm : TaskManager) (claim : Claim) (repair : Bool) : Tx Unit := do
  let _ ← tm.heartbeat claim
  transitionRun claim.run.id .evaluating
  if repair = true then do
    transitionRun claim.run.id .repairing
    transitionRun claim.run.id .running
  else pure ()

inductive Op where
  | tick (d : Nat)
  | addTask (args : TaskArgs)
  | markReady (task : Id)
  | claimNext (agent : Id) (workerId : String) (locked : List Id)
  | heartbeat (claim : Claim)
  | startRun (claim : Claim)
  | evaluate (claim : Claim) (repair : Bool)
  | succeed (claim : Claim) (output : Option Dict) (summary : Option String)
  | fail (claim : Claim) (errorClass message : String) (retryable : Bool)
  | abort (claim : Claim) (reason : AbortReason) (message : Option String)
  | cancel (task : Id) (reason : String)
  | suspendForApproval (claim : Claim) (approval : Id)
  | awaitApproval (task approval : Id)
  | releaseAfterApproval (task : Id)
  | completeWithoutRun (task : Id) (output : Option Dict) (summary : Option String)
  | failWithoutRun (task : Id) (errorClass message : String)
  | releaseBlocked (company : Id) (locked : List Id)
  | reapExpiredLeases (limit : Nat) (locked : List Id)
  | instantiate (template : String) (company project : Id) (params : Dict) (cycle : Option Id)
  | cancelRun (run : Id) (reason : String)

/-- The transaction of an operation; a claim that is made is handed to its worker. -/
def Op.exec (e : WorkflowEngine) (tm : TaskManager) : Op → Tx (Option Claim)
  | tick d => do
    modify fun w => { w with now := w.now + d }
    pure none
  | addTask args => do
    let _ ← TaskManager.addTask args
    pure none
  | markReady task => do
    TaskManager.markReady task
    pure none
  | claimNext agent workerId locked => do
    let agent ← theAgent agent
    tm.claimNext agent workerId locked
  | heartbeat claim => do
    let _ ← tm.heartbeat claim
    pure none
  | startRun claim => do
    Autora.startRun tm claim
    pure none
  | evaluate claim repair => do
    Autora.evaluate tm claim repair
    pure none
  | succeed claim output summary => do
    let _ ← tm.succeed claim output summary
    pure none
  | fail claim errorClass message retryable => do
    let _ ← tm.fail claim errorClass message retryable
    pure none
  | abort claim reason message => do
    tm.abort claim reason message
    pure none
  | cancel task reason => do
    tm.cancel task reason
    pure none
  | suspendForApproval claim approval => do
    TaskManager.suspendForApproval claim approval
    pure none
  | awaitApproval task approval => do
    TaskManager.awaitApproval task approval
    pure none
  | releaseAfterApproval task => do
    TaskManager.releaseAfterApproval task
    pure none
  | completeWithoutRun task output summary => do
    let _ ← tm.completeWithoutRun task output summary
    pure none
  | failWithoutRun task errorClass message => do
    tm.failWithoutRun task errorClass message
    pure none
  | releaseBlocked company locked => do
    let _ ← tm.releaseBlocked company locked
    pure none
  | reapExpiredLeases limit locked => do
    let _ ← tm.reapExpiredLeases limit locked
    pure none
  | instantiate template company project params cycle => do
    let _ ← e.instantiate template company project params cycle
    pure none
  | cancelRun run reason => do
    e.cancel run reason
    pure none

/-- The database and the claims that were handed out. -/
structure Runtime where
  db : World
  claims : List Claim

/-- The operation as a transaction on its own: it commits, or nothing happened. -/
def Runtime.after (e : WorkflowEngine) (tm : TaskManager) (s : Runtime) (op : Op) : Runtime :=
  match op.exec e tm s.db with
  | .ok (claim, w) => ⟨w, s.claims ++ claim.toList⟩
  | .error _ => s

/-- What the callers of an operation see to. Claims are only ever handed out by
`claim_next`; a task is unlocked when it is PENDING, or blocked with an attempt
left; only a READY task asks for an approval of its own or fails as a service;
only one that waits for an approval is released from it. -/
def Op.Called (s : Runtime) : Op → Prop
  | heartbeat claim | startRun claim | evaluate claim _ | succeed claim _ _ | fail claim _ _ _
  | abort claim _ _ | suspendForApproval claim _ => claim ∈ s.claims
  | markReady task => ∀ t, s.db.task? task = some t →
      t.state = .pending ∨ (t.state = .blockedBudget ∧ t.attempt < t.maxAttempts)
  | awaitApproval task _ => ∀ t, s.db.task? task = some t → t.state = .ready
  | releaseAfterApproval task => ∀ t, s.db.task? task = some t → t.state = .waitingApproval
  | completeWithoutRun task _ _ => ∀ t, s.db.task? task = some t →
      t.state = .ready ∨ t.state = .waitingApproval
  | failWithoutRun task _ _ => ∀ t, s.db.task? task = some t → t.state = .ready
  | _ => True

/-- No task, no run and no claim yet; the agents are there with their activity. -/
def Runtime.Fresh (s : Runtime) : Prop :=
  s.db.tasks = [] ∧ s.db.agentRuns = [] ∧ s.db.workflowRuns = [] ∧ s.claims = []

def runtime (e : WorkflowEngine) (tm : TaskManager) : System Runtime Op where
  init := Runtime.Fresh
  step s op s' := op.Called s ∧ s' = s.after e tm op

variable {e : WorkflowEngine} {tm : TaskManager} {s s' : Runtime} {op : Op}

/-- A step commits what its operation returns, or changes nothing. -/
theorem after_cases (e : WorkflowEngine) (tm : TaskManager) (s : Runtime) (op : Op) :
    (∃ claim w, Returns (op.exec e tm) s.db claim w ∧
      s.after e tm op = ⟨w, s.claims ++ claim.toList⟩) ∨
    ((∃ err, op.exec e tm s.db = .error err) ∧ s.after e tm op = s) := by
  unfold Runtime.after
  cases h : op.exec e tm s.db with
  | error err => exact .inr ⟨⟨err, rfl⟩, rfl⟩
  | ok r =>
    obtain ⟨claim, w⟩ := r
    exact .inl ⟨claim, w, h, rfl⟩

end Autora
