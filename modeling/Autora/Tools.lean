import Autora.ModelGateway

/-! `ToolRegistry.invoke`. TOOL_CALLED commits alone; the tool runs in a second
transaction, which TOOL_COMPLETED ends; a failure's TOOL_FAILED commits in a third. -/

namespace Autora.Tools

open Transactions Refusals Untyped
open Models (storable)

inductive SideEffect where
  | read | write | irreversible
  deriving DecidableEq, Repr

/-- `dict[str, Any]`, as the model sent it. -/
abbrev Args := List (Str × Value)

structure ActorRef where
  kind : String
  id : Str
  deriving DecidableEq, Repr

/-- The ids every event of a call carries. -/
structure Refs where
  companyId : Id
  actor : ActorRef
  agentId : Option Id := none
  runId : Option Id := none
  taskId : Option Id := none
  workflowRunId : Option Id := none
  cycleId : Option Id := none
  deriving DecidableEq, Repr

structure ProducedRef where
  type : Str
  id : Id
  deriving DecidableEq, Repr

structure Progress where
  label : Str
  current : Nat
  target : Option Nat
  deriving DecidableEq, Repr

structure ToolResult where
  output : Args := []
  summary : Option Str := none
  produced : List ProducedRef := []
  costUsd : Option Usd := none
  progress : Option Progress := none

inductive EventPayload where
  | toolCalled (tool toolCallId argsSummary : Str) (sideEffect : SideEffect) (stepSeq : Nat)
  | toolCompleted (tool toolCallId : Str) (durationMs : Nat) (resultSummary : Option Str)
      (costUsd : Option Usd) (produced : List ProducedRef)
  | toolFailed (tool toolCallId errorClass message : Str) (willRetry : Bool)

namespace EventPayload

-- the limits the payload's class sets on its fields
def valid : EventPayload → Bool
  | toolCompleted _ _ _ _ costUsd _ => costUsd.all (0 ≤ ·)
  | _ => true

def texts : EventPayload → List Str
  | toolCalled tool toolCallId argsSummary _ _ => [tool, toolCallId, argsSummary]
  | toolCompleted tool toolCallId _ resultSummary _ produced =>
    [tool, toolCallId] ++ resultSummary.toList ++ produced.map (·.type)
  | toolFailed tool toolCallId errorClass message _ => [tool, toolCallId, errorClass, message]

-- the class takes it, and the events table its texts
def accepted (p : EventPayload) : Bool := p.valid && p.texts.all storable

end EventPayload

structure Event where
  payload : EventPayload
  refs : Refs

/-- The event log, and what tools have written and committed. -/
structure Store (W : Type) where
  events : List Event
  writes : List W

/-- An exception of a tool: the name of its class, what `str` gives for it if it gives
anything, and its `retryable` attribute if that is a bool. -/
structure ToolException where
  errorClass : Str
  message : Option Str
  retryable : Option Bool

/-- A `_ToolError`. -/
structure ToolError where
  errorClass : Str
  message : Str
  retryable : Bool

/-- How a tool's function ends. -/
inductive Ending where
  | returns (result : ToolResult)
  | returnsOther (typeName : Str)
  | raises (exc : ToolException)
  | raisesToolError (e : ToolError)
  -- its time is up, or it raises a TimeoutError of its own
  | timesOut
  -- a cancellation, or another exception that is no `Exception`
  | raisesBase (errorClass : String)
  -- not even its time limit ends it
  | hangs

/-- What a tool does with the session it is given. -/
structure Behaviour (W : Type) where
  /-- What it commits itself. -/
  committed : List W
  /-- What it leaves to the registry's commit. -/
  pending : List W
  ending : Ending
  /-- What the session's next statement raises, if it does. -/
  flushing : Option String
  committing : Option String

structure ToolContext where
  refs : Refs
  toolCallId : Str
  idempotencyKey : Str
  stepSeq : Nat

/-- What `model_validate` raises: its own error with each issue's place, or another one. -/
inductive Invalid where
  | validationError (issues : List (List Str × Str))
  | raises (errorClass : String)

structure ToolSpec (W : Type) where
  name : Str
  description : Str
  inputModel : Args → Except Invalid Args
  sideEffect : SideEffect
  /-- The limit, as it is printed. -/
  timeoutS : Str
  retryable : Bool
  fn : Args → ToolContext → Behaviour W

structure ToolRegistry (W : Type) where
  tools : List (Str × ToolSpec W)
  /-- `json.dumps`, keys in order. -/
  dumps : Args → Str
  /-- The digest of the arguments. -/
  digest : Args → Str

structure ToolInvocation where
  tool : Str
  toolCallId : Str
  ok : Bool
  output : Option Args
  errorClass : Option Str
  message : Option Str
  willRetry : Bool
  durationMs : Nat
  produced : List ProducedRef
  costUsd : Option Usd
  progress : Option Progress

/-- A call's arguments, and how long the tool takes. -/
structure Call where
  name : Str
  args : Args
  toolCallId : Str
  refs : Refs
  stepSeq : Nat
  durationMs : Nat

inductive Raised where
  | unknownTool (name : Str)
  | toolError (e : ToolError)
  | exception (errorClass : String)
  | base (errorClass : String)
  | never

abbrev Work (W : Type) := Refusals.Work (Store W) Raised

variable {W : Type}

def emit (refs : Refs) (p : EventPayload) : Work W PUnit := do
  ensure (p.valid = true) (.exception "ValidationError")
  ensure (p.texts.all storable = true) (.exception "DBAPIError")
  modify fun s => { s with events := s.events ++ [⟨p, refs⟩] }

def summaryLimit : Nat := 200

def decimal (n : Nat) : Str := lit (toString n)

def join (sep : Str) (parts : List Str) : Str := (parts.intersperse sep).flatten

-- `'.'.join(loc) or '(args)'`, and the issue's message
def validationMessage (issues : List (List Str × Str)) : Str :=
  join (lit "; ") (issues.map fun i =>
    (if (join (lit ".") i.1).isEmpty then lit "(args)" else join (lit ".") i.1) ++ lit ": " ++ i.2)

namespace ToolRegistry

variable (r : ToolRegistry W)

def summarize (args : Args) : Str :=
  let text := r.dumps args
  if text.length ≤ summaryLimit then text else text.take (summaryLimit - 1) ++ lit "…"

def idempotencyKey (scope : Option Id) (stepSeq : Nat) (name : Str) (args : Args) : Str :=
  (scope.elim (lit "adhoc") decimal) ++ lit ":" ++ decimal stepSeq ++ lit ":" ++ name ++ lit ":" ++
    r.digest args

def called (spec : ToolSpec W) (call : Call) : EventPayload :=
  .toolCalled call.name call.toolCallId (r.summarize call.args) spec.sideEffect call.stepSeq

def context (call : Call) : ToolContext where
  refs := call.refs
  toolCallId := call.toolCallId
  idempotencyKey := r.idempotencyKey (call.refs.taskId <|> call.refs.runId) call.stepSeq call.name
    call.args
  stepSeq := call.stepSeq

end ToolRegistry

def Call.completed (call : Call) (result : ToolResult) : EventPayload :=
  .toolCompleted call.name call.toolCallId call.durationMs result.summary result.costUsd
    result.produced

def Call.failed (call : Call) (e : ToolError) : EventPayload :=
  .toolFailed call.name call.toolCallId e.errorClass (e.message.take 2000) e.retryable

-- `f"{name} exceeded {spec.timeout_s}s"`
def timeoutError (spec : ToolSpec W) (call : Call) : ToolError :=
  ⟨lit "ToolTimeout", call.name ++ lit " exceeded " ++ spec.timeoutS ++ lit "s", spec.retryable⟩

def invalidResult (call : Call) (typeName : Str) : ToolError :=
  ⟨lit "InvalidToolResult", call.name ++ lit " returned " ++ typeName, false⟩

def invalidArguments (issues : List (List Str × Str)) : ToolError :=
  ⟨lit "InvalidToolArguments", validationMessage issues, false⟩

-- the exception may know better than the tool whether a retry can help
def ToolException.failure (spec : ToolSpec W) (exc : ToolException) (message : Str) : ToolError :=
  ⟨exc.errorClass, message, exc.retryable.getD spec.retryable⟩

/-- The tool's result, or what its end raises. -/
def ended (spec : ToolSpec W) (call : Call) : Ending → Work W ToolResult
  | .returns result => pure result
  | .returnsOther typeName => raise (.toolError (invalidResult call typeName))
  | .timesOut => raise (.toolError (timeoutError spec call))
  | .raisesToolError e => raise (.toolError e)
  | .raises exc => do
    -- `str(exc)` runs in the handler
    let message ← found (.exception "str") exc.message
    raise (.toolError (exc.failure spec message))
  | .raisesBase errorClass => raise (.base errorClass)
  | .hangs => raise .never

def raiseSome : Option String → Work W PUnit
  | none => pure ⟨⟩
  | some errorClass => raise (.exception errorClass)

-- the completion event and the commit of what the tool left pending
def complete (call : Call) (b : Behaviour W) (result : ToolResult) : Work W PUnit :=
  atomically do
    ensure ((call.completed result).valid = true) (.exception "ValidationError")
    raiseSome b.flushing
    emit call.refs (call.completed result)
    raiseSome b.committing
    modify fun s => { s with writes := s.writes ++ b.pending }

def okInvocation (call : Call) (result : ToolResult) : ToolInvocation where
  tool := call.name
  toolCallId := call.toolCallId
  ok := true
  output := some result.output
  errorClass := none
  message := none
  willRetry := false
  durationMs := call.durationMs
  produced := result.produced
  costUsd := result.costUsd
  progress := result.progress

def failedInvocation (call : Call) (e : ToolError) : ToolInvocation where
  tool := call.name
  toolCallId := call.toolCallId
  ok := false
  output := none
  errorClass := some e.errorClass
  message := some e.message
  willRetry := e.retryable
  durationMs := call.durationMs
  produced := []
  costUsd := none
  progress := none

-- the tool's transaction
def run (r : ToolRegistry W) (spec : ToolSpec W) (call : Call) : Work W ToolInvocation :=
  match spec.inputModel call.args with
  | .error (.validationError issues) => raise (.toolError (invalidArguments issues))
  | .error (.raises errorClass) => raise (.exception errorClass)
  | .ok parsed => do
    let b := spec.fn parsed (r.context call)
    modify fun s => { s with writes := s.writes ++ b.committed }
    let result ← ended spec call b.ending
    complete call b result
    pure (okInvocation call result)

-- the handler around the tool's transaction: a failure is told in a transaction of its own
def told (call : Call) : Raised → Work W ToolInvocation
  | .toolError e => do
    atomically (emit call.refs (call.failed e))
    pure (failedInvocation call e)
  | err => raise err

/-- `invoke`; the `before_call` hook writes nothing that is modelled here. -/
def ToolRegistry.invoke (r : ToolRegistry W) (call : Call) : Work W ToolInvocation := do
  let spec ← found (.unknownTool call.name) (r.tools.lookup call.name)
  atomically (emit call.refs (r.called spec call))
  handled (run r spec call) (told call)

/-! What a call leaves. -/

/-- The event ends the call, and says whether it went well. -/
def EventPayload.ends (call : Call) (ok : Bool) : EventPayload → Prop
  | .toolCompleted tool toolCallId _ _ _ _ =>
    tool = call.name ∧ toolCallId = call.toolCallId ∧ ok = true
  | .toolFailed tool toolCallId _ _ _ =>
    tool = call.name ∧ toolCallId = call.toolCallId ∧ ok = false
  | .toolCalled .. => False

/-- What the tool writes in its session, if it gets as far. -/
def ToolSpec.writes (spec : ToolSpec W) (r : ToolRegistry W) (call : Call) : List W :=
  match spec.inputModel call.args with
  | .error _ => []
  | .ok parsed =>
    let b := spec.fn parsed (r.context call)
    b.committed ++ b.pending

/-- One event says the call began and one how it ended; what the tool wrote stands if it
ended well, and nothing of it otherwise. -/
structure Answered (r : ToolRegistry W) (spec : ToolSpec W) (call : Call) (s t : Store W)
    (inv : ToolInvocation) : Prop where
  events : ∃ p : EventPayload, p.ends call inv.ok ∧
    t.events = s.events ++ [⟨r.called spec call, call.refs⟩, ⟨p, call.refs⟩]
  writes : t.writes = if inv.ok = true then s.writes ++ spec.writes r call else s.writes

/-- A failure whose event can be written, of a tool that committed nothing itself. -/
def Fails (call : Call) (committed : List W) (e : ToolError) : Prop :=
  committed = [] ∧ (call.failed e).accepted = true

/-- The tool ends in a way the registry answers for. -/
def Behaviour.Orderly (spec : ToolSpec W) (call : Call) (b : Behaviour W) : Prop :=
  match b.ending with
  | .returns result => b.flushing = none ∧ b.committing = none ∧
      (call.completed result).accepted = true
  | .returnsOther typeName => Fails call b.committed (invalidResult call typeName)
  | .timesOut => Fails call b.committed (timeoutError spec call)
  | .raisesToolError e => Fails call b.committed e
  | .raises exc => ∃ message, exc.message = some message ∧
      Fails call b.committed (exc.failure spec message)
  | .raisesBase _ | .hangs => False

/-- The arguments are taken or refused, and the tool ends in such a way. -/
def Behaved (r : ToolRegistry W) (spec : ToolSpec W) (call : Call) : Prop :=
  match spec.inputModel call.args with
  | .error (.validationError issues) => Fails call ([] : List W) (invalidArguments issues)
  | .error (.raises _) => False
  | .ok parsed => (spec.fn parsed (r.context call)).Orderly spec call

def Orderly (r : ToolRegistry W) (spec : ToolSpec W) (call : Call) : Prop :=
  (r.called spec call).accepted = true ∧ Behaved r spec call

variable {r : ToolRegistry W} {spec : ToolSpec W} {call : Call} {s t : Store W} {refs : Refs}
  {p : EventPayload} {b : Behaviour W} {result : ToolResult} {e : ToolError}

/-- The store, with one more event. -/
def Store.logged (s : Store W) (p : EventPayload) (refs : Refs) : Store W :=
  { s with events := s.events ++ [⟨p, refs⟩] }

@[simp] theorem returns_emit {a : PUnit} :
    Returns (emit refs p : Work W PUnit) s a t ↔ p.accepted = true ∧ t = s.logged p refs := by
  simp only [emit, returns_bind, returns_ensure, returns_modify, EventPayload.accepted,
    Bool.and_eq_true, Store.logged]
  constructor
  · rintro ⟨-, -, ⟨hvalid, rfl⟩, -, -, ⟨htexts, rfl⟩, rfl⟩
    exact ⟨⟨hvalid, htexts⟩, rfl⟩
  · rintro ⟨⟨hvalid, htexts⟩, rfl⟩
    exact ⟨⟨⟩, s, ⟨hvalid, rfl⟩, ⟨⟩, s, ⟨htexts, rfl⟩, rfl⟩

theorem raises_emit {err : Raised} (h : Raises (emit refs p : Work W PUnit) s err t) :
    ∃ errorClass, err = .exception errorClass := by
  simp only [emit, raises_bind, raises_ensure, raises_modify, and_false, exists_false,
    or_false] at h
  rcases h with ⟨-, herr, -⟩ | ⟨-, -, -, -, herr, -⟩ <;> exact ⟨_, herr⟩

@[simp] theorem returns_raiseSome {o : Option String} {a : PUnit} :
    Returns (raiseSome o : Work W PUnit) s a t ↔ o = none ∧ t = s := by
  cases o <;> simp [raiseSome]

theorem raises_raiseSome {o : Option String} {err : Raised}
    (h : Raises (raiseSome o : Work W PUnit) s err t) : ∃ errorClass, err = .exception errorClass := by
  cases o with
  | none => exact absurd h raises_pure
  | some errorClass => exact ⟨errorClass, (raises_raise.mp h).1⟩

@[simp] theorem returns_complete {a : PUnit} :
    Returns (complete call b result) s a t ↔
      (b.flushing = none ∧ b.committing = none ∧ (call.completed result).accepted = true) ∧
      t = { s.logged (call.completed result) call.refs with writes := s.writes ++ b.pending } := by
  simp only [complete, returns_atomically, returns_bind, returns_ensure, returns_modify,
    returns_raiseSome, returns_emit]
  constructor
  · rintro ⟨-, -, ⟨-, rfl⟩, -, -, ⟨hflush, rfl⟩, -, -, ⟨haccepted, rfl⟩, -, -, ⟨hcommit, rfl⟩, rfl⟩
    exact ⟨⟨hflush, hcommit, haccepted⟩, rfl⟩
  · rintro ⟨⟨hflush, hcommit, haccepted⟩, rfl⟩
    have hvalid : (call.completed result).valid = true := by
      simp only [EventPayload.accepted, Bool.and_eq_true] at haccepted
      exact haccepted.1
    exact ⟨⟨⟩, s, ⟨hvalid, rfl⟩, ⟨⟩, s, ⟨hflush, rfl⟩, ⟨⟩, _, ⟨haccepted, rfl⟩, ⟨⟩, _, ⟨hcommit, rfl⟩,
      rfl⟩

theorem raises_complete {err : Raised} (h : Raises (complete call b result) s err t) :
    t = s ∧ ∃ errorClass, err = .exception errorClass := by
  simp only [complete, raises_atomically, raises_bind, raises_ensure, raises_modify, and_false,
    exists_false, or_false] at h
  obtain ⟨rfl, u, hends⟩ := h
  rcases hends with ⟨-, herr, -⟩ | ⟨_, _, -, hflush | ⟨_, _, -, hemit | ⟨_, _, -, hcommit⟩⟩⟩
  · exact ⟨rfl, _, herr⟩
  · exact ⟨rfl, raises_raiseSome hflush⟩
  · exact ⟨rfl, raises_emit hemit⟩
  · exact ⟨rfl, raises_raiseSome hcommit⟩

theorem complete_lost
    (h : ¬ (b.flushing = none ∧ b.committing = none ∧ (call.completed result).accepted = true)) :
    ∃ errorClass, Raises (complete call b result) s (.exception errorClass) s := by
  rcases returns_or_raises (complete call b result) s with ⟨a, t, hret⟩ | ⟨err, t, hraise⟩
  · exact absurd (returns_complete.mp hret).1 h
  · obtain ⟨rfl, errorClass, rfl⟩ := raises_complete hraise
    exact ⟨errorClass, hraise⟩

/-- How the tool's transaction ends. -/
inductive Ran (r : ToolRegistry W) (spec : ToolSpec W) (call : Call) (s : Store W) : Prop
  /-- With its completion event. -/
  | completed (result : ToolResult) (t : Store W)
      (run : Returns (run r spec call) s (okInvocation call result) t)
      (events : t.events = s.events ++ [⟨call.completed result, call.refs⟩])
      (writes : t.writes = s.writes ++ spec.writes r call) (behaved : Behaved r spec call)
  /-- With a failure that is to be told. -/
  | failed (e : ToolError) (committed : List W)
      (run : Raises (run r spec call) s (.toolError e) { s with writes := s.writes ++ committed })
      (behaved : Behaved r spec call ↔ Fails call committed e)
  /-- With an error nothing answers for. -/
  | lost (err : Raised) (t : Store W) (run : Raises (run r spec call) s err t)
      (other : ∀ e, err ≠ .toolError e) (behaved : ¬ Behaved r spec call)

theorem ran (r : ToolRegistry W) (spec : ToolSpec W) (call : Call) (s : Store W) :
    Ran r spec call s := by
  cases hargs : spec.inputModel call.args with
  | error invalid =>
    cases invalid with
    | validationError issues =>
      refine .failed (invalidArguments issues) [] ?_ ?_
      · simp [run, hargs]
      · simp [Behaved, hargs]
    | raises errorClass =>
      refine .lost (.exception errorClass) s ?_ (by nofun) ?_
      · simp [run, hargs]
      · simp [Behaved, hargs]
  | ok parsed =>
    let b := spec.fn parsed (r.context call)
    let u : Store W := { s with writes := s.writes ++ b.committed }
    have hbehaved : Behaved r spec call ↔ b.Orderly spec call := by
      simp only [Behaved, hargs, b]
    -- what ends the tool's function ends its transaction
    have hends : ∀ err, Raises (ended spec call b.ending) u err u →
        Raises (run r spec call) s err u := by
      intro err hraise
      simp only [run, hargs]
      exact raises_bind.mpr (.inr ⟨⟨⟩, u, returns_modify.mpr rfl, raises_bind.mpr (.inl hraise)⟩)
    cases hend : b.ending with
    | returns result =>
      have hended : Returns (ended spec call b.ending) u result u := by
        rw [hend]
        exact returns_pure.mpr ⟨rfl, rfl⟩
      have horderly : b.Orderly spec call ↔ b.flushing = none ∧ b.committing = none ∧
          (call.completed result).accepted = true := by
        simp only [Behaviour.Orderly, hend]
      by_cases hok : b.flushing = none ∧ b.committing = none ∧
          (call.completed result).accepted = true
      · refine .completed result
          { u.logged (call.completed result) call.refs with writes := u.writes ++ b.pending }
          ?_ rfl ?_ (hbehaved.mpr (horderly.mpr hok))
        · simp only [run, hargs]
          exact returns_bind.mpr ⟨⟨⟩, u, returns_modify.mpr rfl, returns_bind.mpr ⟨result, u, hended,
            returns_bind.mpr ⟨⟨⟩, _, returns_complete.mpr ⟨hok, rfl⟩, returns_pure.mpr ⟨rfl, rfl⟩⟩⟩⟩
        · simp only [ToolSpec.writes, hargs, u, b, List.append_assoc]
      · obtain ⟨errorClass, hraise⟩ := complete_lost (s := u) hok
        refine .lost (.exception errorClass) u ?_ (by nofun) fun h => ?_
        · simp only [run, hargs]
          exact raises_bind.mpr (.inr ⟨⟨⟩, u, returns_modify.mpr rfl,
            raises_bind.mpr (.inr ⟨result, u, hended, raises_bind.mpr (.inl hraise)⟩)⟩)
        · exact hok (horderly.mp (hbehaved.mp h))
    | returnsOther typeName =>
      refine .failed (invalidResult call typeName) b.committed (hends _ ?_) ?_
      · simp [ended, hend, u]
      · rw [hbehaved]
        simp only [Behaviour.Orderly, hend]
    | timesOut =>
      refine .failed (timeoutError spec call) b.committed (hends _ ?_) ?_
      · simp [ended, hend, u]
      · rw [hbehaved]
        simp only [Behaviour.Orderly, hend]
    | raisesToolError e =>
      refine .failed e b.committed (hends _ ?_) ?_
      · simp [ended, hend, u]
      · rw [hbehaved]
        simp only [Behaviour.Orderly, hend]
    | raises exc =>
      cases hmessage : exc.message with
      | none =>
        refine .lost (.exception "str") u (hends _ ?_) (by nofun) fun h => ?_
        · simp [ended, hend, hmessage]
        · have horderly := hbehaved.mp h
          simp [Behaviour.Orderly, hend, hmessage] at horderly
      | some message =>
        refine .failed (exc.failure spec message) b.committed (hends _ ?_) ?_
        · simp [ended, hend, hmessage, u]
        · rw [hbehaved]
          simp [Behaviour.Orderly, hend, hmessage]
    | raisesBase errorClass =>
      refine .lost (.base errorClass) u (hends _ ?_) (by nofun) fun h => ?_
      · simp [ended, hend]
      · have horderly := hbehaved.mp h
        simp [Behaviour.Orderly, hend] at horderly
    | hangs =>
      refine .lost .never u (hends _ ?_) (by nofun) fun h => ?_
      · simp [ended, hend]
      · have horderly := hbehaved.mp h
        simp [Behaviour.Orderly, hend] at horderly

/-- A call of a registered tool returns with one event for its beginning and one for its
end, and with the tool's writes if and only if it went well, exactly when the arguments and
the tool behave. -/
theorem invoke_answered (hspec : r.tools.lookup call.name = some spec) (s : Store W) :
    (∃ inv t, Returns (r.invoke call) s inv t ∧ Answered r spec call s t inv) ↔
      Orderly r spec call := by
  by_cases hcalled : (r.called spec call).accepted = true
  case neg =>
    refine ⟨?_, fun h => absurd h.1 hcalled⟩
    rintro ⟨inv, t, hret, -⟩
    simp only [ToolRegistry.invoke, returns_bind, returns_atomically, returns_emit, returns_found,
      hspec, Option.some.injEq] at hret
    obtain ⟨_, _, ⟨rfl, -⟩, _, _, ⟨haccepted, -⟩, -⟩ := hret
    exact absurd haccepted hcalled
  let u := s.logged (r.called spec call) call.refs
  have hfound : Returns (found (.unknownTool call.name) (r.tools.lookup call.name) :
      Work W (ToolSpec W)) s spec s := returns_found.mpr ⟨hspec, rfl⟩
  have hbegun : Returns (atomically (emit call.refs (r.called spec call)) : Work W PUnit) s ⟨⟩ u :=
    returns_atomically.mpr (returns_emit.mpr ⟨hcalled, rfl⟩)
  have horderly : Orderly r spec call ↔ Behaved r spec call := and_iff_right hcalled
  rw [horderly]
  have hinvoke : ∀ {inv t}, Returns (r.invoke call) s inv t ↔
      Returns (handled (run r spec call) (told call)) u inv t := fun {inv t} =>
    (returns_after hfound).trans (returns_after hbegun)
  simp only [hinvoke, returns_handled]
  cases ran r spec call u with
  | completed result t hret hevents hwrites hbehaved =>
    refine ⟨fun _ => hbehaved, fun _ =>
      ⟨_, t, .inl hret, ⟨call.completed result, ?_, ?_⟩, hwrites⟩⟩
    · exact ⟨rfl, rfl, rfl⟩
    · rw [hevents]
      simp [u, Store.logged]
  | failed e committed hraise hbehaved =>
    rw [hbehaved]
    constructor
    · rintro ⟨inv, t, hret | ⟨err, v, herr, htold⟩, hanswered⟩
      · exact absurd hret (not_returns_of_raises hraise)
      · obtain ⟨rfl, rfl⟩ := raises_unique hraise herr
        simp only [told, returns_bind, returns_atomically, returns_emit, returns_pure] at htold
        obtain ⟨_, _, ⟨haccepted, rfl⟩, rfl, rfl⟩ := htold
        have hwrites := hanswered.writes
        simp [failedInvocation, Store.logged, u] at hwrites
        exact ⟨hwrites, haccepted⟩
    · rintro ⟨rfl, haccepted⟩
      refine ⟨failedInvocation call e, u.logged (call.failed e) call.refs,
        .inr ⟨_, _, hraise, ?_⟩, ⟨call.failed e, ?_, ?_⟩, ?_⟩
      · have htold : Returns (told call (.toolError e)) u (failedInvocation call e)
            (u.logged (call.failed e) call.refs) :=
          returns_bind.mpr ⟨⟨⟩, _, returns_atomically.mpr (returns_emit.mpr ⟨haccepted, rfl⟩),
            returns_pure.mpr ⟨rfl, rfl⟩⟩
        simpa using htold
      · exact ⟨rfl, rfl, rfl⟩
      · simp [u, Store.logged]
      · simp [u, Store.logged, failedInvocation]
  | lost err t hraise hother hbehaved =>
    refine ⟨?_, fun h => absurd h hbehaved⟩
    rintro ⟨inv, v, hret | ⟨err', v', herr, htold⟩, -⟩
    · exact absurd hret (not_returns_of_raises hraise)
    · obtain ⟨rfl, rfl⟩ := raises_unique hraise herr
      cases err with
      | toolError e => exact absurd rfl (hother e)
      | unknownTool name => exact absurd htold returns_raise
      | exception errorClass => exact absurd htold returns_raise
      | base errorClass => exact absurd htold returns_raise
      | never => exact absurd htold returns_raise

-- one tool that takes no arguments and adds one row
def noteTool (flushing : Option String) : ToolSpec Nat where
  name := lit "note"
  description := lit "Adds a note."
  inputModel := fun args => .ok args
  sideEffect := .write
  timeoutS := lit "30.0"
  retryable := false
  fn := fun _ _ =>
    { committed := [], pending := [7], ending := .returns {}, flushing := flushing
      committing := none }

def noteRegistry (flushing : Option String) : ToolRegistry Nat where
  tools := [(lit "note", noteTool flushing)]
  dumps := fun _ => lit "{}"
  digest := fun _ => lit "44136fa355b3678a"

def noteCall : Call where
  name := lit "note"
  args := []
  toolCallId := lit "call_1"
  refs := { companyId := 0, actor := ⟨"system", lit "test"⟩ }
  stepSeq := 0
  durationMs := 5

theorem invoke_answered_note :
    ∃ inv t, Returns ((noteRegistry none).invoke noteCall) ⟨[], []⟩ inv t ∧
      Answered (noteRegistry none) (noteTool none) noteCall ⟨[], []⟩ t inv :=
  (invoke_answered rfl ⟨[], []⟩).mpr ⟨by decide, rfl, rfl, by decide⟩

/-- The row the tool added breaks a constraint: the flush that TOOL_COMPLETED runs raises,
and the call is left without an end. -/
theorem call_left_unanswered :
    Raises ((noteRegistry (some "IntegrityError")).invoke noteCall) ⟨[], []⟩
      (.exception "IntegrityError")
      ⟨[⟨(noteRegistry (some "IntegrityError")).called (noteTool (some "IntegrityError")) noteCall,
        noteCall.refs⟩], []⟩ := by
  rfl

end Autora.Tools
