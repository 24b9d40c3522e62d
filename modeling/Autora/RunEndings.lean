import Autora.AgentRunner
import Autora.Lib.Refusals
import Autora.StaleClaims

/-! `AgentRunner.run`: what becomes of the exceptions its work raises, while others work
on the same database between its transactions and may take the lease away. -/

namespace Autora.Running

open Transactions Refusals Systems
open Agents (Behavior Decision ModelResponse ReplyBlock ToolUseBlock evaluated)

inductive RunStatus where
  | completed | failed | aborted | suspended | lost
  deriving DecidableEq, Repr

structure RunOutcome where
  status : RunStatus
  runId : Id
  errorClass : Option String := none
  message : Option String := none
  willRetry : Bool := false
  deriving DecidableEq, Repr

/-- What leaves a part of the runner other than by returning. -/
inductive Exc where
  | leaseLost (message : String)
  | budgetExceeded (message : String)
  | modelCallFailed (last : String)
  -- any other `Exception`, with its text if `str` gives one
  | other (errorClass : String) (message : Option String)
  -- a cancellation, or another exception that is no `Exception`
  | base (errorClass : String)
  deriving DecidableEq, Repr

/-- The answer to a model call: the heartbeats sent meanwhile, how the gateway ends, and
what a call ends with that is cancelled because a heartbeat fails. -/
structure Reply where
  beats : Nat
  ending : Except Exc ModelResponse
  cancelled : Option Exc
  /-- The parsed reply, and its summary. -/
  output : Dict
  summary : Option String

/-- What the run does not decide, by how many transactions it has begun. -/
structure Surroundings where
  /-- What others do before the transaction. -/
  others : Nat → Runtime → Runtime
  /-- An exception that ends the transaction, as its database or a hook may raise one. -/
  fault : Nat → Option Exc
  reply : Nat → Reply
  decision : Nat → Decision
  /-- The policy's reason, or the approval that is asked for. -/
  reason : Nat → String
  approval : Nat → Id
  /-- What leaves `invoke` after the call has begun. -/
  tool : Nat → Option Exc
  /-- The issues the validators find. -/
  found : Nat → List String

structure AgentRunner where
  engine : WorkflowEngine
  taskManager : TaskManager
  behavior : Behavior

/-- `_State`, as far as it decides what is done next. -/
structure Memory where
  modelCalls : Nat
  repairsUsed : Nat
  pending : List ToolUseBlock
  approved : List String

/-- The database, how many transactions have begun, and each with the state it found and
the state it left. -/
structure Progress where
  db : Runtime
  begun : Nat
  log : List (Runtime × Runtime)

def Progress.start (s : Runtime) : Progress := ⟨s, 0, []⟩

abbrev Work := Refusals.Work Progress Exc

def Exc.ofErr : Err → Exc
  | .leaseLost message => .leaseLost message
  | .fsm _ => .other "FSMError" (some "fsm")
  | .agentBusy message => .other "AgentBusy" (some message)
  | .activity _ => .other "ActivityError" (some "activity")
  | .workflow message => .other "WorkflowError" (some message)
  | .approval _ => .other "ApprovalError" (some "approval")
  | .refused message => .other "Refused" (some message)
  | .integrity constraint => .other "IntegrityError" (some constraint)
  | .keyError key => .other "KeyError" (some key)
  | .indexError => .other "IndexError" (some "index")
  | .attributeError => .other "AttributeError" (some "attribute")
  | .noRow table => .other "NoResultFound" (some table)
  | .recursion => .other "RecursionError" (some "recursion")

-- a character `str.split` splits at
def isSpace (c : Char) : Bool :=
  let n := c.toNat
  (9 ≤ n && n ≤ 13) || (28 ≤ n && n ≤ 32) || n = 0x85 || n = 0xA0 || n = 0x1680 ||
    (0x2000 ≤ n && n ≤ 0x200A) || n = 0x2028 || n = 0x2029 || n = 0x202F || n = 0x205F || n = 0x3000

/-- `_truncate`. -/
def truncateText (text : String) (limit : Nat) : String :=
  let chars := (((text.toList.splitOnP isSpace).filter (· ≠ [])).intersperse [' ']).flatten
  String.ofList (if chars.length ≤ limit then chars else chars.take (limit - 1) ++ ['…'])

def textOf (r : ModelResponse) : String :=
  String.join (r.reply.filterMap fun
    | .text s => some s
    | _ => none)

namespace AgentRunner

variable (r : AgentRunner) (env : Surroundings) (c : Claim)

/-- Operations in one transaction: all of them, or none. -/
def execAll (s : Runtime) : List Op → Except Err Runtime
  | [] => .ok s
  | op :: ops => match op.exec r.engine r.taskManager s.db with
    | .ok (claim, w) => execAll ⟨w, s.claims ++ claim.toList⟩ ops
    | .error err => .error err

/-- One transaction of the run, and the state it found. -/
def transact (ops : List Op) : Work Runtime := fun p =>
  let before := env.others p.begun p.db
  match env.fault p.begun with
  | some exc => .error (exc, ⟨before, p.begun + 1, p.log ++ [(before, before)]⟩)
  | none => match r.execAll before ops with
    | .ok after => .ok (before, ⟨after, p.begun + 1, p.log ++ [(before, after)]⟩)
    | .error err => .error (.ofErr err, ⟨before, p.begun + 1, p.log ++ [(before, before)]⟩)

def lost (message : String) : RunOutcome := ⟨.lost, c.run.id, some "LeaseLost", some message, false⟩

-- whether `fail` puts the task back in the queue
def retries (s : Runtime) (retryable : Bool) : Bool :=
  retryable && (s.db.task? c.task.id).any fun t => t.attempt < t.maxAttempts

/-- `_fail`. -/
def fail (errorClass message : String) (retryable : Bool) : Work RunOutcome :=
  handled
    (do
      let s ← r.transact env [.fail c errorClass message retryable]
      pure ⟨.failed, c.run.id, some errorClass, some message, retries c s retryable⟩)
    fun
    | .leaseLost message => pure (lost c message)
    | exc => raise exc

/-- `_keeping_the_lease`: a heartbeat that fails cancels the call, which may have ended
with an exception of its own by then. -/
def keepingTheLease (cancelled : Option Exc) : Nat → Work PUnit
  | 0 => pure ⟨⟩
  | beats + 1 => do
    let _ ← handled (r.transact env [.heartbeat c]) fun exc => raise (cancelled.getD exc)
    keepingTheLease cancelled beats

/-- `_call_model`. -/
def callModel : Work (Reply × ModelResponse) := do
  let _ ← r.transact env [.heartbeat c]
  let p ← get
  let reply := env.reply p.begun
  r.keepingTheLease env c reply.cancelled reply.beats
  let response ← vetted reply.ending
  -- `_record`
  let _ ← r.transact env [.heartbeat c]
  pure (reply, response)

-- the policy's decision, for a call that is not approved yet
def decide_ (use : ToolUseBlock) : Work (Option RunOutcome) := do
  let p ← get
  match env.decision p.begun with
  | .allow => do
    let _ ← r.transact env [.heartbeat c]
    pure none
  | .deny => do
    let message := use.name ++ ": " ++ env.reason p.begun
    let _ ← r.transact env [.heartbeat c, .abort c .policy (some message)]
    pure (some ⟨.aborted, c.run.id, some "PolicyDenied", some message, false⟩)
  | .needsApproval => do
    let approval := env.approval p.begun
    let _ ← r.transact env [.heartbeat c, .suspendForApproval c approval]
    pure (some ⟨.suspended, c.run.id, some "NeedsApproval", some s!"approval {approval}", false⟩)

/-- `_one_tool`: an outcome that ends the run, if the call does. -/
def oneTool (approved : List String) (use : ToolUseBlock) : Work (Option RunOutcome) :=
  -- a name that is not offered is answered without a transaction
  if use.name ∉ r.behavior.toolNames then pure none
  else do
    let stopped ← (if use.id ∈ approved then pure none else r.decide_ env c use)
    match stopped with
    | some outcome => pure (some outcome)
    | none => do
      -- TOOL_CALLED, with the `working` hook
      let _ ← r.transact env [.heartbeat c]
      let p ← get
      forSome (env.tool p.begun) raise
      -- `_record`
      let _ ← r.transact env [.heartbeat c]
      pure none

/-- `_act`. -/
def act (approved : List String) : List ToolUseBlock → Work (Option RunOutcome)
  | [] => pure none
  | use :: rest => do
    let stopped ← r.oneTool env c approved use
    match stopped with
    | some outcome => pure (some outcome)
    | none => act approved rest

/-- `_evaluate`: an outcome, or the reply is to be repaired. -/
def evaluate_ (m : Memory) (reply : Reply) (response : ModelResponse) :
    Work (Option RunOutcome) := do
  let p ← get
  let issues := evaluated response.parsed response.issues (env.found p.begun)
  if issues = [] then do
    let _ ← r.transact env [.evaluate c false, .succeed c (some reply.output) reply.summary]
    pure (some ⟨.completed, c.run.id, none, none, false⟩)
  else if m.repairsUsed < r.behavior.repairLimit then do
    let _ ← r.transact env [.evaluate c true]
    pure none
  else do
    let message := truncateText (String.intercalate "; " issues) 2000
    let s ← r.transact env [.evaluate c false, .fail c "EvaluationFailed" message true]
    pure (some ⟨.failed, c.run.id, some "EvaluationFailed", some message, retries c s true⟩)

/-- `_loop`, from where no calls are pending, with the model calls left. -/
def loop : Nat → Memory → Work RunOutcome
  | 0, m => r.fail env c "MaxStepsExceeded"
      (toString m.modelCalls ++ " model calls without a final answer") true
  | left + 1, m => do
    let (reply, response) ← r.callModel env c
    let m := { m with modelCalls := m.modelCalls + 1 }
    if response.stopReason = .toolUse ∧ response.toolUses ≠ [] then do
      let stopped ← r.act env c m.approved response.toolUses
      match stopped with
      | some outcome => pure outcome
      | none => loop left m
    else if response.stopReason = .refusal then
      let said := truncateText (textOf response) 200
      r.fail env c "ModelRefusal" (if said = "" then "refused" else said) false
    else do
      let stopped ← r.evaluate_ env c m reply response
      match stopped with
      | some outcome => pure outcome
      | none => loop left { m with repairsUsed := m.repairsUsed + 1 }

/-- `_start` and `_loop`, with what `_start` takes up from the stored steps. -/
def body (m : Memory) : Work RunOutcome := do
  let _ ← r.transact env [.startRun c]
  let stopped ← r.act env c m.approved m.pending
  match stopped with
  | some outcome => pure outcome
  | none => r.loop env c (r.behavior.maxSteps - m.modelCalls) m

-- the exception's text, which `str` may refuse
def strOf (message : Option String) : Work String := found (.other "TypeError" none) message

def run (m : Memory) : Work RunOutcome :=
  handled (r.body env c m) fun
    | .leaseLost message => pure (lost c message)
    | .budgetExceeded message => do
      let _ ← r.transact env [.abort c .budget (some message)]
      pure ⟨.aborted, c.run.id, some "BudgetExceeded", some message, false⟩
    | .modelCallFailed last => r.fail env c "ProviderError" last true
    | .other errorClass message => do
      let message ← strOf message
      r.fail env c errorClass message true
    | .base errorClass => raise (.base errorClass)

end AgentRunner

/-! A transaction that finds the lease lost writes nothing. -/

/-- Some transaction found the claim lost. -/
def Missed (c : Claim) (p : Progress) : Prop := ∃ x ∈ p.log, c.Lost x.1.db

/-- What holds between the transactions of a run. -/
structure Sound (c : Claim) (p : Progress) : Prop where
  leases : LeasesSound p.db
  claimed : c ∈ p.db.claims
  quiet : ∀ x ∈ p.log, c.Lost x.1.db → x.2 = x.1
  missed : Missed c p → c.Lost p.db.db

variable {r : AgentRunner} {env : Surroundings} {c : Claim} {p q : Progress} {s t : Runtime}
  {ops : List Op} {exc : Exc} {α β : Type}

/-- The others' work is a run of the same runtime. -/
def Surroundings.Interleave (env : Surroundings) (r : AgentRunner) : Prop :=
  ∀ n s, (runtime r.engine r.taskManager).Path anyStep s (env.others n s)

theorem called_of_by {op : Op} (hc : c ∈ s.claims) (h : op.By c) : op.Called s := by
  cases h <;> exact hc

theorem path_keeps (hw : Wired r.engine r.taskManager) (hs : LeasesSound s) (hc : c ∈ s.claims)
    (hp : (runtime r.engine r.taskManager).Path anyStep s t) :
    LeasesSound t ∧ c ∈ t.claims := by
  refine System.Path.invariant (I := fun s => LeasesSound s ∧ c ∈ s.claims) ?_ hp ⟨hs, hc⟩
  rintro s op _ ⟨hs, hc⟩ _ ⟨hcalled, rfl⟩
  refine ⟨hs.after hw hcalled, ?_⟩
  rcases after_cases r.engine r.taskManager s op with ⟨o, w, -, he⟩ | ⟨-, he⟩
  · rw [he]
    exact List.mem_append_left _ hc
  · rw [he]
    exact hc

theorem execAll_keeps (hw : Wired r.engine r.taskManager) (hops : ∀ op ∈ ops, op.By c)
    (hs : LeasesSound s) (hc : c ∈ s.claims) (h : r.execAll s ops = .ok t) :
    LeasesSound t ∧ c ∈ t.claims := by
  induction ops generalizing s with
  | nil =>
    cases h
    exact ⟨hs, hc⟩
  | cons op ops ih =>
    have hcalled := called_of_by hc (hops op (List.mem_cons_self ..))
    unfold AgentRunner.execAll at h
    cases hexec : op.exec r.engine r.taskManager s.db with
    | error err =>
      rw [hexec] at h
      cases h
    | ok x =>
      rw [hexec] at h
      obtain ⟨claim, w⟩ := x
      have hstep := hs.committed hw hcalled hexec
      exact ih (fun op hop => hops op (List.mem_cons_of_mem _ hop)) hstep
        (List.mem_append_left _ hc) h

theorem execAll_lost {op : Op} (h : c.Lost s.db) (hop : op.By c) :
    r.execAll s (op :: ops) = .error c.refused := by
  unfold AgentRunner.execAll
  rw [refused_of_lost h hop]

section Transact

variable (hw : Wired r.engine r.taskManager) (henv : env.Interleave r)

include hw henv

-- the state a transaction finds
theorem Sound.found (hp : Sound c p) :
    LeasesSound (env.others p.begun p.db) ∧ c ∈ (env.others p.begun p.db).claims ∧
      (c.Lost p.db.db → c.Lost (env.others p.begun p.db).db) := by
  obtain ⟨hleases, hclaimed⟩ := path_keeps hw hp.leases hp.claimed (henv p.begun p.db)
  exact ⟨hleases, hclaimed, fun h => lost_forever hw hp.leases hp.claimed h (henv p.begun p.db)⟩

-- a transaction that writes nothing
theorem Sound.begun (hp : Sound c p) :
    Sound c ⟨env.others p.begun p.db, p.begun + 1,
      p.log ++ [(env.others p.begun p.db, env.others p.begun p.db)]⟩ := by
  obtain ⟨hleases, hclaimed, hlost⟩ := hp.found hw henv
  refine ⟨hleases, hclaimed, fun x hx hlostx => ?_, ?_⟩
  · rcases List.mem_append.mp hx with hold | hnew
    · exact hp.quiet x hold hlostx
    · rw [List.mem_singleton.mp hnew]
  · rintro ⟨x, hx, hlostx⟩
    rcases List.mem_append.mp hx with hold | hnew
    · exact hlost (hp.missed ⟨x, hold, hlostx⟩)
    · rw [List.mem_singleton.mp hnew] at hlostx
      exact hlostx

theorem transact_raises (hp : Sound c p) (h : Raises (r.transact env ops) p exc q) :
    Sound c q := by
  unfold Raises AgentRunner.transact at h
  have hbegun := hp.begun hw henv
  cases hfault : env.fault p.begun with
  | some exc' =>
    simp only [hfault, Except.error.injEq, Prod.mk.injEq] at h
    exact h.2 ▸ hbegun
  | none =>
    simp only [hfault] at h
    cases hexec : r.execAll (env.others p.begun p.db) ops with
    | ok after =>
      simp only [hexec] at h
      cases h
    | error err =>
      simp only [hexec, Except.error.injEq, Prod.mk.injEq] at h
      exact h.2 ▸ hbegun

theorem transact_returns {op : Op} (hops : ∀ o ∈ op :: ops, o.By c) (hp : Sound c p)
    (h : Returns (r.transact env (op :: ops)) p s q) : Sound c q ∧ ¬ Missed c q := by
  unfold Returns AgentRunner.transact at h
  obtain ⟨hleases, hclaimed, hlost⟩ := hp.found hw henv
  cases hfault : env.fault p.begun with
  | some exc' =>
    simp only [hfault] at h
    cases h
  | none =>
    simp only [hfault] at h
    cases hexec : r.execAll (env.others p.begun p.db) (op :: ops) with
    | error err =>
      simp only [hexec] at h
      cases h
    | ok after =>
      simp only [hexec, Except.ok.injEq, Prod.mk.injEq] at h
      obtain ⟨-, rfl⟩ := h
      have hheld : ¬ c.Lost (env.others p.begun p.db).db := by
        intro hl
        rw [execAll_lost hl (hops op (List.mem_cons_self ..))] at hexec
        cases hexec
      have hnot : ¬ Missed c ⟨after, p.begun + 1, p.log ++ [(env.others p.begun p.db, after)]⟩ := by
        rintro ⟨x, hx, hlostx⟩
        rcases List.mem_append.mp hx with hold | hnew
        · exact hheld (hlost (hp.missed ⟨x, hold, hlostx⟩))
        · rw [List.mem_singleton.mp hnew] at hlostx
          exact hheld hlostx
      obtain ⟨hleases', hclaimed'⟩ := execAll_keeps hw hops hleases hclaimed hexec
      refine ⟨⟨hleases', hclaimed', fun x hx hlostx => ?_, fun h => absurd h hnot⟩, hnot⟩
      exact absurd ⟨x, hx, hlostx⟩ hnot

end Transact

/-! Nor does a part of the run that goes on after one. -/

/-- The part keeps what holds between transactions, and if one of its own transactions
missed the lease, it returns only what is `good`. -/
structure Faithful (c : Claim) (w : Work α) (good : α → Prop) : Prop where
  returns : ∀ {p a q}, Sound c p → Returns w p a q →
    Sound c q ∧ (Missed c q → Missed c p ∨ good a)
  raises : ∀ {p exc q}, Sound c p → Raises w p exc q → Sound c q

section Rules

variable {w : Work α} {f : α → Work β} {good : α → Prop} {good' : β → Prop}

theorem Faithful.pure (a : α) : Faithful c (pure a : Work α) good where
  returns hp h := by
    obtain ⟨rfl, rfl⟩ := returns_pure.mp h
    exact ⟨hp, .inl⟩
  raises hp h := absurd h raises_pure

theorem Faithful.get : Faithful c (get : Work Progress) fun _ => False where
  returns hp h := by
    obtain ⟨rfl, rfl⟩ := returns_get.mp h
    exact ⟨hp, .inl⟩
  raises hp h := absurd h raises_get

theorem Faithful.raise (exc : Exc) : Faithful c (raise exc : Work α) good where
  returns hp h := absurd h returns_raise
  raises hp h := by
    obtain ⟨rfl, rfl⟩ := raises_raise.mp h
    exact hp

theorem Faithful.vetted (x : Except Exc α) : Faithful c (vetted x : Work α) good := by
  cases x with
  | ok a => exact .pure a
  | error exc => exact .raise exc

theorem Faithful.forSome (o : Option Exc) {good : PUnit → Prop} :
    Faithful c (forSome o Refusals.raise : Work PUnit) good := by
  cases o with
  | none => exact .pure _
  | some exc => exact .raise exc

/-- After a part that cannot return once the lease is missed, or that ends the whole. -/
theorem Faithful.bind (hw : Faithful c w good) (hf : ∀ a, Faithful c (f a) good')
    (hdone : ∀ a, good a → ∃ b, f a = Pure.pure b ∧ good' b) : Faithful c (w >>= f) good' where
  returns {p b q} hp h := by
    obtain ⟨a, u, hret, hrest⟩ := returns_bind.mp h
    obtain ⟨hu, hmissed⟩ := hw.returns hp hret
    obtain ⟨hq, hrestMissed⟩ := (hf a).returns hu hrest
    refine ⟨hq, fun hm => ?_⟩
    rcases hrestMissed hm with hm | hgood
    · rcases hmissed hm with hm | hgood
      · exact .inl hm
      · obtain ⟨b', hpure, hb'⟩ := hdone a hgood
        rw [hpure] at hrest
        obtain ⟨rfl, -⟩ := returns_pure.mp hrest
        exact .inr hb'
    · exact .inr hgood
  raises {p exc q} hp h := by
    rcases raises_bind.mp h with hraise | ⟨a, u, hret, hraise⟩
    · exact hw.raises hp hraise
    · exact (hf a).raises (hw.returns hp hret).1 hraise

theorem Faithful.andThen (hw : Faithful c w fun _ => False) (hf : ∀ a, Faithful c (f a) good') :
    Faithful c (w >>= f) good' :=
  hw.bind hf fun _ h => h.elim

-- a handler that only raises again
theorem Faithful.reraised {g : Exc → Exc} (hw : Faithful c w good) :
    Faithful c (handled w fun exc => Refusals.raise (g exc)) good where
  returns hp h := by
    rcases returns_handled.mp h with hret | ⟨exc, u, -, hret⟩
    · exact hw.returns hp hret
    · exact absurd hret returns_raise
  raises hp h := by
    obtain ⟨exc, u, hraise, hagain⟩ := raises_handled.mp h
    obtain ⟨-, rfl⟩ := raises_raise.mp hagain
    exact hw.raises hp hraise

end Rules

section Parts

variable (hw : Wired r.engine r.taskManager) (henv : env.Interleave r)

include hw henv

theorem faithful_transact {op : Op} (hops : ∀ o ∈ op :: ops, o.By c) :
    Faithful c (r.transact env (op :: ops)) fun _ => False where
  returns hp h := by
    obtain ⟨hq, hnot⟩ := transact_returns hw henv hops hp h
    exact ⟨hq, fun hm => absurd hm hnot⟩
  raises hp h := transact_raises hw henv hp h

theorem faithful_heartbeat : Faithful c (r.transact env [.heartbeat c]) fun _ => False := by
  refine faithful_transact hw henv fun op hop => ?_
  rw [List.mem_singleton.mp hop]
  exact .heartbeat

theorem fail_ends {errorClass message : String} {retryable : Bool} {outcome : RunOutcome}
    (hp : Sound c p) (h : Returns (r.fail env c errorClass message retryable) p outcome q) :
    Sound c q ∧ (Missed c q → outcome.status = .lost) := by
  rcases returns_handled.mp h with hret | ⟨exc, u, hraise, hret⟩
  · obtain ⟨s, u, htransact, hpure⟩ := returns_bind.mp hret
    obtain ⟨-, rfl⟩ := returns_pure.mp hpure
    obtain ⟨hq, hnot⟩ := transact_returns hw henv (fun op hop => by
      rw [List.mem_singleton.mp hop]
      exact .fail ..) hp htransact
    exact ⟨hq, fun hm => absurd hm hnot⟩
  · have hu : Sound c u := by
      rcases raises_bind.mp hraise with hraise | ⟨_, _, -, hraise⟩
      · exact transact_raises hw henv hp hraise
      · exact absurd hraise raises_pure
    cases exc with
    | leaseLost message =>
      obtain ⟨rfl, rfl⟩ := returns_pure.mp hret
      exact ⟨hu, fun _ => rfl⟩
    | budgetExceeded message => exact absurd hret returns_raise
    | modelCallFailed last => exact absurd hret returns_raise
    | other errorClass message => exact absurd hret returns_raise
    | base errorClass => exact absurd hret returns_raise

theorem faithful_fail {errorClass message : String} {retryable : Bool} :
    Faithful c (r.fail env c errorClass message retryable) fun o => o.status = .lost where
  returns hp h := by
    obtain ⟨hq, hlost⟩ := fail_ends hw henv hp h
    exact ⟨hq, fun hm => .inr (hlost hm)⟩
  raises hp h := by
    obtain ⟨exc, u, hraise, hagain⟩ := raises_handled.mp h
    have hu : Sound c u := by
      rcases raises_bind.mp hraise with hraise | ⟨_, _, -, hraise⟩
      · exact transact_raises hw henv hp hraise
      · exact absurd hraise raises_pure
    cases exc with
    | leaseLost message => exact absurd hagain raises_pure
    | budgetExceeded message => exact (raises_raise.mp hagain).2 ▸ hu
    | modelCallFailed last => exact (raises_raise.mp hagain).2 ▸ hu
    | other errorClass message => exact (raises_raise.mp hagain).2 ▸ hu
    | base errorClass => exact (raises_raise.mp hagain).2 ▸ hu

theorem faithful_keeping (cancelled : Option Exc) (beats : Nat) :
    Faithful c (r.keepingTheLease env c cancelled beats) fun _ => False := by
  induction beats with
  | zero => exact .pure _
  | succ beats ih => exact (faithful_heartbeat hw henv).reraised.andThen fun _ => ih

theorem faithful_callModel : Faithful c (r.callModel env c) fun _ => False := by
  refine (faithful_heartbeat hw henv).andThen fun _ => ?_
  refine Faithful.get.andThen fun p => ?_
  refine (faithful_keeping hw henv _ _).andThen fun _ => ?_
  refine (Faithful.vetted _).andThen fun response => ?_
  exact (faithful_heartbeat hw henv).andThen fun _ => .pure _

theorem faithful_decide {use : ToolUseBlock} :
    Faithful c (r.decide_ env c use) fun _ => False := by
  refine Faithful.get.andThen fun p => ?_
  cases env.decision p.begun with
  | allow => exact (faithful_heartbeat hw henv).andThen fun _ => .pure _
  | deny =>
    refine (faithful_transact hw henv fun op hop => ?_).andThen fun _ => .pure _
    rcases List.mem_cons.mp hop with rfl | hop
    · exact .heartbeat
    · rw [List.mem_singleton.mp hop]
      exact .abort ..
  | needsApproval =>
    refine (faithful_transact hw henv fun op hop => ?_).andThen fun _ => .pure _
    rcases List.mem_cons.mp hop with rfl | hop
    · exact .heartbeat
    · rw [List.mem_singleton.mp hop]
      exact .suspendForApproval _

theorem faithful_oneTool {approved : List String} {use : ToolUseBlock} :
    Faithful c (r.oneTool env c approved use) fun _ => False := by
  unfold AgentRunner.oneTool
  by_cases hname : use.name ∉ r.behavior.toolNames
  · rw [if_pos hname]
    exact .pure _
  rw [if_neg hname]
  have hstop : Faithful c (if use.id ∈ approved then pure none else r.decide_ env c use)
      fun _ => False := by
    by_cases happroved : use.id ∈ approved
    · rw [if_pos happroved]
      exact .pure _
    · rw [if_neg happroved]
      exact faithful_decide hw henv
  refine hstop.andThen fun stopped => ?_
  cases stopped with
  | some outcome => exact .pure _
  | none =>
    refine (faithful_heartbeat hw henv).andThen fun _ => ?_
    refine Faithful.get.andThen fun p => ?_
    refine (Faithful.forSome _).andThen fun _ => ?_
    exact (faithful_heartbeat hw henv).andThen fun _ => .pure _

theorem faithful_act {approved : List String} (uses : List ToolUseBlock) :
    Faithful c (r.act env c approved uses) fun _ => False := by
  induction uses with
  | nil => exact .pure _
  | cons use rest ih =>
    refine (faithful_oneTool hw henv).andThen fun stopped => ?_
    cases stopped with
    | some outcome => exact .pure _
    | none => exact ih

theorem faithful_evaluate {m : Memory} {reply : Reply} {response : ModelResponse} :
    Faithful c (r.evaluate_ env c m reply response) fun _ => False := by
  refine Faithful.get.andThen fun p => ?_
  by_cases hissues : evaluated response.parsed response.issues (env.found p.begun) = []
  · rw [if_pos hissues]
    refine (faithful_transact hw henv fun op hop => ?_).andThen fun _ => .pure _
    rcases List.mem_cons.mp hop with rfl | hop
    · exact .evaluate _
    · rw [List.mem_singleton.mp hop]
      exact .succeed ..
  rw [if_neg hissues]
  by_cases hrepair : m.repairsUsed < r.behavior.repairLimit
  · rw [if_pos hrepair]
    refine (faithful_transact hw henv fun op hop => ?_).andThen fun _ => .pure _
    rw [List.mem_singleton.mp hop]
    exact .evaluate _
  rw [if_neg hrepair]
  refine (faithful_transact hw henv fun op hop => ?_).andThen fun _ => .pure _
  rcases List.mem_cons.mp hop with rfl | hop
  · exact .evaluate _
  · rw [List.mem_singleton.mp hop]
    exact .fail ..

theorem faithful_loop (left : Nat) (m : Memory) :
    Faithful c (r.loop env c left m) fun o => o.status = .lost := by
  induction left generalizing m with
  | zero => exact faithful_fail hw henv
  | succ left ih =>
    refine (faithful_callModel hw henv).andThen fun x => ?_
    obtain ⟨reply, response⟩ := x
    dsimp only
    by_cases htools : response.stopReason = .toolUse ∧ response.toolUses ≠ []
    · rw [if_pos htools]
      refine (faithful_act hw henv _).andThen fun stopped => ?_
      cases stopped with
      | some outcome => exact .pure _
      | none => exact ih _
    rw [if_neg htools]
    by_cases hrefusal : response.stopReason = .refusal
    · rw [if_pos hrefusal]
      exact faithful_fail hw henv
    rw [if_neg hrefusal]
    refine (faithful_evaluate hw henv).andThen fun stopped => ?_
    cases stopped with
    | some outcome => exact .pure _
    | none => exact ih _

theorem faithful_body (m : Memory) : Faithful c (r.body env c m) fun o => o.status = .lost := by
  refine (faithful_transact hw henv fun op hop => ?_).andThen fun _ => ?_
  · rw [List.mem_singleton.mp hop]
    exact .startRun
  refine (faithful_act hw henv _).andThen fun stopped => ?_
  cases stopped with
  | some outcome => exact .pure _
  | none => exact faithful_loop hw henv _ _

end Parts

/-! What the handlers of `run` can answer for. -/

/-- The transaction goes through. -/
def Commits (r : AgentRunner) (env : Surroundings) (ops : List Op) (q : Progress) : Prop :=
  env.fault q.begun = none ∧ ∃ t, r.execAll (env.others q.begun q.db) ops = .ok t

/-- The failure can be recorded, or the lease is found lost. -/
def Recorded (r : AgentRunner) (env : Surroundings) (ops : List Op) (q : Progress) : Prop :=
  Commits r env ops q ∨ ∃ message, env.fault q.begun = some (.leaseLost message) ∨
    env.fault q.begun = none ∧
      r.execAll (env.others q.begun q.db) ops = .error (.leaseLost message)

/-- What the work ended with is answered for. -/
def Answered (r : AgentRunner) (env : Surroundings) (c : Claim) (exc : Exc) (q : Progress) : Prop :=
  match exc with
  | .leaseLost _ => True
  -- only `LeaseLost` of the work itself is caught, not the one `abort` may raise
  | .budgetExceeded message => Commits r env [.abort c .budget (some message)] q
  | .modelCallFailed last => Recorded r env [.fail c "ProviderError" last true] q
  | .other errorClass message => ∃ text, message = some text ∧
      Recorded r env [.fail c errorClass text true] q
  | .base _ => False

theorem transact_iff : (∃ s u, Returns (r.transact env ops) p s u) ↔ Commits r env ops p := by
  unfold Returns AgentRunner.transact Commits
  cases hfault : env.fault p.begun with
  | some exc => simp
  | none =>
    cases hexec : r.execAll (env.others p.begun p.db) ops with
    | ok after => simp [hexec]
    | error err => simp [hexec]

theorem ofErr_leaseLost {err : Err} {message : String} :
    Exc.ofErr err = .leaseLost message ↔ err = .leaseLost message := by
  cases err <;> simp [Exc.ofErr]

theorem transact_leaseLost {message : String} :
    (∃ u, Raises (r.transact env ops) p (.leaseLost message) u) ↔
      env.fault p.begun = some (.leaseLost message) ∨ env.fault p.begun = none ∧
        r.execAll (env.others p.begun p.db) ops = .error (.leaseLost message) := by
  unfold Raises AgentRunner.transact
  cases hfault : env.fault p.begun with
  | some exc => simp
  | none =>
    cases hexec : r.execAll (env.others p.begun p.db) ops with
    | ok after => simp [hexec]
    | error err => simp [hexec, ofErr_leaseLost]

theorem fail_iff {errorClass message : String} {retryable : Bool} :
    (∃ o u, Returns (r.fail env c errorClass message retryable) p o u) ↔
      Recorded r env [.fail c errorClass message retryable] p := by
  constructor
  · rintro ⟨o, u, h⟩
    rcases returns_handled.mp h with hret | ⟨exc, v, hraise, hret⟩
    · obtain ⟨s, v, htransact, -⟩ := returns_bind.mp hret
      exact .inl (transact_iff.mp ⟨s, v, htransact⟩)
    · have hraise : Raises (r.transact env [.fail c errorClass message retryable]) p exc v := by
        rcases raises_bind.mp hraise with hraise | ⟨_, _, -, hraise⟩
        · exact hraise
        · exact absurd hraise raises_pure
      cases exc with
      | leaseLost message => exact .inr ⟨message, transact_leaseLost.mp ⟨v, hraise⟩⟩
      | budgetExceeded message => exact absurd hret returns_raise
      | modelCallFailed last => exact absurd hret returns_raise
      | other errorClass message => exact absurd hret returns_raise
      | base errorClass => exact absurd hret returns_raise
  · rintro (hcommits | ⟨message, hlost⟩)
    · obtain ⟨s, u, h⟩ := transact_iff.mpr hcommits
      exact ⟨_, u, returns_handled.mpr (.inl (returns_bind.mpr ⟨s, u, h, returns_pure.mpr
        ⟨rfl, rfl⟩⟩))⟩
    · obtain ⟨u, h⟩ := transact_leaseLost.mpr hlost
      exact ⟨_, u, returns_handled.mpr (.inr ⟨_, u, raises_bind.mpr (.inl h), returns_pure.mpr
        ⟨rfl, rfl⟩⟩)⟩

/-- What `run` promises: an outcome, and once the lease is found lost, that outcome and
nothing more in the database. -/
def Kept (r : AgentRunner) (env : Surroundings) (c : Claim) (m : Memory) (p : Progress) : Prop :=
  ∃ outcome q, Returns (r.run env c m) p outcome q ∧
    (∀ x ∈ q.log, c.Lost x.1.db → x.2 = x.1) ∧ (Missed c q → outcome.status = .lost)

theorem run_handles (m : Memory) {outcome : RunOutcome}
    (h : Returns (r.run env c m) p outcome q) :
    ∀ exc u, Raises (r.body env c m) p exc u → Answered r env c exc u := by
  intro exc u hbody
  rcases returns_handled.mp h with hret | ⟨exc', v, hraise, hret⟩
  · exact absurd hret (not_returns_of_raises hbody)
  obtain ⟨rfl, rfl⟩ := raises_unique hbody hraise
  cases exc with
  | leaseLost message => trivial
  | budgetExceeded message =>
    obtain ⟨s, v, htransact, -⟩ := returns_bind.mp hret
    exact transact_iff.mp ⟨s, v, htransact⟩
  | modelCallFailed last => exact fail_iff.mp ⟨_, _, hret⟩
  | other errorClass message =>
    obtain ⟨text, v, hfound, hfail⟩ := returns_bind.mp hret
    obtain ⟨rfl, rfl⟩ := returns_found.mp hfound
    exact ⟨text, rfl, fail_iff.mp ⟨_, _, hfail⟩⟩
  | base errorClass => exact absurd hret returns_raise

theorem run_answers (m : Memory)
    (h : ∀ exc u, Raises (r.body env c m) p exc u → Answered r env c exc u) :
    ∃ outcome q, Returns (r.run env c m) p outcome q := by
  rcases returns_or_raises (r.body env c m) p with ⟨o, q, hret⟩ | ⟨exc, u, hraise⟩
  · exact ⟨o, q, returns_handled.mpr (.inl hret)⟩
  have hanswered := h exc u hraise
  cases exc with
  | leaseLost message =>
    exact ⟨_, u, returns_handled.mpr (.inr ⟨_, u, hraise, returns_pure.mpr ⟨rfl, rfl⟩⟩)⟩
  | budgetExceeded message =>
    obtain ⟨s, v, htransact⟩ := transact_iff.mpr hanswered
    exact ⟨_, v, returns_handled.mpr (.inr ⟨_, u, hraise, returns_bind.mpr
      ⟨s, v, htransact, returns_pure.mpr ⟨rfl, rfl⟩⟩⟩)⟩
  | modelCallFailed last =>
    obtain ⟨o, v, hfail⟩ := fail_iff.mpr hanswered
    exact ⟨o, v, returns_handled.mpr (.inr ⟨_, u, hraise, hfail⟩)⟩
  | other errorClass message =>
    obtain ⟨text, rfl, hrecorded⟩ := hanswered
    obtain ⟨o, v, hfail⟩ := fail_iff.mpr hrecorded
    exact ⟨o, v, returns_handled.mpr (.inr ⟨_, u, hraise, returns_bind.mpr
      ⟨text, u, returns_found.mpr ⟨rfl, rfl⟩, hfail⟩⟩)⟩
  | base errorClass => exact hanswered.elim

section Run

variable (hw : Wired r.engine r.taskManager) (henv : env.Interleave r)

include hw henv

/-- A run that returns has kept to its lease. -/
theorem run_ends (m : Memory) {outcome : RunOutcome} (hp : Sound c p) (hclean : ¬ Missed c p)
    (h : Returns (r.run env c m) p outcome q) :
    Sound c q ∧ (Missed c q → outcome.status = .lost) := by
  rcases returns_handled.mp h with hret | ⟨exc, u, hraise, hret⟩
  · obtain ⟨hq, hmissed⟩ := (faithful_body hw henv m).returns hp hret
    exact ⟨hq, fun hm => (hmissed hm).resolve_left hclean⟩
  have hu := (faithful_body hw henv m).raises hp hraise
  cases exc with
  | leaseLost message =>
    obtain ⟨rfl, rfl⟩ := returns_pure.mp hret
    exact ⟨hu, fun _ => rfl⟩
  | budgetExceeded message =>
    obtain ⟨s, v, htransact, hpure⟩ := returns_bind.mp hret
    obtain ⟨-, rfl⟩ := returns_pure.mp hpure
    obtain ⟨hq, hnot⟩ := transact_returns hw henv (fun op hop => by
      rw [List.mem_singleton.mp hop]
      exact .abort ..) hu htransact
    exact ⟨hq, fun hm => absurd hm hnot⟩
  | modelCallFailed last => exact fail_ends hw henv hu hret
  | other errorClass message =>
    obtain ⟨text, v, hfound, hfail⟩ := returns_bind.mp hret
    obtain ⟨-, rfl⟩ := returns_found.mp hfound
    exact fail_ends hw henv hu hfail
  | base errorClass => exact absurd hret returns_raise

end Run

/-- A run returns an outcome, and no more than "lost" once its lease is gone, if and only
if the exception its work ends with, if it does, is one the handlers can answer for. -/
theorem run_returns_outcome (hw : Wired r.engine r.taskManager) (henv : env.Interleave r)
    (hs : (runtime r.engine r.taskManager).Reach anyStep s) (hc : c ∈ s.claims) (m : Memory) :
    Kept r env c m (.start s) ↔
      ∀ exc q, Raises (r.body env c m) (.start s) exc q → Answered r env c exc q := by
  have hclean : ¬ Missed c (.start s) := by
    rintro ⟨x, hx, -⟩
    cases hx
  have hp : Sound c (.start s) := by
    refine ⟨leases_sound hw hs, hc, fun x hx => ?_, fun h => absurd h hclean⟩
    cases hx
  constructor
  · rintro ⟨outcome, q, h, -⟩
    exact run_handles m h
  · intro h
    obtain ⟨outcome, q, hret⟩ := run_answers m h
    obtain ⟨hq, hlost⟩ := run_ends hw henv m hp hclean hret
    exact ⟨outcome, q, hret, hq.quiet, hlost⟩

/-! One task, claimed by a worker. -/

def claimedDraft : Runtime :=
  Runtime.staffed.trace unbound [.addTask draft, .claimNext 1 "worker" []]

theorem claimedDraft_claims : 0 < claimedDraft.claims.length := by
  decide +kernel

def draftClaim : Claim := claimedDraft.claims.get ⟨0, claimedDraft_claims⟩

def draftRunner (maxSteps : Nat) : AgentRunner where
  engine := unbound
  taskManager := unbound.bound
  behavior := { toolNames := [], maxSteps := maxSteps, repairLimit := 0 }

-- every model call is over the budget; the reaper takes the lease before the given transaction
def overBudget (reapedAt : Nat) : Surroundings where
  others := fun n s => if n = reapedAt then
    s.trace unbound [.tick 300000001, .reapExpiredLeases 10 []] else s
  fault := fun _ => none
  reply := fun _ =>
    { beats := 0, ending := .error (.budgetExceeded "run budget exceeded"), cancelled := none
      output := [], summary := none }
  decision := fun _ => .allow
  reason := fun _ => ""
  approval := fun _ => 0
  tool := fun _ => none
  found := fun _ => []

theorem overBudget_interleaves (reapedAt maxSteps : Nat) :
    (overBudget reapedAt).Interleave (draftRunner maxSteps) := by
  intro n s
  by_cases hn : n = reapedAt
  · have hfree : [Op.tick 300000001, .reapExpiredLeases 10 []].all Op.isFree = true := by decide
    simp only [overBudget, if_pos hn]
    exact path_free hfree
  · simp only [overBudget, if_neg hn]
    exact .refl

-- the error a run ends with, if it does
def errorOf {α : Type} (x : Except (Exc × Progress) α) : Option Exc :=
  match x with
  | .error (exc, _) => some exc
  | .ok _ => none

theorem raises_of_errorOf {w : Work α} (h : errorOf (w p) = some exc) : ∃ q, Raises w p exc q := by
  unfold Raises
  cases hrun : w p with
  | ok x =>
    rw [hrun] at h
    cases h
  | error x =>
    rw [hrun] at h
    exact ⟨x.2, congrArg Except.error (Prod.ext (Option.some.inj h) rfl)⟩

-- no model call is left to make
theorem run_returns_outcome_spent :
    Kept (draftRunner 0) (overBudget 9) draftClaim ⟨0, 0, [], []⟩ (.start claimedDraft) := by
  have hreach : (runtime unbound unbound.bound).Reach anyStep claimedDraft :=
    ⟨Runtime.staffed, ⟨rfl, rfl, rfl, rfl⟩, path_free (by decide)⟩
  have hclaimed : draftClaim ∈ claimedDraft.claims := List.get_mem ..
  refine (run_returns_outcome (.inl rfl) (overBudget_interleaves 9 0) hreach hclaimed
    ⟨0, 0, [], []⟩).mpr fun exc q h => ?_
  have hok : errorOf (((draftRunner 0).body (overBudget 9) draftClaim ⟨0, 0, [], []⟩)
      (.start claimedDraft)) = none := by
    decide +kernel
  unfold Raises at h
  rw [h] at hok
  cases hok

/-- The budget is exceeded while the reaper takes the lease: `abort` finds it lost, and its
`LeaseLost` leaves `run`. -/
theorem lost_lease_escapes :
    (overBudget 2).Interleave (draftRunner 5) ∧ ∃ message q,
      Raises ((draftRunner 5).run (overBudget 2) draftClaim ⟨0, 0, [], []⟩) (.start claimedDraft)
        (.leaseLost message) q := by
  refine ⟨overBudget_interleaves 2 5, "claim on task 2 is no longer valid", ?_⟩
  exact raises_of_errorOf (by decide +kernel)

end Autora.Running
