import Autora.Instantiation
import Autora.Operations

/-! Operations that finish no task: on the board tasks move, or die. -/

namespace Autora

open Transactions Systems

/-- Neither a task that succeeds nor a round. -/
def Event.calm : Event → Bool
  | .move _ _ | .die _ _ | .start _ => true
  | .stop _ | .finish _ | .round _ _ => false

/-- Moves, deaths and new runs lead from one board to the other. -/
def CalmPath (reg : String → Option WorkflowTemplate) : Board → Board → Prop :=
  (boards reg).Path fun _ ev => ev.calm = true

structure Calm (reg : String → Option WorkflowTemplate) (w w' : World) : Prop where
  kept : Kept w w'
  path : CalmPath reg w.board w'.board

variable {reg : String → Option WorkflowTemplate} {e : WorkflowEngine} {tm : TaskManager}
  {w w₁ w' : World}

instance : IsPreorder World (Calm reg) where
  refl w := ⟨Kept.refl w, .refl⟩
  trans _ _ _ h h' := ⟨h.kept.trans h'.kept, h.path.trans h'.path⟩

theorem Calm.refl (w : World) : Calm reg w w := Std.Refl.refl w

theorem Calm.trans (h : Calm reg w w₁) (h' : Calm reg w₁ w') : Calm reg w w' :=
  IsTrans.trans _ _ _ h h'

theorem Quiet.calm (h : Quiet w w') : Calm reg w w' := by
  refine ⟨h.kept, ?_⟩
  rw [h.board]
  exact .refl

theorem calm_step {ev : Event} {b b' : Board} (h : BoardStep reg b ev b')
    (hc : ev.calm = true) : CalmPath reg b b' :=
  .single ⟨ev, hc, h⟩

/-- A task moves between unlocked states. -/
theorem Moves.calm {id : Id} {s : TaskState} {t : Task} (hk : Keyed w)
    (ht : w.task? id = some t) (hs : t.workflowRunId = none ∨
      t.state.active = true ∧ s.active = true) (h : Moves id s w w') : Calm reg w w' := by
  refine ⟨h.kept, ?_⟩
  rw [h.board]
  cases hr : t.workflowRunId with
  | none =>
    rw [setState_standalone hk ht hr]
    exact .refl
  | some run =>
    obtain ⟨c, hc, hcard, rfl, _⟩ := World.card_of_task? ht hr
    obtain ⟨ha, hs⟩ := hs.resolve_left (by simp [hr])
    rw [(Task.card?_eq_some.mp hcard).2.2.2.2] at ha
    exact calm_step (.move hc ha hs) rfl

/-- A task dies and its failure spreads. -/
theorem Moves.dies {id : Id} {s : TaskState} {t : Task} (htm : SpreadsFailure tm) (hk : Keyed w)
    (ht : w.task? id = some t) (hu : t.state.final = false)
    (hs : s = .cancelled ∨ s = .failed ∧ t.state.active = true) (hm : Moves id s w w₁) {u : Unit}
    (h : Returns (tm.failed id) w₁ u w') : Calm reg w w' := by
  obtain ⟨hkept, hnone, hsome⟩ := ends_of_moves htm hk ht hm h
  refine ⟨hkept, ?_⟩
  cases hr : t.workflowRunId with
  | none =>
    rw [hnone hr]
    exact .refl
  | some run =>
    obtain ⟨c, hc, hcard, rfl, _⟩ := World.card_of_task? ht hr
    have hstate := (Task.card?_eq_some.mp hcard).2.2.2.2
    exact calm_step (.die hc (hstate ▸ hu) (hstate ▸ hs) (hsome c hcard)) rfl

theorem cancel_calm (htm : Cancels tm) {id : Id} {reason : String} (hk : Keyed w) {u : Unit}
    (h : Returns (tm.cancel id reason) w u w') : Calm reg w w' := by
  obtain ⟨hkept, t, ht, hcases⟩ := htm id reason w u w' hk h
  refine ⟨hkept, ?_⟩
  rcases hcases with ⟨_, rfl⟩ | ⟨hu, ⟨_, hb⟩ | ⟨c, hc, hcard, he⟩⟩
  · exact .refl
  · rw [hb]
    exact .refl
  · have hstate := (Task.card?_eq_some.mp hcard).2.2.2.2
    exact calm_step (.die hc (hstate ▸ hu) (.inl rfl) he) rfl

/-! Claiming and working. -/

theorem heartbeat_quiet (claim : Claim) : Keeps Quiet (tm.heartbeat claim) := by
  intro w a w' h
  simp only [TaskManager.heartbeat, returns_bind, returns_lockedTask, returns_clock,
    returns_updateTask, returns_pure] at h
  obtain ⟨_, _, ⟨_, rfl⟩, _, _, ⟨_, rfl⟩, _, _, rfl, _, rfl⟩ := h
  exact setTask_quiet _ _ (fun _ => rfl) (fun _ => rfl) fun _ => rfl

theorem transitionRun_quiet (id : Id) (target : AgentRunState) :
    Keeps Quiet (transitionRun id target) := by
  intro w u w' h
  obtain ⟨_, _, _, rfl⟩ := returns_transitionRun.mp h
  exact setRun_quiet _ _ _

theorem updateRun_quiet (id : Id) (f : AgentRun → AgentRun) : Keeps Quiet (updateRun id f) :=
  Keeps.modify fun w => setRun_quiet w id f

theorem clock_quiet : Keeps Quiet clock := clock_logged.mono fun _ _ => Logged.quiet

theorem startRun_quiet (claim : Claim) : Keeps Quiet (startRun tm claim) :=
  (heartbeat_quiet claim).bind fun _ => (transitionRun_quiet _ _).bind fun _ =>
    (Keeps.pure _).ite (clock_quiet.bind fun _ => updateRun_quiet _ _)

theorem evaluate_quiet (claim : Claim) (repair : Bool) : Keeps Quiet (evaluate tm claim repair) :=
  (heartbeat_quiet claim).bind fun _ => (transitionRun_quiet _ _).bind fun _ =>
    ((transitionRun_quiet _ _).bind fun _ => transitionRun_quiet _ _).ite (Keeps.pure _)

theorem startAttempt_quiet (task : Task) (agent : Agent) (now : Time) :
    Keeps Quiet (TaskManager.startAttempt task agent now) := by
  refine Keeps.bind (Keeps.modify fun w => ?_) fun _ => uuid7_quiet.bind fun _ =>
    Keeps.bind (Keeps.modify fun w => ?_) fun _ => Keeps.pure _
  · exact setTask_quiet w _ (fun _ => rfl) (fun _ => rfl) fun _ => rfl
  · exact ⟨⟨rfl, rfl, Nat.le_refl _⟩, rfl⟩

theorem take_moves {task : Task} {agent : Agent} {workerId : String} {now : Time}
    {resume : Option AgentRun} {claim : Claim}
    (h : Returns (tm.take task agent workerId now resume) w claim w') :
    Moves task.id .running w w' := by
  simp only [TaskManager.take, returns_bind, returns_uuid7, returns_updateTask,
    returns_transitionTask, returns_theTask, returns_pure] at h
  obtain ⟨run, w₁, h₁, token, _, ⟨_, rfl⟩, _, _, rfl, _, _, ⟨_, _, _, rfl⟩, _, w₂, ⟨_, rfl⟩, _, w₃,
    h₃, _, rfl⟩ := h
  have hq₁ : Quiet w w₁ := by
    cases resume with
    | none => exact startAttempt_quiet _ _ _ _ _ _ h₁
    | some run =>
      obtain ⟨_, rfl⟩ := returns_pure.mp h₁
      exact Quiet.refl _
  have hid : Quiet w₁ { w₁ with nextId := w₁.nextId + 1 } := ⟨⟨rfl, rfl, Nat.le_succ _⟩, rfl⟩
  have hlease := setTask_quiet { w₁ with nextId := w₁.nextId + 1 } task.id
    (f := fun t => { t with
      leaseOwner := some workerId
      leaseUntil := some (now + tm.lease)
      leaseToken := some token
      availableAt := none }) (fun _ => rfl) (fun _ => rfl) fun _ => rfl
  have hq₃ := emitTask_quiet _ _ _ _ _ _ h₃
  exact ((setTask_moves _ task.id .running).after ((hq₁.trans hid).trans hlease)).quiet hq₃

theorem mem_best {tasks : List Task} {t : Task} (h : TaskManager.best tasks = some t) :
    t ∈ tasks := by
  have hmem := List.mem_of_head? h
  exact (List.perm_insertionSort _ tasks).mem_iff.mp hmem

/-- The task that an agent claims: its own suspended one, or one that is on offer. -/
def Resumes (w : World) (agent : Agent) (locked : List Id) (task : Task) :
    Option AgentRun → Prop
  | some r => w.openRun? agent.id = some r ∧ r.state = .waitingApproval ∧ task.id = r.taskId
  | none => w.openRun? agent.id = none ∧ TaskManager.claimable w agent locked task = true

/-- The task that is claimed is READY. -/
theorem claimNext_spec {agent : Agent} {workerId : String} {locked : List Id}
    {o : Option Claim} (h : Returns (tm.claimNext agent workerId locked) w o w') :
    (o = none ∧ w' = w) ∨ ∃ task ∈ w.tasks, task.state = .ready ∧ ∃ claim resume,
      o = some claim ∧ Resumes w agent locked task resume ∧
        Returns (tm.take task agent workerId w.now resume) w claim w' := by
  simp only [TaskManager.claimNext, returns_bind (m := get), returns_get] at h
  obtain ⟨_, w, ⟨rfl, rfl⟩, h⟩ := h
  split at h
  · next openRun hopen =>
    simp only [returns_bind, returns_require, returns_orRaise, returns_pure] at h
    obtain ⟨_, _, ⟨hwait, rfl⟩, task, w, ⟨hfind, rfl⟩, claim, w₁, htake, rfl, rfl⟩ := h
    have hp := List.find?_some hfind
    simp only [Bool.and_eq_true, decide_eq_true_eq] at hp
    exact .inr ⟨task, List.mem_of_find?_eq_some hfind, hp.1.2, claim, some openRun, rfl,
      ⟨hopen, hwait, hp.1.1⟩, htake⟩
  · next hnone =>
    split at h
    · exact .inl (returns_pure.mp h)
    · next task hbest =>
      simp only [returns_bind, returns_pure] at h
      obtain ⟨claim, w₁, htake, rfl, rfl⟩ := h
      obtain ⟨hmem, hp⟩ := List.mem_filter.mp (mem_best hbest)
      have hready := hp
      simp only [TaskManager.claimable, Bool.and_eq_true, decide_eq_true_eq] at hready
      exact .inr ⟨task, hmem, by tauto, claim, none, rfl, ⟨hnone, hp⟩, htake⟩

theorem claimNext_calm {agent : Agent} {workerId : String} {locked : List Id}
    {o : Option Claim} (hk : Keyed w)
    (h : Returns (tm.claimNext agent workerId locked) w o w') : Calm reg w w' := by
  rcases claimNext_spec h with ⟨_, rfl⟩ | ⟨task, hmem, hready, claim, resume, _, _, htake⟩
  · exact Calm.refl _
  · refine (take_moves htake).calm hk (hk.task? hmem) (.inr ⟨?_, rfl⟩)
    rw [hready]
    rfl

/-! The ends of a claim. -/

theorem requeue_moves {task : Task} {run : Option AgentRun} {ended : Payload} {u : Unit}
    (h : Returns (tm.requeue task run ended) w u w') : Moves task.id .ready w w' := by
  simp only [TaskManager.requeue, returns_bind, returns_clock, returns_updateTask,
    returns_transitionTask] at h
  obtain ⟨now, w, ⟨_, rfl⟩, _, _, rfl, _, _, ⟨_, _, _, rfl⟩, _, w₁, h₁, _, w₂, h₂, h₃⟩ := h
  have hback := setTask_quiet w task.id
    (f := fun t => { t with availableAt := some (now + tm.backoff t.attempt) })
    (fun _ => rfl) (fun _ => rfl) fun _ => rfl
  have hq₁ := emitTask_quiet _ _ _ _ _ _ h₁
  have hq₂ := emitTask_quiet _ _ _ _ _ _ h₂
  have hq₃ : Quiet w₂ w' := by
    refine Keeps.forSome (fun run _ => ?_) _ _ _ h₃
    exact (emitTask_quiet _ _ _).bind fun _ =>
      (Keeps.get.bind fun _ => Keeps.orRaise).bind fun _ => taskActivity_quiet _ _ _ _
  exact ((setTask_moves _ task.id .ready).after hback).quiet ((hq₁.trans hq₂).trans hq₃)

theorem fail_calm (htm : SpreadsFailure tm) {claim : Claim} {errorClass message : String}
    {retryable retry : Bool} (hk : Keyed w)
    (h : Returns (tm.fail claim errorClass message retryable) w retry w') : Calm reg w w' := by
  simp only [TaskManager.fail, returns_bind (m := lockedTask _), returns_bind (m := runOf _),
    returns_bind (m := clock), returns_bind (m := updateRun _ _), returns_lockedTask,
    returns_runOf, returns_clock, returns_updateRun, returns_bind (m := finishRun _ _ _),
    returns_bind (m := releaseLease _)] at h
  obtain ⟨task, w, ⟨⟨ht, hrun, _⟩, rfl⟩, run, w, ⟨⟨_, _⟩, rfl⟩, now, w, ⟨_, rfl⟩, _, _, rfl, _, w₁,
    h₁, _, w₂, h₂, h⟩ := h
  obtain ⟨_, hid⟩ := w.mem_of_task? claim.task.id ht
  rw [← hid] at ht
  have hact : task.state.active = true := by
    rw [hrun]
    rfl
  have hq : Quiet w w₂ := ((setRun_quiet w run.id _).trans (finishRun_quiet rfl now _ _ _ h₁)).trans
    (releaseLease_quiet task.id _ _ _ h₂)
  rcases returns_ite.mp h with ⟨_, h⟩ | ⟨_, h⟩
  · obtain ⟨_, w₃, h₃, h₄⟩ := returns_bind.mp h
    obtain ⟨_, rfl⟩ := returns_pure.mp h₄
    exact ((requeue_moves h₃).after hq).calm hk ht (.inr ⟨hact, rfl⟩)
  · simp only [returns_bind, returns_transitionTask, returns_pure] at h
    obtain ⟨_, _, ⟨_, _, _, rfl⟩, _, w₃, h₃, _, w₄, h₄, _, w₅, h₅, _, rfl⟩ := h
    have hq' := (emitTask_quiet _ _ _ _ _ _ h₃).trans (taskActivity_quiet _ _ _ _ _ _ _ h₄)
    have hm := ((setTask_moves w₂ task.id .failed).after hq).quiet hq'
    exact hm.dies htm hk ht (TaskState.final_of_active hact) (.inr ⟨rfl, hact⟩) h₅

theorem abort_calm (htm : SpreadsFailure tm) {claim : Claim} {reason : AbortReason}
    {message : Option String} (hk : Keyed w) {u : Unit}
    (h : Returns (tm.abort claim reason message) w u w') : Calm reg w w' := by
  simp only [TaskManager.abort, returns_bind (m := lockedTask _), returns_bind (m := runOf _),
    returns_lockedTask, returns_runOf, returns_bind (m := abortRun _ _ _),
    returns_bind (m := releaseLease _)] at h
  obtain ⟨task, w, ⟨⟨ht, hrun, _⟩, rfl⟩, run, w, ⟨⟨_, _⟩, rfl⟩, _, w₁, h₁, _, w₂, h₂, h⟩ := h
  obtain ⟨_, hid⟩ := w.mem_of_task? claim.task.id ht
  rw [← hid] at ht
  have hact : task.state.active = true := by
    rw [hrun]
    rfl
  have hu := TaskState.final_of_active hact
  have hq : Quiet w w₂ := (abortRun_quiet run.id _ _ _ _ _ h₁).trans
    (releaseLease_quiet task.id _ _ _ h₂)
  rcases returns_ite.mp h with ⟨_, h⟩ | ⟨_, h⟩
  · simp only [returns_bind, returns_transitionTask] at h
    obtain ⟨_, _, ⟨_, _, _, rfl⟩, _, w₃, h₃, _, w₄, h₄, h₅⟩ := h
    have hq' := ((emitTask_quiet _ _ _ _ _ _ h₃).trans (emitTask_quiet _ _ _ _ _ _ h₄)).trans
      (setActivityUnlessPaused_quiet _ _ _ _ _ _ h₅)
    exact (((setTask_moves w₂ task.id .blockedBudget).after hq).quiet hq').calm hk ht
      (.inr ⟨hact, rfl⟩)
  rcases returns_ite.mp h with ⟨_, h⟩ | ⟨_, h⟩
  · simp only [returns_bind, returns_transitionTask] at h
    obtain ⟨_, _, ⟨_, _, _, rfl⟩, _, w₃, h₃, _, w₄, h₄, h₅⟩ := h
    have hq' := (emitTask_quiet _ _ _ _ _ _ h₃).trans (taskActivity_quiet _ _ _ _ _ _ _ h₄)
    have hm := ((setTask_moves w₂ task.id .failed).after hq).quiet hq'
    exact hm.dies htm hk ht hu (.inr ⟨rfl, hact⟩) h₅
  · simp only [returns_bind, returns_transitionTask] at h
    obtain ⟨_, _, ⟨_, _, _, rfl⟩, _, w₃, h₃, _, w₄, h₄, h₅⟩ := h
    have hq' := (emitTask_quiet _ _ _ _ _ _ h₃).trans (taskActivity_quiet _ _ _ _ _ _ _ h₄)
    have hm := ((setTask_moves w₂ task.id .cancelled).after hq).quiet hq'
    exact hm.dies htm hk ht hu (.inl rfl) h₅

/-! Approvals. -/

theorem suspendForApproval_calm {claim : Claim} {approval : Id} (hk : Keyed w) {u : Unit}
    (h : Returns (TaskManager.suspendForApproval claim approval) w u w') : Calm reg w w' := by
  simp only [TaskManager.suspendForApproval, returns_bind, returns_lockedTask, returns_runOf,
    returns_orFail, returns_transitionTask] at h
  obtain ⟨task, w, ⟨⟨ht, hrun, _⟩, rfl⟩, run, w, ⟨_, rfl⟩, path, w, ⟨_, rfl⟩, _, w₁, h₁, _, w₂, h₂,
    _, _, ⟨_, _, _, rfl⟩, _, w₃, h₃, h₄⟩ := h
  obtain ⟨_, hid⟩ := w.mem_of_task? claim.task.id ht
  rw [← hid] at ht
  have hq : Quiet w w₂ :=
    (Keeps.forEach path (fun _ _ => transitionRun_quiet _ _) _ _ _ h₁).trans
      (releaseLease_quiet task.id _ _ _ h₂)
  have hq' := (emitTask_quiet _ _ _ _ _ _ h₃).trans (taskActivity_quiet _ _ _ _ _ _ _ h₄)
  refine (((setTask_moves w₂ task.id .waitingApproval).after hq).quiet hq').calm hk ht
    (.inr ⟨?_, rfl⟩)
  rw [hrun]
  rfl

/-- A task that only changes its state, and says so. -/
theorem transition_moves {id : Id} {s : TaskState} {p : Task → Payload} {u : Unit}
    (h : Returns (do
      transitionTask id s
      let task ← theTask id
      emitTask task (p task) none) w u w') : Moves id s w w' := by
  simp only [returns_bind, returns_transitionTask, returns_theTask] at h
  obtain ⟨_, _, ⟨_, _, _, rfl⟩, _, _, ⟨_, rfl⟩, h⟩ := h
  exact (setTask_moves w id s).quiet (emitTask_quiet _ _ _ _ _ _ h)

theorem transitionTask_spec {id : Id} {s : TaskState} {u : Unit}
    (h : Returns (transitionTask id s) w u w') :
    ∃ t, w.task? id = some t ∧ taskFsm.can t.state s = true := by
  obtain ⟨t, ht, hc, _⟩ := returns_transitionTask.mp h
  exact ⟨t, ht, hc⟩

theorem transition_row {id : Id} {s : TaskState} {f : Unit → Tx Unit} {u : Unit}
    (h : Returns (transitionTask id s >>= f) w u w') :
    ∃ t, w.task? id = some t ∧ taskFsm.can t.state s = true := by
  obtain ⟨_, _, h₁, _⟩ := returns_bind.mp h
  exact transitionTask_spec h₁

theorem awaitApproval_calm {task approval : Id} (hk : Keyed w)
    (hready : ∀ t, w.task? task = some t → t.state = .ready) {u : Unit}
    (h : Returns (TaskManager.awaitApproval task approval) w u w') : Calm reg w w' := by
  obtain ⟨t, ht, _⟩ := transition_row h
  refine (transition_moves (p := fun _ => .taskWaiting .approval (some approval)) h).calm hk
    ht (.inr ⟨?_, rfl⟩)
  rw [hready t ht]
  rfl

theorem releaseAfterApproval_calm {task : Id} (hk : Keyed w)
    (hwait : ∀ t, w.task? task = some t → t.state = .waitingApproval) {u : Unit}
    (h : Returns (TaskManager.releaseAfterApproval task) w u w') : Calm reg w w' := by
  obtain ⟨t, ht, _⟩ := transition_row h
  refine (transition_moves (p := fun t => .taskReady t.requiredRole) h).calm hk ht
    (.inr ⟨?_, rfl⟩)
  rw [hwait t ht]
  rfl

theorem failWithoutRun_calm (htm : SpreadsFailure tm) {task : Id} {errorClass message : String}
    (hk : Keyed w) (hready : ∀ t, w.task? task = some t → t.state = .ready) {u : Unit}
    (h : Returns (tm.failWithoutRun task errorClass message) w u w') : Calm reg w w' := by
  simp only [TaskManager.failWithoutRun, returns_bind, returns_updateTask, returns_transitionTask,
    returns_theTask] at h
  obtain ⟨_, _, rfl, _, _, ⟨t₁, ht₁, _, rfl⟩, t₂, _, ⟨_, rfl⟩, _, w₁, h₁, h₂⟩ := h
  have hq := setTask_quiet w task
    (f := fun t => { t with
      output := some [("error_class", .str errorClass), ("message", .str message)] })
    (fun _ => rfl) (fun _ => rfl) fun _ => rfl
  have hm := ((setTask_moves _ task .failed).after hq).quiet (emitTask_quiet _ _ _ _ _ _ h₁)
  rw [World.setTask_task? (by intro _; rfl)] at ht₁
  obtain ⟨t, ht, _⟩ := Option.map_eq_some_iff.mp ht₁
  have hact : t.state.active = true := by
    rw [hready t ht]
    rfl
  exact hm.dies htm hk ht (TaskState.final_of_active hact) (.inr ⟨rfl, hact⟩) h₂

end Autora
