import Autora.Maintenance

/-! What each operation writes in the rows of its task and of its run, and where
it calls the hooks. The events and the agents' activity are left open. -/

namespace Autora

open Transactions

variable {tm : TaskManager} {w w₁ w' : World}

theorem Logged.refl (w : World) : Logged w w := Std.Refl.refl w

theorem Logged.trans (h : Logged w w₁) (h' : Logged w₁ w') : Logged w w' :=
  IsTrans.trans _ _ _ h h'

theorem Logged.setTask (h : Logged w w') (id : Id) (f : Task → Task) :
    Logged (w.setTask id f) (w'.setTask id f) := by
  obtain ⟨ev, act, seq, rfl⟩ := h
  exact ⟨ev, act, seq, rfl⟩

theorem Logged.setRun (h : Logged w w') (id : Id) (f : AgentRun → AgentRun) :
    Logged (w.setRun id f) (w'.setRun id f) := by
  obtain ⟨ev, act, seq, rfl⟩ := h
  exact ⟨ev, act, seq, rfl⟩

theorem Logged.task? (h : Logged w w') (id : Id) : w'.task? id = w.task? id := by
  unfold World.task?
  rw [h.tasks]

theorem World.setTask_setTask {id : Id} {f g : Task → Task} (hg : ∀ t, (g t).id = t.id) :
    (w.setTask id g).setTask id f = w.setTask id (f ∘ g) := by
  simp only [World.setTask, List.map_map]
  congr 1
  refine List.map_congr_left fun t _ => ?_
  by_cases h : t.id = id <;> simp [h, hg]

/-- The lease is released and the task moves. -/
def Task.leaves (target : TaskState) (t : Task) : Task :=
  { t with state := target, leaseOwner := none, leaseUntil := none, leaseToken := none }

def Task.leased (workerId : String) (until_ : Time) (token : Id) (t : Task) : Task :=
  { t with
    state := .running
    leaseOwner := some workerId
    leaseUntil := some until_
    leaseToken := some token
    availableAt := none }

def Task.extended (until_ : Time) (t : Task) : Task := { t with leaseUntil := some until_ }

def Task.requeued (availableAt : Time) (t : Task) : Task :=
  { t.leaves .ready with availableAt := some availableAt }

def Task.answered (output : Option Dict) (t : Task) : Task :=
  { t with state := .succeeded, output := output }

def Task.unanswered (errorClass message : String) (t : Task) : Task :=
  { t with
    state := .failed
    output := some [("error_class", .str errorClass), ("message", .str message)] }

/-- What names a run and never changes. -/
def AgentRun.key (r : AgentRun) : Id × Id × Id × Nat := (r.id, r.taskId, r.agentId, r.attempt)

/-- A write that ends a run. -/
structure EndsRun (g : AgentRun → AgentRun) : Prop where
  key : ∀ r, (g r).key = r.key
  closed : ∀ r, (g r).state.isOpen = false

def AgentRun.failed (errorClass message : String) (now : Time) (r : AgentRun) : AgentRun :=
  { r with
    state := .failed
    finishedAt := some now
    error := some ⟨errorClass, truncate message⟩ }

def AgentRun.completed (output : Option Dict) (handoff : List Handoff) (now : Time)
    (r : AgentRun) : AgentRun :=
  { r with state := .completed, finishedAt := some now, output := output, handoff := handoff }

theorem failed_ends (errorClass message : String) (now : Time) :
    EndsRun (AgentRun.failed errorClass message now) := ⟨fun _ => rfl, fun _ => rfl⟩

theorem completed_ends (output : Option Dict) (handoff : List Handoff) (now : Time) :
    EndsRun (AgentRun.completed output handoff now) := ⟨fun _ => rfl, fun _ => rfl⟩

theorem aborted_ends (reason : AbortReason) (message : Option String) (now : Time) :
    EndsRun (AgentRun.aborted reason message now) := ⟨fun _ => rfl, fun _ => rfl⟩

/-- The claim is current: its task runs under its token. -/
structure Claim.Holds (claim : Claim) (w : World) (t : Task) : Prop where
  row : w.task? claim.task.id = some t
  running : t.state = .running
  token : t.leaseToken = some claim.token

theorem Claim.Holds.id {claim : Claim} {t : Task} (h : claim.Holds w t) :
    t.id = claim.task.id := (w.mem_of_task? _ h.row).2

theorem lockedTask_spec {claim : Claim} {t : Task} (h : Returns (lockedTask claim) w t w') :
    claim.Holds w t ∧ w' = w := by
  obtain ⟨⟨h₁, h₂, h₃⟩, rfl⟩ := returns_lockedTask.mp h
  exact ⟨⟨h₁, h₂, h₃⟩, rfl⟩

/-- A run that is worked on, and still unfinished. -/
structure Claim.Works (claim : Claim) (w : World) (r : AgentRun) : Prop where
  row : w.agentRun? claim.run.id = some r
  isOpen : r.state.isOpen = true

theorem runOf_spec {claim : Claim} {r : AgentRun} (h : Returns (runOf claim) w r w') :
    claim.Works w r ∧ w' = w := by
  obtain ⟨⟨h₁, h₂⟩, rfl⟩ := returns_runOf.mp h
  exact ⟨⟨h₁, h₂⟩, rfl⟩

theorem releaseLease_spec {id : Id} {u : Unit} (h : Returns (releaseLease id) w u w') :
    w' = w.setTask id fun t =>
      { t with leaseOwner := none, leaseUntil := none, leaseToken := none } :=
  returns_updateTask.mp h

/-- The lease is released, and the row moves by a legal move. -/
theorem release_transition {id : Id} {s : TaskState} {u v : Unit}
    (h₁ : Returns (releaseLease id) w u w₁) (h₂ : Returns (transitionTask id s) w₁ v w') :
    (∃ t, w.task? id = some t ∧ taskFsm.can t.state s = true) ∧
      w' = w.setTask id (Task.leaves s) := by
  rw [releaseLease_spec h₁] at h₂
  obtain ⟨t', ht', hcan, rfl⟩ := returns_transitionTask.mp h₂
  rw [World.setTask_task? (by intro _; rfl)] at ht'
  obtain ⟨t, ht, he⟩ := Option.map_eq_some_iff.mp ht'
  have hid := (w.mem_of_task? id ht).2
  rw [if_pos hid] at he
  refine ⟨⟨t, ht, ?_⟩, ?_⟩
  · rw [← he] at hcan
    exact hcan
  · rw [World.setTask_setTask (by intro _; rfl)]
    rfl

/-! The claim's operations. -/

theorem heartbeat_spec {claim : Claim} {a : Time} (h : Returns (tm.heartbeat claim) w a w') :
    ∃ t, claim.Holds w t ∧ w' = w.setTask t.id (Task.extended (w.now + tm.lease)) := by
  simp only [TaskManager.heartbeat, returns_bind, returns_clock, returns_updateTask,
    returns_pure] at h
  obtain ⟨t, w₁, h₁, _, _, ⟨rfl, rfl⟩, _, _, rfl, _, rfl⟩ := h
  obtain ⟨hold, rfl⟩ := lockedTask_spec h₁
  exact ⟨t, hold, rfl⟩

theorem requeue_spec {task : Task} {run : Option AgentRun} {ended : Payload} {u : Unit}
    (h : Returns (tm.requeue task run ended) w u w') : ∃ t, w.task? task.id = some t ∧
      taskFsm.can t.state .ready = true ∧ Logged (w.setTask task.id fun t =>
        { t with state := .ready, availableAt := some (w.now + tm.backoff t.attempt) }) w' := by
  simp only [TaskManager.requeue, returns_bind, returns_clock, returns_updateTask,
    returns_transitionTask] at h
  obtain ⟨now, w, ⟨rfl, rfl⟩, _, _, rfl, _, _, ⟨t', ht', hcan, rfl⟩, _, w₁, h₁, _, w₂, h₂, h₃⟩ := h
  rw [World.setTask_task? (by intro _; rfl)] at ht'
  obtain ⟨t, ht, he⟩ := Option.map_eq_some_iff.mp ht'
  rw [if_pos (w.mem_of_task? _ ht).2] at he
  have hl₁ := emitTask_logged _ _ _ _ _ _ h₁
  have hl₂ := emitTask_logged _ _ _ _ _ _ h₂
  have hl₃ : Logged w₂ w' := by
    refine Keeps.forSome (fun run _ => ?_) _ _ _ h₃
    exact (emitTask_logged _ _ _).bind fun _ =>
      (Keeps.get.bind fun _ => Keeps.orRaise).bind fun _ => taskActivity_logged _ _ _ _
  refine ⟨t, ht, ?_, ?_⟩
  · rw [← he] at hcan
    exact hcan
  · rw [World.setTask_setTask (by intro _; rfl)] at hl₁
    exact (hl₁.trans hl₂).trans hl₃

theorem fail_spec {claim : Claim} {errorClass message : String} {retryable retry : Bool}
    (h : Returns (tm.fail claim errorClass message retryable) w retry w') :
    ∃ t r g, claim.Holds w t ∧ claim.Works w r ∧ EndsRun g ∧
      ((t.attempt < t.maxAttempts ∧
          Logged ((w.setRun r.id g).setTask t.id fun x =>
            x.requeued (w.now + tm.backoff x.attempt)) w') ∨
        ∃ w₁ u, Logged ((w.setRun r.id g).setTask t.id (Task.leaves .failed)) w₁ ∧
          Returns (tm.failed t.id) w₁ u w') := by
  simp only [TaskManager.fail, returns_bind (m := lockedTask _), returns_bind (m := runOf _),
    returns_bind (m := clock), returns_bind (m := updateRun _ _), returns_clock,
    returns_updateRun, returns_bind (m := finishRun _ _ _), returns_bind (m := releaseLease _)] at h
  obtain ⟨t, w₀, h₀, r, w₁, h₁, now, w, ⟨rfl, rfl⟩, _, _, rfl, _, w₂, h₂, _, w₃, h₃, h⟩ := h
  obtain ⟨hold, rfl⟩ := lockedTask_spec h₀
  obtain ⟨works, rfl⟩ := runOf_spec h₁
  have hw₂ := finishRun_spec rfl h₂
  rw [World.setRun_setRun (by intro _; rfl)] at hw₂
  refine ⟨t, r, _, hold, works, failed_ends errorClass message w.now, ?_⟩
  rcases returns_ite.mp h with ⟨hretry, h⟩ | ⟨_, h⟩
  · left
    obtain ⟨_, w₄, h₄, h₅⟩ := returns_bind.mp h
    obtain ⟨_, rfl⟩ := returns_pure.mp h₅
    obtain ⟨_, _, _, hl⟩ := requeue_spec h₄
    simp only [Bool.and_eq_true, decide_eq_true_eq] at hretry
    rw [releaseLease_spec h₃, World.setTask_setTask (by intro _; rfl), hw₂] at hl
    exact ⟨hretry.2, hl⟩
  · right
    simp only [returns_bind, returns_pure] at h
    obtain ⟨_, w₄, h₄, _, w₅, h₅, _, w₆, h₆, _, w₇, h₇, _, rfl⟩ := h
    obtain ⟨_, hw₄⟩ := release_transition h₃ h₄
    rw [hw₂] at hw₄
    have hl := (emitTask_logged _ _ _ _ _ _ h₅).trans (taskActivity_logged _ _ _ _ _ _ _ h₆)
    rw [hw₄] at hl
    exact ⟨w₆, _, hl, h₇⟩

theorem abort_spec {claim : Claim} {reason : AbortReason} {message : Option String} {u : Unit}
    (h : Returns (tm.abort claim reason message) w u w') :
    ∃ t r g, claim.Holds w t ∧ claim.Works w r ∧ EndsRun g ∧
      (Logged ((w.setRun r.id g).setTask t.id (Task.leaves .blockedBudget)) w' ∨
        ∃ s w₁, (s = .failed ∨ s = .cancelled) ∧
          Logged ((w.setRun r.id g).setTask t.id (Task.leaves s)) w₁ ∧
          Returns (tm.failed t.id) w₁ u w') := by
  simp only [TaskManager.abort, returns_bind (m := lockedTask _), returns_bind (m := runOf _),
    returns_bind (m := abortRun _ _ _), returns_bind (m := releaseLease _)] at h
  obtain ⟨t, w₀, h₀, r, w, h₁, _, w₂, h₂, _, w₃, h₃, h⟩ := h
  obtain ⟨hold, rfl⟩ := lockedTask_spec h₀
  obtain ⟨works, rfl⟩ := runOf_spec h₁
  have hw₂ := abortRun_spec h₂
  refine ⟨t, r, _, hold, works, aborted_ends reason message w.now, ?_⟩
  rcases returns_ite.mp h with ⟨_, h⟩ | ⟨_, h⟩
  · left
    simp only [returns_bind] at h
    obtain ⟨_, w₄, h₄, _, w₅, h₅, _, w₆, h₆, h₇⟩ := h
    obtain ⟨_, hw₄⟩ := release_transition h₃ h₄
    have hl := ((emitTask_logged _ _ _ _ _ _ h₅).trans (emitTask_logged _ _ _ _ _ _ h₆)).trans
      (setActivityUnlessPaused_logged _ _ _ _ _ _ h₇)
    rw [hw₄, hw₂] at hl
    exact hl
  right
  rcases returns_ite.mp h with ⟨_, h⟩ | ⟨_, h⟩
  · simp only [returns_bind] at h
    obtain ⟨_, w₄, h₄, _, w₅, h₅, _, w₆, h₆, h₇⟩ := h
    obtain ⟨_, hw₄⟩ := release_transition h₃ h₄
    have hl := (emitTask_logged _ _ _ _ _ _ h₅).trans (taskActivity_logged _ _ _ _ _ _ _ h₆)
    rw [hw₄, hw₂] at hl
    exact ⟨.failed, w₆, .inl rfl, hl, h₇⟩
  · simp only [returns_bind] at h
    obtain ⟨_, w₄, h₄, _, w₅, h₅, _, w₆, h₆, h₇⟩ := h
    obtain ⟨_, hw₄⟩ := release_transition h₃ h₄
    have hl := (emitTask_logged _ _ _ _ _ _ h₅).trans (taskActivity_logged _ _ _ _ _ _ _ h₆)
    rw [hw₄, hw₂] at hl
    exact ⟨.cancelled, w₆, .inr rfl, hl, h₇⟩

theorem succeed_spec {claim : Claim} {output : Option Dict} {summary : Option String}
    {unlocked : List UnlockedTask} (h : Returns (tm.succeed claim output summary) w unlocked w') :
    ∃ t r g w₁, claim.Holds w t ∧ claim.Works w r ∧ EndsRun g ∧
      Returns (tm.finished t.id)
        (w.setTask t.id fun x => { x.leaves .succeeded with output := output }) unlocked w₁ ∧
      Logged (w₁.setRun r.id g) w' := by
  simp only [TaskManager.succeed, returns_bind, returns_clock, returns_updateTask,
    returns_updateRun, returns_theTask, returns_theRun, returns_pure] at h
  obtain ⟨t, w₀, h₀, r, w₁, h₁, now, w, ⟨rfl, rfl⟩, _, _, rfl, _, w₂, h₂, _, w₃, h₃, x, w₄, h₄,
    _, w₅, h₅, _, _, rfl, _, w₇, h₇, t', w₇, ⟨_, rfl⟩, r', w₇, ⟨_, rfl⟩, links, w₈, h₈, _, w₉, h₉,
    rfl, rfl⟩ := h
  obtain ⟨hold, rfl⟩ := lockedTask_spec h₀
  obtain ⟨works, rfl⟩ := runOf_spec h₁
  obtain ⟨_, hw₃⟩ := release_transition h₂ h₃
  rw [World.setTask_setTask (by intro _; rfl)] at hw₃
  rw [hw₃] at h₄
  have hw₇ := finishRun_spec rfl h₇
  rw [World.setRun_setRun (by intro _; rfl)] at hw₇
  have hl₅ := (emitTask_logged _ _ _ _ _ _ h₅).setRun r.id (AgentRun.completed output
    (unlocked.map fun u => Handoff.mk u.requiredRole u.taskId) w.now)
  have hl₈ : Logged w₇ w₈ := by
    simp only [TaskManager.activityLinks, returns_bind, returns_get, returns_pure] at h₈
    obtain ⟨_, _, ⟨rfl, rfl⟩, _, rfl⟩ := h₈
    exact Logged.refl _
  have hl₉ := setActivityUnlessPaused_logged _ _ _ _ _ _ h₉
  rw [hw₇] at hl₈
  exact ⟨t, r, _, w₄, hold, works, completed_ends _ _ _, h₄, (hl₅.trans hl₈).trans hl₉⟩

theorem suspendForApproval_spec {claim : Claim} {approval : Id} {u : Unit}
    (h : Returns (TaskManager.suspendForApproval claim approval) w u w') :
    ∃ t r path, claim.Holds w t ∧ claim.Works w r ∧
      agentRunFsm.shortestPath AgentRunState.all r.state .waitingApproval = .ok path ∧
      Logged ((w.setRun r.id (AgentRun.hopped path)).setTask t.id
        (Task.leaves .waitingApproval)) w' := by
  simp only [TaskManager.suspendForApproval, returns_bind, returns_orFail] at h
  obtain ⟨t, w₀, h₀, r, w₁, h₁, path, w₁, ⟨hpath, rfl⟩, _, w₂, h₂, _, w₃, h₃, _, w₄, h₄, _, w₅, h₅,
    h₆⟩ := h
  obtain ⟨hold, rfl⟩ := lockedTask_spec h₀
  obtain ⟨works, rfl⟩ := runOf_spec h₁
  have hw₂ := hops_spec h₂
  obtain ⟨_, hw₄⟩ := release_transition h₃ h₄
  have hl := (emitTask_logged _ _ _ _ _ _ h₅).trans (taskActivity_logged _ _ _ _ _ _ _ h₆)
  rw [hw₄, hw₂] at hl
  exact ⟨t, r, path, hold, works, hpath, hl⟩

theorem startRun_spec {claim : Claim} {u : Unit} (h : Returns (startRun tm claim) w u w') :
    ∃ t r g, claim.Holds w t ∧ w.agentRun? claim.run.id = some r ∧ r.state.isOpen = true ∧
      (∀ x, (g x).key = x.key ∧ (g x).state = .running) ∧
      w' = (w.setTask t.id (Task.extended (w.now + tm.lease))).setRun claim.run.id g := by
  simp only [startRun, returns_bind (m := TaskManager.heartbeat _ _),
    returns_bind (m := transitionRun _ _), returns_transitionRun] at h
  obtain ⟨_, _, h₁, _, _, ⟨r, hr, hcan, rfl⟩, h⟩ := h
  obtain ⟨t, hold, rfl⟩ := heartbeat_spec h₁
  have hopen : r.state.isOpen = true := by
    revert hcan
    cases r.state <;> decide
  rcases returns_ite.mp h with ⟨_, h⟩ | ⟨_, h⟩
  · obtain ⟨_, rfl⟩ := returns_pure.mp h
    exact ⟨t, r, _, hold, hr, hopen, fun x => ⟨(rfl : (x.moved .running).key = _), rfl⟩, rfl⟩
  · simp only [returns_bind, returns_clock, returns_updateRun] at h
    obtain ⟨now, _, ⟨_, rfl⟩, rfl⟩ := h
    refine ⟨t, r, (fun x => { x with startedAt := some now }) ∘ AgentRun.moved .running, hold, hr,
      hopen, fun x => ⟨rfl, rfl⟩, World.setRun_setRun (by intro _; rfl)⟩

theorem evaluate_spec {claim : Claim} {repair : Bool} {u : Unit}
    (h : Returns (evaluate tm claim repair) w u w') :
    ∃ t r g, claim.Holds w t ∧ w.agentRun? claim.run.id = some r ∧ r.state.isOpen = true ∧
      (∀ x, (g x).key = x.key ∧ ((g x).state = .evaluating ∨ (g x).state = .running)) ∧
      w' = (w.setTask t.id (Task.extended (w.now + tm.lease))).setRun claim.run.id g := by
  simp only [evaluate, returns_bind (m := TaskManager.heartbeat _ _),
    returns_bind (m := transitionRun _ _), returns_transitionRun] at h
  obtain ⟨_, _, h₁, _, _, ⟨r, hr, hcan, rfl⟩, h⟩ := h
  obtain ⟨t, hold, rfl⟩ := heartbeat_spec h₁
  have hopen : r.state.isOpen = true := by
    revert hcan
    cases r.state <;> decide
  rcases returns_ite.mp h with ⟨_, h⟩ | ⟨_, h⟩
  · simp only [returns_bind, returns_transitionRun] at h
    obtain ⟨_, _, ⟨_, _, _, rfl⟩, _, _, _, rfl⟩ := h
    rw [World.setRun_setRun (by intro _; rfl), World.setRun_setRun (by intro _; rfl)]
    exact ⟨t, r, _, hold, hr, hopen, fun x => ⟨(rfl : ((AgentRun.moved .running ∘
      AgentRun.moved .repairing ∘ AgentRun.moved .evaluating) x).key = _), .inr rfl⟩, rfl⟩
  · obtain ⟨_, rfl⟩ := returns_pure.mp h
    exact ⟨t, r, _, hold, hr, hopen, fun x => ⟨(rfl : (x.moved .evaluating).key = _), .inl rfl⟩,
      rfl⟩

/-! Claiming. -/

def Task.counted (t : Task) : Task := { t with attempt := t.attempt + 1 }

/-- A suspended run goes on under a new token. -/
theorem take_resumed {task : Task} {agent : Agent} {workerId : String} {now : Time}
    {r : AgentRun} {claim : Claim}
    (h : Returns (tm.take task agent workerId now (some r)) w claim w') :
    claim.task.id = task.id ∧ claim.run = r ∧ claim.token = w.nextId ∧
      Logged ({ w with nextId := w.nextId + 1 }.setTask task.id
        (Task.leased workerId (now + tm.lease) w.nextId)) w' := by
  simp only [TaskManager.take, Option.elim_some, returns_bind, returns_uuid7, returns_updateTask,
    returns_transitionTask, returns_theTask, returns_pure] at h
  obtain ⟨run, w, ⟨rfl, rfl⟩, token, _, ⟨rfl, rfl⟩, _, _, rfl, _, _, ⟨_, _, _, rfl⟩, t, w₂,
    ⟨ht, rfl⟩, _, w₃, h₃, rfl, rfl⟩ := h
  have hl := emitTask_logged _ _ _ _ _ _ h₃
  rw [World.setTask_setTask (by intro _; rfl)] at hl
  exact ⟨(World.mem_of_task? _ _ ht).2, rfl, rfl, hl⟩

/-- A new attempt gets a run of its own. -/
theorem take_fresh {task : Task} {agent : Agent} {workerId : String} {now : Time}
    {claim : Claim} (h : Returns (tm.take task agent workerId now none) w claim w') :
    claim.task.id = task.id ∧ claim.token = w.nextId + 1 ∧
      claim.run.key = (w.nextId, task.id, agent.id, task.attempt + 1) ∧
      claim.run.state = .created ∧
      Logged ({ w with agentRuns := w.agentRuns ++ [claim.run], nextId := w.nextId + 2 }.setTask
        task.id (Task.leased workerId (now + tm.lease) (w.nextId + 1) ∘ Task.counted)) w' := by
  simp only [TaskManager.take, TaskManager.startAttempt, Option.elim_none, returns_bind,
    returns_uuid7, returns_updateTask, returns_transitionTask, returns_theTask, returns_modify,
    returns_pure] at h
  obtain ⟨run, w₁, ⟨_, _, rfl, _, _, ⟨rfl, rfl⟩, _, _, rfl, rfl, rfl⟩, token, _, ⟨rfl, rfl⟩, _, _,
    rfl, _, _, ⟨_, _, _, rfl⟩, t, w₂, ⟨ht, rfl⟩, _, w₃, h₃, rfl, rfl⟩ := h
  have hl := emitTask_logged _ _ _ _ _ _ h₃
  rw [World.setTask_setTask (by intro _; rfl)] at hl
  refine ⟨(World.mem_of_task? _ _ ht).2, rfl, rfl, rfl, ?_⟩
  -- the count was written before the run was inserted
  rw [← World.setTask_setTask (by intro _; rfl)]
  exact hl

/-! Moves from outside a claim. -/

/-- The run an operation ends together with its task, if the task has one. -/
def World.endRun (w : World) (run : Option AgentRun) (g : AgentRun → AgentRun) : World :=
  run.elim w fun r => w.setRun r.id g

theorem transition_spec {id : Id} {s : TaskState} {p : Task → Payload} {u : Unit}
    (h : Returns (do
      transitionTask id s
      let task ← theTask id
      emitTask task (p task) none) w u w') :
    ∃ t, w.task? id = some t ∧ taskFsm.can t.state s = true ∧
      Logged (w.setTask id (Task.moved s)) w' := by
  simp only [returns_bind, returns_transitionTask, returns_theTask] at h
  obtain ⟨_, _, ⟨t, ht, hcan, rfl⟩, _, _, ⟨_, rfl⟩, h⟩ := h
  exact ⟨t, ht, hcan, emitTask_logged _ _ _ _ _ _ h⟩

theorem markReady_spec {id : Id} {u : Unit} (h : Returns (TaskManager.markReady id) w u w') :
    ∃ t, w.task? id = some t ∧ taskFsm.can t.state .ready = true ∧
      Logged (w.setTask id (Task.moved .ready)) w' :=
  transition_spec (p := fun t => .taskReady t.requiredRole) h

theorem flushTask_inserts {task : Task} {u : Unit}
    (h : Returns (TaskManager.flushTask task) w u w') :
    (∀ t ∈ w.tasks, t.id ≠ task.id) ∧ 1 ≤ task.maxAttempts ∧
      w' = { w with tasks := w.tasks ++ [task] } := by
  obtain ⟨hfresh, hw⟩ := flushTask_spec h
  simp only [TaskManager.flushTask, returns_bind, returns_get, returns_require] at h
  obtain ⟨_, _, ⟨rfl, rfl⟩, _, _, ⟨_, rfl⟩, _, _, ⟨_, rfl⟩, _, _, ⟨_, rfl⟩, _, _, ⟨hmax, rfl⟩, _⟩ := h
  exact ⟨hfresh, hmax, hw⟩

/-- A new row, and the next id after it. -/
def World.insertTask (w : World) (n : Id) (task : Task) : World :=
  { w with nextId := n, tasks := w.tasks ++ [task] }

theorem insertTask_setTask {task : Task} {id : Id} (hid : task.id = id)
    (hw : ∀ t ∈ w.tasks, t.id ≠ id) (n : Id) (f : Task → Task) :
    (w.insertTask n task).setTask id f = w.insertTask n (f task) := by
  simp only [World.setTask, World.insertTask, List.map_append, List.map_cons, List.map_nil, hid,
    if_true]
  congr 2
  exact (List.map_congr_left fun t ht => if_neg (hw t ht)).trans (List.map_id _)

/-- A new task is PENDING or READY, under an id that is new. -/
theorem addTask_spec {args : TaskArgs} {id : Id} (h : Returns (TaskManager.addTask args) w id w') :
    ∃ n s, w.nextId ≤ n ∧ (s = .pending ∨ s = .ready) ∧ (∀ t ∈ w.tasks, t.id ≠ id) ∧
      1 ≤ args.maxAttempts ∧
      Logged (w.insertTask n ((TaskManager.newTask args id w.now).moved s)) w' := by
  simp only [TaskManager.addTask, returns_bind, returns_clock, returns_pure] at h
  obtain ⟨_, _, h₁, now, w₁, ⟨rfl, rfl⟩, _, w₂, h₂, _, w₃, h₃, _, _, h₄, rfl, rfl⟩ := h
  have hnew : ∃ n, w.nextId ≤ n ∧ w₁ = { w with nextId := n } := by
    cases hi : args.taskId with
    | none =>
      rw [hi] at h₁
      exact ⟨w.nextId + 1, Nat.le_succ _, (returns_uuid7.mp h₁).2⟩
    | some j =>
      rw [hi] at h₁
      exact ⟨w.nextId, Nat.le_refl _, (returns_pure.mp h₁).2⟩
  obtain ⟨n, hn, rfl⟩ := hnew
  obtain ⟨hfresh, hmax, rfl⟩ := flushTask_inserts h₂
  have hl₃ := emitTask_logged _ _ _ _ _ _ h₃
  rcases returns_ite.mp h₄ with ⟨_, h₄⟩ | ⟨_, h₄⟩
  · refine ⟨n, .ready, hn, .inr rfl, hfresh, hmax, ?_⟩
    obtain ⟨_, _, _, hl₄⟩ := markReady_spec h₄
    have hset : (w.insertTask n (TaskManager.newTask args id w.now)).setTask id
        (Task.moved .ready) =
          w.insertTask n ((TaskManager.newTask args id w.now).moved .ready) :=
      insertTask_setTask rfl hfresh n _
    rw [← hset]
    exact (hl₃.setTask id (Task.moved .ready)).trans hl₄
  · exact ⟨n, .pending, hn, .inl rfl, hfresh, hmax,
      hl₃.trans (markIdleAgentsWaiting_logged _ _ _ _ h₄)⟩

theorem cancel_spec {id : Id} {reason : String} {u : Unit}
    (h : Returns (tm.cancel id reason) w u w') : ∃ t, w.task? id = some t ∧
      (t.state.final = true ∧ w' = w ∨ t.state.final = false ∧ ∃ g w₁, EndsRun g ∧
        Logged ((w.endRun (w.openRunOf? id) g).setTask id (Task.leaves .cancelled)) w₁ ∧
        Returns (tm.failed id) w₁ u w') := by
  simp only [TaskManager.cancel, returns_bind (m := theTask _), returns_theTask] at h
  obtain ⟨t, w, ⟨ht, rfl⟩, h⟩ := h
  obtain ⟨_, rfl⟩ := w.mem_of_task? id ht
  refine ⟨t, ht, ?_⟩
  rcases returns_ite.mp h with ⟨hf, h⟩ | ⟨hf, h⟩
  · exact .inl ⟨hf, (returns_pure.mp h).2⟩
  simp only [returns_bind, returns_get] at h
  obtain ⟨_, w, ⟨rfl, rfl⟩, _, w₁, h₁, waiting, w₂, h₂, _, w₃, h₃, _, w₄, h₄, _, w₅, h₅, _, w₆, h₆,
    _, w₇, h₇, h₈⟩ := h
  have hw₁ : w₁ = w.endRun (w.openRunOf? t.id) (AgentRun.aborted .human (some reason) w.now) := by
    rcases returns_forSome.mp h₁ with ⟨run, hrun, h₁⟩ | ⟨hrun, rfl⟩
    · rw [hrun]
      exact abortRun_spec h₁
    · rw [hrun]
      rfl
  have hl₂ := agentsWaitingOn_logged t _ _ _ h₂
  obtain ⟨_, hw₄⟩ := release_transition h₃ h₄
  have hl₄ := hl₂.setTask t.id (Task.leaves .cancelled)
  rw [← hw₄, hw₁] at hl₄
  have hl₅ := emitTask_logged _ _ _ _ _ _ h₅
  have hl₆ : Logged w₅ w₆ := by
    refine Keeps.forSome (fun run _ => ?_) _ _ _ h₆
    exact (Keeps.get.bind fun _ => Keeps.orRaise).bind fun agent => taskActivity_logged _ _ _ _
  have hl₇ : Logged w₆ w₇ :=
    Keeps.forEach _ (fun a _ => setActivityUnlessPaused_logged _ _ _) _ _ _ h₇
  exact .inr ⟨by simpa using hf, _, w₇, aborted_ends _ _ _,
    ((hl₄.trans hl₅).trans hl₆).trans hl₇, h₈⟩

theorem completeWithoutRun_spec {id : Id} {output : Option Dict} {summary : Option String}
    {unlocked : List UnlockedTask}
    (h : Returns (tm.completeWithoutRun id output summary) w unlocked w') :
    ∃ t w₁, w.task? id = some t ∧ taskFsm.can t.state .succeeded = true ∧
      Returns (tm.finished id) (w.setTask id (Task.answered output)) unlocked w₁ ∧
      Logged w₁ w' := by
  simp only [TaskManager.completeWithoutRun, returns_bind, returns_updateTask,
    returns_transitionTask, returns_theTask, returns_pure] at h
  obtain ⟨_, _, rfl, _, _, ⟨t', ht', hcan, rfl⟩, x, w₁, h₁, _, _, ⟨_, rfl⟩, _, w₂, h₂, rfl, rfl⟩ := h
  rw [World.setTask_task? (by intro _; rfl)] at ht'
  obtain ⟨t, ht, he⟩ := Option.map_eq_some_iff.mp ht'
  rw [if_pos (w.mem_of_task? _ ht).2] at he
  rw [World.setTask_setTask (by intro _; rfl)] at h₁
  refine ⟨t, _, ht, ?_, h₁, emitTask_logged _ _ _ _ _ _ h₂⟩
  rw [← he] at hcan
  exact hcan

theorem failWithoutRun_spec {id : Id} {errorClass message : String} {u : Unit}
    (h : Returns (tm.failWithoutRun id errorClass message) w u w') :
    ∃ t w₁, w.task? id = some t ∧ taskFsm.can t.state .failed = true ∧
      Logged (w.setTask id (Task.unanswered errorClass message)) w₁ ∧
      Returns (tm.failed id) w₁ u w' := by
  simp only [TaskManager.failWithoutRun, returns_bind, returns_updateTask, returns_transitionTask,
    returns_theTask] at h
  obtain ⟨_, _, rfl, _, _, ⟨t', ht', hcan, rfl⟩, _, _, ⟨_, rfl⟩, _, w₁, h₁, h₂⟩ := h
  rw [World.setTask_task? (by intro _; rfl)] at ht'
  obtain ⟨t, ht, he⟩ := Option.map_eq_some_iff.mp ht'
  rw [if_pos (w.mem_of_task? _ ht).2] at he
  have hl := emitTask_logged _ _ _ _ _ _ h₁
  rw [World.setTask_setTask (by intro _; rfl)] at hl
  refine ⟨t, w₁, ht, ?_, hl, h₂⟩
  rw [← he] at hcan
  exact hcan

/-! Maintenance. -/

theorem releaseBlockedTask_spec {id : Id} {u : Unit}
    (h : Returns (tm.releaseBlockedTask id) w u w') : ∃ t, w.task? id = some t ∧
      (t.attempt < t.maxAttempts ∧ taskFsm.can t.state .ready = true ∧
          Logged (w.setTask id (Task.moved .ready)) w' ∨
        t.maxAttempts ≤ t.attempt ∧ taskFsm.can t.state .failed = true ∧
          ∃ w₁, Logged (w.setTask id (Task.moved .failed)) w₁ ∧
            Returns (tm.failed id) w₁ u w') := by
  simp only [TaskManager.releaseBlockedTask, returns_bind (m := theTask _), returns_theTask] at h
  obtain ⟨t, w, ⟨ht, rfl⟩, h⟩ := h
  obtain ⟨_, rfl⟩ := w.mem_of_task? id ht
  refine ⟨t, ht, ?_⟩
  rcases returns_ite.mp h with ⟨hlt, h⟩ | ⟨hlt, h⟩
  · obtain ⟨t', ht', hcan, hl⟩ := markReady_spec h
    rw [ht, Option.some.injEq] at ht'
    subst ht'
    exact .inl ⟨hlt, hcan, hl⟩
  · simp only [returns_bind, returns_transitionTask] at h
    obtain ⟨_, _, ⟨t', ht', hcan, rfl⟩, _, w₁, h₁, h₂⟩ := h
    rw [ht, Option.some.injEq] at ht'
    subst ht'
    exact .inr ⟨Nat.le_of_not_lt hlt, hcan, w₁, emitTask_logged _ _ _ _ _ _ h₁, h₂⟩

theorem reapTask_spec {id : Id} {u : Unit} (h : Returns (tm.reapTask id) w u w') :
    ∃ t g, w.task? id = some t ∧ t.leaseUntil.isSome = true ∧ EndsRun g ∧
      (t.attempt < t.maxAttempts ∧ Logged ((w.endRun (w.openRunOf? id) g).setTask id fun x =>
          x.requeued (w.now + tm.backoff x.attempt)) w' ∨
        ∃ w₁, Logged ((w.endRun (w.openRunOf? id) g).setTask id (Task.leaves .failed)) w₁ ∧
          Returns (tm.failed id) w₁ u w') := by
  simp only [TaskManager.reapTask, returns_bind (m := theTask _), returns_theTask,
    returns_bind (m := get), returns_get, returns_bind (m := orRaise _ _), returns_orRaise,
    returns_bind (m := forSome _ _), returns_bind (m := releaseLease _)] at h
  obtain ⟨t, w, ⟨ht, rfl⟩, _, w, ⟨rfl, rfl⟩, until_, w, ⟨huntil, rfl⟩, _, w₁, h₁, _, w₂, h₂, h⟩ := h
  obtain ⟨_, rfl⟩ := w.mem_of_task? id ht
  obtain ⟨g, hg, hw₁⟩ : ∃ g, EndsRun g ∧ w₁ = w.endRun (w.openRunOf? t.id) g := by
    refine ⟨_, aborted_ends .timeout (some s!"lease expired at {isoformat until_}") w.now, ?_⟩
    rcases returns_forSome.mp h₁ with ⟨run, hrun, h₁⟩ | ⟨hrun, rfl⟩
    · rw [hrun]
      exact abortRun_spec h₁
    · rw [hrun]
      rfl
  have hnow : w₁.now = w.now := by
    rw [hw₁]
    cases w.openRunOf? t.id <;> rfl
  refine ⟨t, g, ht, by simp [huntil], hg, ?_⟩
  rcases returns_ite.mp h with ⟨hretry, h⟩ | ⟨_, h⟩
  · left
    obtain ⟨_, _, _, hl⟩ := requeue_spec h
    rw [releaseLease_spec h₂, World.setTask_setTask (by intro _; rfl), World.setTask_now, hnow,
      hw₁] at hl
    exact ⟨by simpa using hretry, hl⟩
  · right
    simp only [returns_bind] at h
    obtain ⟨_, w₃, h₃, _, w₄, h₄, _, w₅, h₅, h₆⟩ := h
    obtain ⟨_, hw₃⟩ := release_transition h₂ h₃
    have hl := (emitTask_logged _ _ _ _ _ _ h₄).trans
      (Keeps.forSome (fun _ _ => taskActivity_logged _ _ _ _) _ _ _ h₅)
    rw [hw₃, hw₁] at hl
    exact ⟨w₅, hl, h₆⟩

end Autora
