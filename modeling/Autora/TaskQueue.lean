import Autora.QueueOps
import Autora.StaleClaims

/-! The task queue: leases, runs and attempts go together in every reachable state,
and a READY task can always be claimed. -/

namespace Autora

open Transactions Systems

variable {e : WorkflowEngine} {tm : TaskManager} {w : World} {t : Task}

/-! A claim on a READY task goes through. -/

theorem take_returns {task : Task} (hrow : w.task? task.id = some task)
    (hready : task.state = .ready) (agent : Agent) (workerId : String) (now : Time)
    (resume : Option AgentRun) :
    ∃ claim w', Returns (tm.take task agent workerId now resume) w claim w' := by
  have hstart : ∃ run w₁ t, Returns (resume.elim (TaskManager.startAttempt task agent now) pure)
      w run w₁ ∧ w₁.task? task.id = some t ∧ t.state = .ready := by
    cases resume with
    | none =>
      refine ⟨_, _, task.counted, rfl, ?_, hready⟩
      exact World.setTask_self (f := Task.counted) (fun _ => rfl) hrow
    | some r => exact ⟨r, w, task, rfl, hrow, hready⟩
  obtain ⟨run, w₁, t, h₁, ht, hr⟩ := hstart
  -- the row under its lease, before it moves
  have hleased := World.setTask_self (w := { w₁ with nextId := w₁.nextId + 1 })
    (f := fun t => { t with
      leaseOwner := some workerId
      leaseUntil := some (now + tm.lease)
      leaseToken := some w₁.nextId
      availableAt := none }) (fun _ => rfl) ht
  have hmoved := World.setTask_self (f := Task.moved .running) (fun _ => rfl) hleased
  simp only [TaskManager.take, returns_bind, returns_uuid7, returns_updateTask,
    returns_transitionTask, returns_theTask, returns_pure]
  refine ⟨_, _, run, w₁, h₁, _, _, ⟨rfl, rfl⟩, (), _, rfl, (), _, ⟨_, hleased, ?_, rfl⟩, _, _,
    ⟨hmoved, rfl⟩, (), _, rfl, rfl, rfl⟩
  show taskFsm.can t.state .running = true
  rw [hr]
  rfl

/-- A suspended run can be resumed: its agent's next claim is the one on its task. -/
theorem claimNext_resumes (hu : w.UniqueTasks) {r : AgentRun} (agent : Agent)
    (hr : w.openRun? agent.id = some r) (hwait : r.state = .waitingApproval)
    (ht : t ∈ w.tasks) (hready : t.state = .ready) (hid : r.taskId = t.id) (workerId : String) :
    ∃ claim w', tm.claimNext agent workerId [] w = .ok (some claim, w') ∧
      claim.task.id = t.id ∧ claim.run = r := by
  have hrow := hu.task? ht
  have hfind : (w.tasks.find? fun x => x.id = r.taskId && x.state = .ready && x.id ∉ []) =
      some t := by
    cases hf : w.tasks.find? fun x => x.id = r.taskId && x.state = .ready && x.id ∉ [] with
    | none =>
      have hno := List.find?_eq_none.mp hf t ht
      simp [hid, hready] at hno
    | some y =>
      have hp := List.find?_some hf
      simp only [Bool.and_eq_true, decide_eq_true_eq] at hp
      have hy := hu.task? (List.mem_of_find?_eq_some hf)
      rw [hp.1.1, hid, hrow, Option.some.injEq] at hy
      rw [hy]
  obtain ⟨claim, w', htake⟩ : ∃ claim w',
      Returns (tm.take t agent workerId w.now (some r)) w claim w' :=
    take_returns hrow hready agent workerId w.now (some r)
  obtain ⟨hcid, hcrun, _⟩ := take_resumed htake
  refine ⟨claim, w', ?_, hcid, hcrun⟩
  show Returns (tm.claimNext agent workerId []) w (some claim) w'
  simp only [TaskManager.claimNext, returns_bind (m := get), returns_get]
  refine ⟨w, w, ⟨rfl, rfl⟩, ?_⟩
  rw [hr]
  simp only [returns_bind, returns_require, returns_orRaise, returns_pure]
  exact ⟨⟨⟩, w, ⟨hwait, rfl⟩, t, w, ⟨hfind, rfl⟩, claim, w', htake, rfl, rfl⟩

theorem eq_of_length_le_one {α : Type} {xs : List α} (h : xs.length ≤ 1) {a b : α}
    (ha : a ∈ xs) (hb : b ∈ xs) : a = b := by
  cases xs with
  | nil => cases ha
  | cons x xs =>
    have hnil : xs = [] := List.length_eq_zero_iff.mp (by simpa using h)
    subst hnil
    rw [List.mem_singleton.mp ha, List.mem_singleton.mp hb]

/-! What holds of the queue. -/

/-- The task's suspended run can be resumed by its agent, or the task has an attempt
left and is on offer to every agent of its role once its backoff is over. -/
def CanBeClaimed (w : World) (t : Task) : Prop :=
  (∃ r ∈ w.agentRuns, r.taskId = t.id ∧ r.state = .waitingApproval ∧
    ∀ (tm : TaskManager) (agent : Agent) (workerId : String), agent.id = r.agentId →
      ∃ claim w', tm.claimNext agent workerId [] w = .ok (some claim, w') ∧
        claim.task.id = t.id ∧ claim.run = r) ∨
  (t.attempt < t.maxAttempts ∧ ∀ (agent : Agent) (now : Time), agent.companyId = t.companyId →
    agent.role = t.requiredRole → (∀ at_ ∈ t.availableAt, at_ ≤ now) →
      TaskManager.claimable { w with now := now } agent [] t = true)

structure TaskQueue (w : World) : Prop where
  leased : ∀ t ∈ w.tasks, t.state = .running ↔
    t.leaseOwner.isSome = true ∧ t.leaseUntil.isSome = true ∧ t.leaseToken.isSome = true
  working : ∀ t ∈ w.tasks, t.state = .running → ∃ r, openRuns (w.runsOf t.id) = [r]
  unfinished : ∀ r ∈ w.agentRuns, r.state.isOpen = true → ∃ t ∈ w.tasks, t.id = r.taskId ∧
    (t.state = .running ∨ t.state = .waitingApproval ∨
      t.state = .ready ∧ r.state = .waitingApproval)
  perAgent : ∀ a, (w.agentRuns.filter fun r => r.agentId = a && r.state.isOpen).length ≤ 1
  perTask : ∀ i, (openRuns (w.runsOf i)).length ≤ 1
  numbered : ∀ t ∈ w.tasks, (w.runsOf t.id).map (·.attempt) = List.range' 1 t.attempt
  bounded : ∀ t ∈ w.tasks, t.attempt ≤ t.maxAttempts
  claimable : ∀ t ∈ w.tasks, t.state = .ready → CanBeClaimed w t

theorem QueueSound.claimable (hq : QueueSound none w) (ht : t ∈ w.tasks)
    (hready : t.state = .ready) : CanBeClaimed w t := by
  have hatt := hq.tasks t.id t (hq.unique.task? ht) (by intro hh; cases hh)
  rcases hatt.staffed with ⟨hn, _, hl⟩ | ⟨r, hone, hr, _⟩ | ⟨_, _, hst⟩
  · refine .inr ⟨hl (by rw [hready]; rfl), fun agent now hcompany hrole hat => ?_⟩
    have hwait : ∀ r ∈ w.agentRuns, ¬ (r.taskId = t.id ∧ r.state = .waitingApproval) := by
      rintro r hr ⟨htid, hst⟩
      have hmem : r ∈ openRuns (w.runsOf t.id) := mem_openRuns.mpr ⟨hr, htid, by rw [hst]; rfl⟩
      rw [hn] at hmem
      cases hmem
    have hav : t.availableAt.all (· ≤ now) = true := by
      cases hopt : t.availableAt with
      | none => rfl
      | some at_ => simpa using hat at_ hopt
    simp only [TaskManager.claimable, Bool.and_eq_true, decide_eq_true_eq, Bool.not_eq_true',
      List.any_eq_false]
    exact ⟨⟨⟨⟨⟨⟨hcompany.symm, hrole.symm⟩, hready⟩, hl (by rw [hready]; rfl)⟩, hav⟩, hwait⟩,
      by simp⟩
  · have hmem : r ∈ openRuns (w.runsOf t.id) := by
      rw [hone]
      exact List.mem_singleton.mpr rfl
    obtain ⟨hr', htid, ho⟩ := mem_openRuns.mp hmem
    refine .inl ⟨r, hr', htid, hr, fun tm agent workerId ha => ?_⟩
    refine claimNext_resumes hq.unique agent ?_ hr ht hready htid workerId
    -- the agent has no other unfinished run
    cases hf : w.openRun? agent.id with
    | none =>
      have hno := List.find?_eq_none.mp hf r hr'
      simp [ha, ho] at hno
    | some y =>
      have hp := List.find?_some hf
      have hcount := hq.agents agent.id
      rw [List.countP_eq_length_filter] at hcount
      have hy : y ∈ w.agentRuns.filter fun r => r.agentId = agent.id && r.state.isOpen :=
        List.mem_filter.mpr ⟨List.mem_of_find?_eq_some hf, hp⟩
      have hrm : r ∈ w.agentRuns.filter fun r => r.agentId = agent.id && r.state.isOpen :=
        List.mem_filter.mpr ⟨hr', by simp [ha, ho]⟩
      rw [eq_of_length_le_one hcount hy hrm]
  · rw [hready] at hst
    cases hst

theorem task_queue (e : WorkflowEngine) (tm : TaskManager) (hw : Wired e tm) (s : Runtime)
    (h : (runtime e tm).Reach queueOnly s) : TaskQueue s.db := by
  obtain ⟨hq, _⟩ := queue_sound hw h
  have hl := leases_sound hw h
  have hrow : ∀ t ∈ s.db.tasks, s.db.task? t.id = some t := fun t ht => hq.unique.task? ht
  have hatt : ∀ i t, s.db.task? i = some t → Attempted t (s.db.runsOf i) := fun i t ht =>
    hq.tasks i t ht (by intro hh; cases hh)
  refine ⟨fun t ht => (hl.leased _ t (hrow t ht)).running_iff, fun t ht hr => ?_,
    fun r hr ho => ?_, fun a => ?_, fun i => ?_, fun t ht => (hatt _ t (hrow t ht)).numbered,
    fun t ht => (hatt _ t (hrow t ht)).bounded, fun t ht hr => hq.claimable ht hr⟩
  · rcases (hatt _ t (hrow t ht)).staffed with ⟨_, hne, _⟩ | ⟨_, _, _, hst⟩ | ⟨r, hone, _⟩
    · exact absurd hr hne
    · rw [hr] at hst
      rcases hst with hst | hst <;> cases hst
    · exact ⟨r, hone⟩
  · obtain ⟨t, ht⟩ := hq.known r hr
    obtain ⟨hmem, hid⟩ := s.db.mem_of_task? _ ht
    refine ⟨t, hmem, hid, ?_⟩
    have hin : r ∈ openRuns (s.db.runsOf r.taskId) := mem_openRuns.mpr ⟨hr, rfl, ho⟩
    rcases (hatt _ t ht).staffed with ⟨hn, _, _⟩ | ⟨r', hone, hr', hst⟩ | ⟨_, _, hst⟩
    · rw [hn] at hin
      cases hin
    · rw [hone] at hin
      rw [List.mem_singleton.mp hin]
      rcases hst with hst | hst
      · exact .inr (.inr ⟨hst, hr'⟩)
      · exact .inr (.inl hst)
    · exact .inl hst
  · rw [← List.countP_eq_length_filter]
    exact hq.agents a
  · cases ht : s.db.task? i with
    | none =>
      have hnone : openRuns (s.db.runsOf i) = [] := by
        refine List.eq_nil_iff_forall_not_mem.mpr fun r hr => ?_
        obtain ⟨hmem, hid, _⟩ := mem_openRuns.mp hr
        obtain ⟨t, ht'⟩ := hq.known r hmem
        rw [hid, ht] at ht'
        cases ht'
      simp [hnone]
    | some t =>
      rcases (hatt i t ht).staffed with ⟨hn, _, _⟩ | ⟨r, hone, _, _⟩ | ⟨r, hone, _⟩
      · simp [hn]
      · simp [hone]
      · simp [hone]

theorem Op.ofQueue_of_isFree {op : Op} (h : op.isFree = true) : op.OfQueue := by
  cases op <;> trivial

theorem path_queue {e : WorkflowEngine} {s : Runtime} {ops : List Op}
    (h : ops.all Op.isFree = true) : (runtime e e.bound).Path queueOnly s (s.trace e ops) := by
  induction ops generalizing s with
  | nil => exact .refl
  | cons op ops ih =>
    rw [List.all_cons, Bool.and_eq_true] at h
    exact .head ⟨op, Op.ofQueue_of_isFree h.1, Op.called_of_isFree h.1 s, rfl⟩ (ih h.2)

/-- After the reaper has passed: one attempt is used up, and the task is on offer again. -/
theorem task_queue_reaped : sleptThrough.db.agentRuns.length = 1 ∧ TaskQueue sleptThrough.db := by
  have hreach : (runtime unbound unbound.bound).Reach queueOnly sleptThrough :=
    ⟨Runtime.staffed, ⟨rfl, rfl, rfl, rfl⟩, path_queue (by decide)⟩
  exact ⟨by decide +kernel, task_queue unbound unbound.bound (.inl rfl) sleptThrough hreach⟩

end Autora
