import Autora.QueueSteps

/-! The other operations of the queue: claiming, approvals and maintenance. Every
reachable queue is sound. -/

namespace Autora

open Transactions Systems

variable {e : WorkflowEngine} {tm : TaskManager} {w w₁ w' : World} {x : Option Id} {i : Id}
  {t t' : Task} {c : Claim}

/-! Claiming. -/

/-- The suspended run of the agent goes on. -/
theorem take_resumed_queue {agent : Agent} {workerId : String} {now : Time} {r : AgentRun}
    {task : Task} {claim : Claim} (hrow : w.task? task.id = some task)
    (hready : task.state = .ready) (hr : w.openRun? agent.id = some r)
    (htid : task.id = r.taskId)
    (h : Returns (tm.take task agent workerId now (some r)) w claim w') :
    QueueStep none w w' ∧ claim.Owns w' := by
  obtain ⟨hid, hrun, _, hl⟩ := take_resumed h
  have hp := List.find?_some hr
  simp only [Bool.and_eq_true, decide_eq_true_eq] at hp
  have hmem := List.mem_of_find?_eq_some hr
  refine ⟨?_, r, ?_, by rw [hrun], by rw [hid, htid]⟩
  · have hfirst : QueueStep none w { w with nextId := w.nextId + 1 } :=
      .of_same (Nat.le_succ _) rfl rfl
    refine QueueStep.trans (hfirst.trans ?_) hl.queue
    have hrow' : { w with nextId := w.nextId + 1 }.task? task.id = some task := hrow
    refine .of_touches rfl (fun _ => setTask_touches fun _ => rfl) hrow' (by rw [hready]; rfl)
      fun _ h t' ht' => ?_
    rw [World.setTask_self (by intro _; rfl) hrow', Option.some.injEq] at ht'
    subst ht'
    have hopen : r ∈ openRuns ({ w with nextId := w.nextId + 1 }.runsOf task.id) :=
      mem_openRuns.mpr ⟨hmem, htid.symm, hp.2⟩
    exact ⟨h.numbered, h.bounded, .working r (h.staffed.eq_of_mem hopen) rfl⟩
  · rw [hl.agentRuns]
    exact hmem

/-- Nothing else is unfinished for a task on offer. -/
theorem Attempted.on_offer {agent : Agent} {locked : List Id} {task : Task}
    (h : Attempted task (w.runsOf task.id))
    (ho : TaskManager.claimable w agent locked task = true) :
    task.attempt < task.maxAttempts ∧ openRuns (w.runsOf task.id) = [] := by
  simp only [TaskManager.claimable, Bool.and_eq_true, decide_eq_true_eq, Bool.not_eq_true',
    List.any_eq_false] at ho
  obtain ⟨⟨⟨⟨⟨_, _⟩, hready⟩, hlt⟩, _⟩, hnone⟩ := ho.1
  refine ⟨hlt, ?_⟩
  rcases h.staffed with ⟨hn, _, _⟩ | ⟨r, hone, hr, _⟩ | ⟨_, _, hst⟩
  · exact hn
  · have hmem : r ∈ openRuns (w.runsOf task.id) := by
      rw [hone]
      exact List.mem_singleton.mpr rfl
    obtain ⟨hr', htid, _⟩ := mem_openRuns.mp hmem
    exact absurd ⟨htid, hr⟩ (hnone r hr')
  · rw [hready] at hst
    cases hst

theorem take_fresh_queue {agent : Agent} {workerId : String} {now : Time} {locked : List Id}
    {task : Task} {claim : Claim} (hrow : w.task? task.id = some task)
    (hr : w.openRun? agent.id = none)
    (ho : TaskManager.claimable w agent locked task = true)
    (h : Returns (tm.take task agent workerId now none) w claim w') :
    QueueStep none w w' ∧ claim.Owns w' := by
  obtain ⟨hid, _, hkey, hcreated, hl⟩ := take_fresh h
  simp only [AgentRun.key, Prod.mk.injEq] at hkey
  obtain ⟨hrid, hrtask, hragent, hrattempt⟩ := hkey
  refine ⟨QueueStep.trans ⟨?_, fun hq _ => ⟨?_, fun j hj => (by cases hj)⟩⟩ hl.queue, claim.run,
    ?_, rfl, by rw [hrtask, hid]⟩
  · show w.agentRuns.map AgentRun.key <+: (w.agentRuns ++ [claim.run]).map AgentRun.key
    rw [List.map_append]
    exact List.prefix_append _ _
  · have hatt := hq.tasks _ task hrow (by intro hh; cases hh)
    obtain ⟨hlt, hnone⟩ := hatt.on_offer ho
    -- the run is there, and the task does not count it yet
    have hmid : QueueSound (some task.id)
        { w with agentRuns := w.agentRuns ++ [claim.run], nextId := w.nextId + 2 } := by
      refine ⟨hq.unique, ?_, fun r hmem => ?_, fun r hmem => ?_, fun a => ?_, fun j t hj hne => ?_⟩
      · rw [List.map_append, List.nodup_append]
        refine ⟨hq.runIds, by simp, fun j hj k hk he => ?_⟩
        obtain ⟨r, hr, rfl⟩ := List.mem_map.mp hj
        simp only [List.map_cons, List.map_nil, List.mem_singleton] at hk
        have hltr := hq.runNext r hr
        rw [he, hk, hrid] at hltr
        exact absurd hltr (Nat.lt_irrefl _)
      · rcases List.mem_append.mp hmem with hmem | hmem
        · exact Nat.lt_of_lt_of_le (hq.runNext r hmem) (Nat.le_add_right _ _)
        · rw [List.mem_singleton.mp hmem, hrid]
          exact Nat.lt_add_of_pos_right (by decide)
      · rcases List.mem_append.mp hmem with hmem | hmem
        · exact hq.known r hmem
        · rw [List.mem_singleton.mp hmem, hrtask]
          exact ⟨task, hrow⟩
      · rw [List.countP_append]
        by_cases ha : agent.id = a
        · have hzero : w.agentRuns.countP (fun r => r.agentId = a && r.state.isOpen) = 0 := by
            rw [List.countP_eq_zero]
            intro r hmem
            have hno := List.find?_eq_none.mp hr r hmem
            rw [ha] at hno
            exact hno
          rw [hzero, Nat.zero_add]
          exact List.countP_le_length
        · have hzero : [claim.run].countP (fun r => r.agentId = a && r.state.isOpen) = 0 := by
            simp [hragent, ha]
          rw [hzero]
          exact hq.agents a
      · have hruns : World.runsOf { w with
            agentRuns := w.agentRuns ++ [claim.run], nextId := w.nextId + 2 } j = w.runsOf j := by
          have hne' : claim.run.taskId ≠ j := by
            rw [hrtask]
            exact fun hh => hne (congrArg some hh.symm)
          simp [World.runsOf, List.filter_append, hne']
        rw [hruns]
        exact hq.tasks j t hj (by intro hh; cases hh)
    refine hmid.touched (i := task.id) (setTask_touches fun _ => rfl)
      (fun j hj _ hx => hj (Option.some.inj hx)) fun _ t' ht' => ?_
    have hrow' : World.task? { w with
        agentRuns := w.agentRuns ++ [claim.run], nextId := w.nextId + 2 } task.id = some task := hrow
    rw [World.setTask_self (by intro _; rfl) hrow', Option.some.injEq] at ht'
    subst ht'
    show Attempted _ ((w.agentRuns ++ [claim.run]).filter _)
    have hmine : [claim.run].filter (fun r => decide (r.taskId = task.id)) = [claim.run] := by
      simp [hrtask]
    rw [List.filter_append, hmine]
    refine ⟨?_, hlt, .working claim.run ?_ rfl⟩
    · show _ = List.range' 1 (task.attempt + 1)
      rw [List.map_append, List.range'_concat]
      refine congrArg₂ (· ++ ·) hatt.numbered ?_
      simp [hrattempt, Nat.add_comm]
    · unfold openRuns at hnone ⊢
      rw [List.filter_append]
      have hopen : [claim.run].filter (·.state.isOpen) = [claim.run] := by
        rw [List.filter_cons_of_pos (by rw [hcreated]; rfl)]
        rfl
      rw [hopen]
      exact congrArg (· ++ [claim.run]) hnone
  · rw [hl.agentRuns]
    exact List.mem_append_right _ (List.mem_singleton.mpr rfl)

theorem claimNext_queue {agent : Agent} {workerId : String} {locked : List Id}
    {o : Option Claim} (hu : w.UniqueTasks)
    (h : Returns (tm.claimNext agent workerId locked) w o w') :
    QueueStep none w w' ∧ ∀ claim ∈ o, claim.Owns w' := by
  rcases claimNext_spec h with ⟨rfl, rfl⟩ | ⟨task, hmem, hready, claim, resume, rfl, hres, htake⟩
  · exact ⟨Std.Refl.refl _, fun _ hc => by cases hc⟩
  have hrow := hu.task? hmem
  have hstep : QueueStep none w w' ∧ claim.Owns w' := by
    cases resume with
    | none => exact take_fresh_queue hrow hres.1 hres.2 htake
    | some r => exact take_resumed_queue hrow hready hres.1 hres.2.2 htake
  refine ⟨hstep.1, fun c hc => ?_⟩
  rw [Option.mem_some_iff] at hc
  exact hc ▸ hstep.2

/-! Moves from outside a claim. -/

/-- A task moves between states in which nobody works on it. -/
theorem moved_queue {s : TaskState} (ht : w.task? i = some t) (hu : t.state.final = false)
    (hst : ∀ runs, Staffed t runs → Staffed (t.moved s) runs) :
    QueueStep x w (w.setTask i (Task.moved s)) := by
  refine .of_touches rfl (fun _ => setTask_touches fun _ => rfl) ht hu fun _ h t' ht' => ?_
  rw [World.setTask_self (by intro _; rfl) ht, Option.some.injEq] at ht'
  subst ht'
  exact ⟨h.numbered, h.bounded, hst _ h.staffed⟩

theorem Staffed.ready {runs : List AgentRun} (h : Staffed t runs) (hr : t.state ≠ .running)
    (hl : t.attempt < t.maxAttempts ∨ t.state = .ready ∨ t.state = .waitingApproval) :
    Staffed (t.moved .ready) runs ∧ Staffed (t.moved .waitingApproval) runs := by
  rcases h with ⟨hn, _, hleft⟩ | ⟨r, ho, hrun, _⟩ | ⟨_, _, hst⟩
  · have hlt : t.attempt < t.maxAttempts := by
      rcases hl with hl | hl | hl
      · exact hl
      · exact hleft (by rw [hl]; rfl)
      · exact hleft (by rw [hl]; rfl)
    exact ⟨.idle hn (fun hh => by cases hh) fun _ => hlt,
      .idle hn (fun hh => by cases hh) fun _ => hlt⟩
  · exact ⟨.suspended r ho hrun (.inl rfl), .suspended r ho hrun (.inr rfl)⟩
  · exact absurd hst hr

theorem markReady_queue (hcalled : ∀ t, w.task? i = some t → t.state = .pending ∨
      (t.state = .blockedBudget ∧ t.attempt < t.maxAttempts)) {u : Unit}
    (h : Returns (TaskManager.markReady i) w u w') : QueueStep none w w' := by
  obtain ⟨t, ht, hcan, hl⟩ := markReady_spec h
  refine QueueStep.trans (moved_queue ht (not_final_of_can hcan) fun runs hst => ?_) hl.queue
  rcases hcalled t ht with hp | ⟨hb, hlt⟩
  · rcases hst with ⟨hn, _, hleft⟩ | ⟨_, _, _, hst⟩ | ⟨_, _, hst⟩
    · exact .idle hn (fun hh => by cases hh) fun _ => hleft (by rw [hp]; rfl)
    · rw [hp] at hst
      rcases hst with hst | hst <;> cases hst
    · rw [hp] at hst
      cases hst
  · exact (hst.ready (by rw [hb]; decide) (.inl hlt)).1

theorem awaitApproval_queue {approval : Id}
    (hcalled : ∀ t, w.task? i = some t → t.state = .ready) {u : Unit}
    (h : Returns (TaskManager.awaitApproval i approval) w u w') : QueueStep none w w' := by
  obtain ⟨t, ht, hcan, hl⟩ :=
    transition_spec (p := fun _ => .taskWaiting .approval (some approval)) h
  have hr := hcalled t ht
  exact QueueStep.trans (moved_queue ht (not_final_of_can hcan) fun runs hst =>
    (hst.ready (by rw [hr]; decide) (.inr (.inl hr))).2) hl.queue

theorem releaseAfterApproval_queue
    (hcalled : ∀ t, w.task? i = some t → t.state = .waitingApproval) {u : Unit}
    (h : Returns (TaskManager.releaseAfterApproval i) w u w') : QueueStep none w w' := by
  obtain ⟨t, ht, hcan, hl⟩ := transition_spec (p := fun t => .taskReady t.requiredRole) h
  have hr := hcalled t ht
  exact QueueStep.trans (moved_queue ht (not_final_of_can hcan) fun runs hst =>
    (hst.ready (by rw [hr]; decide) (.inr (.inr hr))).1) hl.queue

/-! Maintenance. -/

/-- Blocked, or ended. -/
def Task.Stuck (t : Task) : Prop := t.state = .blockedBudget ∨ t.state.final = true

/-- What is stuck stays stuck. -/
def StuckStep (w w' : World) : Prop :=
  ∀ i t, w.task? i = some t → t.Stuck → ∃ t', w'.task? i = some t' ∧ t'.Stuck

instance : IsPreorder World StuckStep where
  refl _ _ t ht hs := ⟨t, ht, hs⟩
  trans _ _ _ h h' i t ht hs := by
    obtain ⟨t₁, ht₁, hs₁⟩ := h i t ht hs
    exact h' i t₁ ht₁ hs₁

theorem StuckStep.of_tasks (h : w'.tasks = w.tasks) : StuckStep w w' := by
  intro i t ht hs
  exact ⟨t, by rw [World.task?, h]; exact ht, hs⟩

theorem setTask_stuck {f : Task → Task} (hid : ∀ t, (f t).id = t.id)
    (hf : ∀ t, w.task? i = some t → t.Stuck → (f t).Stuck) : StuckStep w (w.setTask i f) := by
  intro j t ht hs
  by_cases he : j = i
  · subst he
    exact ⟨f t, World.setTask_self hid ht, hf t ht hs⟩
  · exact ⟨t, (World.setTask_other hid he).trans ht, hs⟩

theorem hookSteps_stuck : HookSteps StuckStep where
  logged _ _ h := .of_tasks h.tasks
  nextId w := .of_tasks rfl
  workflowRuns w _ := .of_tasks rfl
  insert w args id n s hn hs hfresh hm := by
    intro j t ht hst
    refine ⟨t, ?_, hst⟩
    unfold World.task? World.insertTask
    rw [List.find?_append]
    unfold World.task? at ht
    rw [ht]
    rfl
  unlock w id t ht hp := by
    refine setTask_stuck (fun _ => rfl) fun t' ht' hst => ?_
    rw [ht, Option.some.injEq] at ht'
    subst ht'
    rcases hst with hst | hst
    · rw [hp] at hst
      cases hst
    · rw [hp] at hst
      cases hst
  rewire w id f := setTask_stuck (fun _ => rfl) fun _ _ hst => hst
  cancel w id t g ht hf hg := by
    refine IsTrans.trans _ _ _ (?_ : StuckStep w (w.endRun (w.openRunOf? id) g)) ?_
    · cases w.openRunOf? id <;> exact .of_tasks rfl
    · exact setTask_stuck (fun _ => rfl) fun _ _ _ => .inr rfl

theorem releaseBlockedTask_queue (hw : Wired e tm) {id : Id}
    (hstuck : ∀ t, w.task? id = some t → t.Stuck) {u : Unit}
    (h : Returns (tm.releaseBlockedTask id) w u w') :
    QueueStep none w w' ∧ ∀ j, j ≠ id → ∀ t, w.task? j = some t → t.Stuck →
      ∃ t', w'.task? j = some t' ∧ t'.Stuck := by
  obtain ⟨t, ht, hcases⟩ := releaseBlockedTask_spec h
  -- a task that can still move is blocked
  have hblocked : t.state.final = false → t.state = .blockedBudget := fun hu =>
    (hstuck t ht).resolve_right (by rw [hu]; decide)
  have hother : ∀ (s : TaskState) j, j ≠ id → ∀ t, w.task? j = some t →
      (w.setTask id (Task.moved s)).task? j = some t := fun s j hj t hjt =>
    (World.setTask_other (by intro _; rfl) hj).trans hjt
  rcases hcases with ⟨hlt, hcan, hl⟩ | ⟨hge, hcan, w₁, hl, hhook⟩
  · have hb := hblocked (not_final_of_can hcan)
    refine ⟨QueueStep.trans (moved_queue ht (not_final_of_can hcan) fun runs hst =>
      (hst.ready (by rw [hb]; decide) (.inl hlt)).1) hl.queue, fun j hj t hjt hst => ⟨t, ?_, hst⟩⟩
    rw [hl.task?]
    exact hother _ j hj t hjt
  · have hb := hblocked (not_final_of_can hcan)
    have hmoved : QueueStep none w (w.setTask id (Task.moved .failed)) := by
      refine moved_queue ht (not_final_of_can hcan) fun runs hst => ?_
      rcases hst with ⟨hn, _, _⟩ | ⟨_, _, _, hst⟩ | ⟨_, _, hst⟩
      · exact .idle hn (fun hh => by cases hh) fun hh => (by cases hh)
      · rw [hb] at hst
        rcases hst with hst | hst <;> cases hst
      · rw [hb] at hst
        cases hst
    refine ⟨(hmoved.trans hl.queue).trans ((hookSteps_queue.wired hw).failed _ _ _ _ hhook),
      fun j hj t hjt hst => ?_⟩
    have hj₁ : w₁.task? j = some t := by
      rw [hl.task?]
      exact hother _ j hj t hjt
    exact (hookSteps_stuck.wired hw).failed _ _ _ _ hhook j t hj₁ hst

theorem releaseBlocked_queue (hw : Wired e tm) {company : Id} {locked : List Id} {n : Nat}
    (hu : w.UniqueTasks) (h : Returns (tm.releaseBlocked company locked) w n w') :
    QueueStep none w w' := by
  simp only [TaskManager.releaseBlocked, returns_bind, returns_get, returns_pure] at h
  obtain ⟨_, w, ⟨rfl, rfl⟩, _, w₁, h, _, rfl⟩ := h
  let listed := w.tasks.filter fun t =>
    t.companyId = company && t.state = .blockedBudget && t.id ∉ locked
  have hnodup : (listed.map (·.id)).Nodup := (List.filter_sublist.map _).nodup hu
  refine ( forEach_prefix (I := fun pre s => QueueStep none w s ∧
    ∀ y ∈ listed, y.id ∉ pre.map (·.id) → ∃ t, s.task? y.id = some t ∧ t.Stuck)
    (fun pre y post he s v s' hI hs => ?_) ⟨Std.Refl.refl _, fun y hy _ => ?_⟩ h).1
  · obtain ⟨hstep, hrest⟩ := hI
    have hy : y ∈ listed := by
      show y ∈ w.tasks.filter _
      rw [he]
      simp
    have hypre : y.id ∉ pre.map (·.id) := by
      have hn : ((pre ++ y :: post).map (·.id)).Nodup := he ▸ hnodup
      rw [List.map_append, List.nodup_append] at hn
      exact fun hin => hn.2.2 _ hin _ (by simp) rfl
    obtain ⟨t, ht, hst⟩ := hrest y hy hypre
    obtain ⟨hone, hothers⟩ := releaseBlockedTask_queue hw (fun t' ht' => by
      rw [ht, Option.some.injEq] at ht'
      exact ht' ▸ hst) hs
    refine ⟨hstep.trans hone, fun z hz hzpre => ?_⟩
    simp only [List.map_append, List.map_cons, List.map_nil, List.mem_append,
      List.mem_singleton, not_or] at hzpre
    obtain ⟨t', ht', hst'⟩ := hrest z hz hzpre.1
    exact hothers _ hzpre.2 t' ht' hst'
  · obtain ⟨hmem, hp⟩ := List.mem_filter.mp hy
    simp only [Bool.and_eq_true, decide_eq_true_eq] at hp
    exact ⟨y, hu.task? hmem, .inl hp.1.2⟩

theorem reapTask_queue (hw : Wired e tm) {id : Id} (hl : AllLeased w) {u : Unit}
    (h : Returns (tm.reapTask id) w u w') : QueueStep none w w' := by
  obtain ⟨t, g, ht, huntil, hg, hcases⟩ := reapTask_spec h
  have hrun : t.state = .running := by
    rcases hl id t ht with ⟨hr, _⟩ | ⟨_, _, hnone, _⟩
    · exact hr
    · rw [hnone] at huntil
      cases huntil
  -- its run ends, and the task moves on
  have hends : ∀ (s : TaskState) (f : Task → Task), (∀ y, (f y).id = y.id) →
      (f t).attempt = t.attempt → (f t).maxAttempts = t.maxAttempts → (f t).state = s →
      s ≠ .running → (s.waits = true → t.attempt < t.maxAttempts) →
      QueueStep none w ((w.endRun (w.openRunOf? id) g).setTask id f) := by
    intro s f hf ha hm hs hne hleft
    refine .of_touches (endRun_keys _ hg) (fun hq => (endRun_touches hg hq.runIds).trans
      (setTask_touches hf)) ht (by rw [hrun]; rfl) fun _ h t' ht' => ?_
    have hrow : (w.endRun (w.openRunOf? id) g).task? id = some t :=
      (endRun_task? _ _ _ _).trans ht
    rw [World.setTask_self hf hrow, Option.some.injEq] at ht'
    subst ht'
    exact h.endRun hg ha hm hs hne hleft
  rcases hcases with ⟨hlt, hlog⟩ | ⟨w₁, hlog, hhook⟩
  · refine QueueStep.trans ?_ hlog.queue
    exact hends .ready _ (fun _ => rfl) rfl rfl rfl (by decide) fun _ => hlt
  · refine QueueStep.trans (QueueStep.trans ?_ hlog.queue)
      ((hookSteps_queue.wired hw).failed _ _ _ _ hhook)
    exact hends .failed _ (fun _ => rfl) rfl rfl rfl (by decide) fun hh => (by cases hh)

theorem reapExpiredLeases_queue (hw : Wired e tm) {limit : Nat} {locked reaped : List Id}
    (hl : AllLeased w) (h : Returns (tm.reapExpiredLeases limit locked) w reaped w') :
    QueueStep none w w' := by
  simp only [TaskManager.reapExpiredLeases, returns_bind, returns_get, returns_pure] at h
  obtain ⟨_, w, ⟨rfl, rfl⟩, _, w₁, h, _, rfl⟩ := h
  refine ( forEach_prefix (I := fun _ s => QueueStep none w s ∧ AllLeased s)
    (fun pre y post _ s v s' hI hs => ?_) ⟨Std.Refl.refl _, hl⟩ h).1
  obtain ⟨hstep, hleased⟩ := hI
  have hrows : RowsStep (fun _ => False) (fun _ _ => False) s s' := reapTask_rows hw hleased hs
  exact ⟨hstep.trans (reapTask_queue hw hleased hs), hleased.step hrows⟩

/-! Every operation. -/

/-- The operations of the queue: all but the two that end a task without a run. -/
def Op.OfQueue : Op → Prop
  | completeWithoutRun .. | failWithoutRun .. => False
  | _ => True

theorem exec_queue (hw : Wired e tm) {s : Runtime} {op : Op} {o : Option Claim}
    (hl : LeasesSound s) (howns : ∀ c ∈ s.claims, c.Owns s.db) (hcalled : op.Called s)
    (hop : op.OfQueue) (h : Returns (op.exec e tm) s.db o w') :
    QueueStep none s.db w' ∧ ∀ claim ∈ o, claim.Owns w' := by
  have hhooks : HooksKeep (QueueStep none) tm := hookSteps_queue.wired hw
  cases op
  case claimNext agent workerId locked =>
    simp only [Op.exec, returns_bind, returns_theAgent] at h
    obtain ⟨_, _, ⟨_, rfl⟩, h⟩ := h
    exact claimNext_queue hl.unique h
  case tick d =>
    obtain ⟨rfl, _, h⟩ := returns_discard.mp h
    rw [returns_modify.mp h]
    exact ⟨.of_same (Nat.le_refl _) rfl rfl, fun _ hc => by cases hc⟩
  all_goals
    obtain ⟨rfl, _, h⟩ := returns_discard.mp h
    refine ⟨?_, fun _ hc => by cases hc⟩
  case addTask args => exact hookSteps_queue.keeps_addTask _ _ _ _ h
  case markReady task => exact markReady_queue hcalled h
  case heartbeat claim =>
    obtain ⟨t, hold, rfl⟩ := heartbeat_spec h
    exact setTask_queue (fun _ => rfl) fun _ => rfl
  case startRun claim =>
    obtain ⟨t, r, g, hold, hr, ho, hg, rfl⟩ := startRun_spec h
    exact working_queue hold (howns _ hcalled) hr ho (fun y => (hg y).1) (by rw [(hg r).2]; rfl)
  case evaluate claim repair =>
    obtain ⟨t, r, g, hold, hr, ho, hg, rfl⟩ := evaluate_spec h
    refine working_queue hold (howns _ hcalled) hr ho (fun y => (hg y).1) ?_
    rcases (hg r).2 with hst | hst <;> rw [hst] <;> rfl
  case succeed claim output summary => exact succeed_queue hw (howns _ hcalled) h
  case fail claim errorClass message retryable => exact fail_queue hw (howns _ hcalled) h
  case abort claim reason message => exact abort_queue hw (howns _ hcalled) h
  case cancel task reason => exact hookSteps_queue.keeps_cancel hhooks _ _ _ _ _ h
  case suspendForApproval claim approval => exact suspendForApproval_queue (howns _ hcalled) h
  case awaitApproval task approval => exact awaitApproval_queue hcalled h
  case releaseAfterApproval task => exact releaseAfterApproval_queue hcalled h
  case completeWithoutRun task output summary => exact hop.elim
  case failWithoutRun task errorClass message => exact hop.elim
  case releaseBlocked company locked => exact releaseBlocked_queue hw hl.unique h
  case reapExpiredLeases limit locked => exact reapExpiredLeases_queue hw hl.leased h
  case instantiate template company project params cycle =>
    exact hookSteps_queue.keeps_instantiate _ _ _ _ _ _ _ _ h
  case cancelRun run reason => exact hookSteps_queue.keeps_cancelRun _ _ _ _ _ h

/-- A run that only takes the operations of the queue. -/
def queueOnly : Runtime → Op → Prop := fun _ op => op.OfQueue

theorem queue_sound (hw : Wired e tm) {s : Runtime} (h : (runtime e tm).Reach queueOnly s) :
    QueueSound none s.db ∧ ∀ c ∈ s.claims, c.Owns s.db := by
  have hinv : LeasesSound s ∧ QueueSound none s.db ∧ ∀ c ∈ s.claims, c.Owns s.db := by
    refine System.Reach.invariant
      (I := fun s => LeasesSound s ∧ QueueSound none s.db ∧ ∀ c ∈ s.claims, c.Owns s.db) ?_ ?_ h
    · intro s hs
      obtain ⟨ht, hr, _, hc⟩ := id hs
      refine ⟨.fresh hs, ⟨?_, ?_, ?_, ?_, ?_, ?_⟩, ?_⟩
      · simp [World.UniqueTasks, ht]
      · simp [hr]
      · simp [hr]
      · simp [hr]
      · simp [hr]
      · simp [World.task?, ht]
      · simp [hc]
    · rintro s op _ ⟨hl, hq, howns⟩ hop ⟨hcalled, rfl⟩
      rcases after_cases e tm s op with ⟨o, w, hexec, he⟩ | ⟨_, he⟩
      · rw [he]
        obtain ⟨hstep, hnew⟩ := exec_queue hw hl howns hcalled hop hexec
        refine ⟨hl.committed hw hcalled hexec, (hstep.sound hq fun _ hi => by cases hi).1,
          fun c hc => ?_⟩
        rcases List.mem_append.mp hc with hc | hc
        · exact (howns c hc).step hstep.keys
        · exact hnew c (by simpa using hc)
      · rw [he]
        exact ⟨hl, hq, howns⟩
  exact hinv.2

end Autora
