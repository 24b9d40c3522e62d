import Autora.Attempts

/-! What the hooks and the operations of a claim do to the queue: its runs and tasks
stay sound. -/

namespace Autora

open Transactions Systems

variable {e : WorkflowEngine} {tm : TaskManager} {w w₁ w' : World} {x : Option Id} {i : Id}
  {t t' : Task} {c : Claim}

/-! What the hooks do: they leave the task alone that has just ended. -/

/-- The task has ended. -/
def Over (i : Id) (w : World) : Prop := ∃ t, w.task? i = some t ∧ t.state.final = true

/-- The task counts the same, and its runs are as they were. -/
structure Spared (i : Id) (w w' : World) : Prop where
  runs : w'.runsOf i = w.runsOf i
  row : ∀ t, w.task? i = some t → ∃ t', w'.task? i = some t' ∧ t'.counts = t.counts

theorem Spared.trans (h : Spared i w w₁) (h' : Spared i w₁ w') : Spared i w w' := by
  refine ⟨h'.runs.trans h.runs, fun t ht => ?_⟩
  obtain ⟨t₁, ht₁, hc⟩ := h.row t ht
  obtain ⟨t', ht', hc'⟩ := h'.row t₁ ht₁
  exact ⟨t', ht', hc'.trans hc⟩

theorem Spared.ended (h : Spared i w w') (he : Over i w) : Over i w' := by
  obtain ⟨t, ht, hf⟩ := he
  obtain ⟨t', ht', hc⟩ := h.row t ht
  simp only [Task.counts, Prod.mk.injEq] at hc
  exact ⟨t', ht', hc.1 ▸ hf⟩

/-- Runs are only added, and the queue stays sound around a task that has ended. -/
structure QueueStep (x : Option Id) (w w' : World) : Prop where
  keys : w.agentRuns.map AgentRun.key <+: w'.agentRuns.map AgentRun.key
  sound : QueueSound x w → (∀ i ∈ x, Over i w) → QueueSound x w' ∧ ∀ i ∈ x, Spared i w w'

instance : IsPreorder World (QueueStep x) where
  refl w := ⟨List.prefix_rfl, fun hs _ => ⟨hs, fun _ _ => ⟨rfl, fun t ht => ⟨t, ht, rfl⟩⟩⟩⟩
  trans w w₁ w' h h' := by
    refine ⟨h.keys.trans h'.keys, fun hs he => ?_⟩
    obtain ⟨hs₁, hp₁⟩ := h.sound hs he
    obtain ⟨hs', hp'⟩ := h'.sound hs₁ fun i hi => (hp₁ i hi).ended (he i hi)
    exact ⟨hs', fun i hi => (hp₁ i hi).trans (hp' i hi)⟩

theorem QueueStep.trans (h : QueueStep x w w₁) (h' : QueueStep x w₁ w') : QueueStep x w w' :=
  IsTrans.trans _ _ _ h h'

/-- Nothing the queue reads was written. -/
theorem QueueStep.of_same (hn : w.nextId ≤ w'.nextId) (ht : w'.tasks = w.tasks)
    (hr : w'.agentRuns = w.agentRuns) : QueueStep x w w' := by
  have hrow : ∀ j, w'.task? j = w.task? j := fun j => by rw [World.task?, World.task?, ht]
  have hruns : ∀ j, w'.runsOf j = w.runsOf j := fun j => by rw [World.runsOf, World.runsOf, hr]
  refine ⟨hr ▸ List.prefix_rfl, fun hs _ => ⟨⟨?_, ?_, ?_, ?_, ?_, ?_⟩, fun j _ => ⟨hruns j, ?_⟩⟩⟩
  · unfold World.UniqueTasks
    rw [ht]
    exact hs.unique
  · rw [hr]
    exact hs.runIds
  · rw [hr]
    exact fun r hmem => Nat.lt_of_lt_of_le (hs.runNext r hmem) hn
  · rw [hr]
    intro r hmem
    rw [hrow]
    exact hs.known r hmem
  · rw [hr]
    exact hs.agents
  · intro j t hj hne
    rw [hrow] at hj
    rw [hruns]
    exact hs.tasks j t hj hne
  · intro t hj
    exact ⟨t, (hrow j).trans hj, rfl⟩

theorem Logged.queue (h : Logged w w') : QueueStep x w w' :=
  .of_same (Nat.le_of_eq h.nextId.symm) h.tasks h.agentRuns

/-- A task that has not ended is written, with its runs. -/
theorem QueueStep.of_touches (hk : w'.agentRuns.map AgentRun.key = w.agentRuns.map AgentRun.key)
    (h : QueueSound x w → Touches i w w') (ht : w.task? i = some t)
    (hu : t.state.final = false) (hsound : QueueSound x w → Attempted t (w.runsOf i) →
      ∀ t', w'.task? i = some t' → Attempted t' (w'.runsOf i)) : QueueStep x w w' := by
  refine ⟨hk ▸ List.prefix_rfl, fun hs he => ?_⟩
  have h := h hs
  -- the task is not the one that is left out
  have hne : ∀ j ∈ x, j ≠ i := by
    rintro j hj rfl
    obtain ⟨t', ht', hf⟩ := he j hj
    rw [ht, Option.some.injEq] at ht'
    subst ht'
    rw [hu] at hf
    cases hf
  have hix : some i ≠ x := fun hx => hne i hx.symm rfl
  refine ⟨hs.touched h (fun _ _ hj => hj) fun _ => hsound hs (hs.tasks i t ht hix), fun j hj => ?_⟩
  refine ⟨h.runsOf (hne j hj), fun t' ht' => ⟨t', ?_, rfl⟩⟩
  rw [h.rows j (hne j hj)]
  exact ht'

/-- The row of a task is written, and it counts as before. -/
theorem setTask_queue {f : Task → Task} (hf : ∀ t, (f t).id = t.id)
    (hc : ∀ t, (f t).counts = t.counts) : QueueStep x w (w.setTask i f) := by
  have hrow : ∀ j t, w.task? j = some t → ∃ t', (w.setTask i f).task? j = some t' ∧
      t'.counts = t.counts := by
    intro j t hj
    rw [World.setTask_task? hf, hj]
    refine ⟨_, rfl, ?_⟩
    by_cases hid : t.id = i
    · simp only [if_pos hid]
      exact hc t
    · simp only [if_neg hid]
  refine ⟨List.prefix_rfl, fun hs _ => ⟨hs.touched (setTask_touches hf) (fun _ _ hj => hj) ?_,
    fun j _ => ⟨rfl, hrow j⟩⟩⟩
  intro hne t' ht'
  rw [World.setTask_task? hf] at ht'
  obtain ⟨t, ht, rfl⟩ := Option.map_eq_some_iff.mp ht'
  rw [if_pos (w.mem_of_task? i ht).2]
  exact (hs.tasks i t ht hne).of_counts (hc t)

theorem endRun_keys (run : Option AgentRun) {g : AgentRun → AgentRun} (hg : EndsRun g) :
    (w.endRun run g).agentRuns.map AgentRun.key = w.agentRuns.map AgentRun.key := by
  cases run with
  | none => rfl
  | some r =>
    show (w.agentRuns.map (onRun r.id g)).map AgentRun.key = _
    rw [List.map_map]
    exact List.map_congr_left fun y _ => onRun_key hg.key y

theorem endRun_touches {g : AgentRun → AgentRun} (hg : EndsRun g) (hu : (w.agentRuns.map (·.id)).Nodup) :
    Touches i w (w.endRun (w.openRunOf? i) g) := by
  have hspec := World.openRunOf?_spec (w := w) (i := i)
  cases hr : w.openRunOf? i with
  | none => exact .of_same (Nat.le_refl _) rfl rfl
  | some r =>
    rw [hr] at hspec
    obtain ⟨hmem, hid, ho⟩ := mem_openRuns.mp hspec
    refine setRun_touches hg.key (fun y hy he => ?_) fun y hy he hopen => ?_
    · rw [List.inj_on_of_nodup_map hu hy hmem he]
      exact hid
    · rw [hg.closed] at hopen
      cases hopen

/-- The runs of a task after its unfinished one, if there was one, was ended. -/
theorem Attempted.endRun {g : AgentRun → AgentRun} {s : TaskState}
    (h : Attempted t (w.runsOf i)) (hg : EndsRun g) (ha : t'.attempt = t.attempt)
    (hm : t'.maxAttempts = t.maxAttempts) (hst : t'.state = s) (hs : s ≠ .running)
    (hl : s.waits = true → t.attempt < t.maxAttempts) :
    Attempted t' ((w.endRun (w.openRunOf? i) g).runsOf i) := by
  have hspec := World.openRunOf?_spec (w := w) (i := i)
  cases hr : w.openRunOf? i with
  | none =>
    rw [hr] at hspec
    subst hst
    refine ⟨?_, ?_, .idle hspec hs ?_⟩
    · rw [ha]
      exact h.numbered
    · rw [ha, hm]
      exact h.bounded
    · rw [ha, hm]
      exact hl
  | some r =>
    rw [hr] at hspec
    show Attempted t' ((w.setRun r.id g).runsOf i)
    rw [runsOf_setRun hg.key]
    exact h.ended hspec hg ha hm hst hs hl

/-- A new task has no run. -/
theorem insertTask_queue {n : Id} {task : Task} (hn : w.nextId ≤ n)
    (hfresh : ∀ t ∈ w.tasks, t.id ≠ task.id) (ha : task.attempt = 0)
    (hm : 1 ≤ task.maxAttempts) (hs : task.state ≠ .running) :
    QueueStep x w (w.insertTask n task) := by
  have hold : ∀ j t, w.task? j = some t → (w.insertTask n task).task? j = some t := by
    intro j t hj
    unfold World.task? World.insertTask
    rw [List.find?_append]
    unfold World.task? at hj
    rw [hj]
    rfl
  refine ⟨List.prefix_rfl, fun hq _ => ⟨⟨?_, hq.runIds, fun r hr => ?_, fun r hr => ?_, hq.agents,
    ?_⟩, fun j _ => ⟨rfl, fun t ht => ⟨t, hold j t ht, rfl⟩⟩⟩⟩
  · unfold World.UniqueTasks World.insertTask
    rw [List.map_append, List.nodup_append]
    refine ⟨hq.unique, by simp, fun j hj k hk he => ?_⟩
    obtain ⟨t, ht, rfl⟩ := List.mem_map.mp hj
    simp only [List.map_cons, List.map_nil, List.mem_singleton] at hk
    exact hfresh t ht (he.trans hk)
  · exact Nat.lt_of_lt_of_le (hq.runNext r hr) hn
  · obtain ⟨t, ht⟩ := hq.known r hr
    exact ⟨t, hold _ t ht⟩
  · intro j t hj hne
    cases hw : w.task? j with
    | some t₀ =>
      rw [hold j t₀ hw, Option.some.injEq] at hj
      subst hj
      exact hq.tasks j t₀ hw hne
    | none =>
      unfold World.task? World.insertTask at hj
      unfold World.task? at hw
      rw [List.find?_append, hw, Option.none_or] at hj
      have ht : t = task := by simpa using List.mem_of_find?_eq_some hj
      subst ht
      have hnone : w.runsOf j = [] := by
        refine List.filter_eq_nil_iff.mpr fun r hr hrj => ?_
        obtain ⟨t', ht'⟩ := hq.known r hr
        rw [of_decide_eq_true hrj, World.task?, hw] at ht'
        cases ht'
      have hruns : (w.insertTask n t).runsOf j = [] := hnone
      rw [hruns]
      refine ⟨?_, ?_, .idle rfl hs fun _ => ?_⟩
      · rw [ha]
        rfl
      · rw [ha]
        exact Nat.zero_le _
      · rw [ha]
        exact hm

theorem hookSteps_queue : HookSteps (QueueStep x) where
  logged _ _ h := h.queue
  nextId w := .of_same (Nat.le_succ _) rfl rfl
  workflowRuns w _ := .of_same (Nat.le_refl _) rfl rfl
  insert w args id n s hn hs hfresh hm := by
    have hr : s ≠ .running := by rcases hs with rfl | rfl <;> decide
    exact insertTask_queue hn hfresh rfl hm hr
  unlock w id t ht hp := by
    refine .of_touches rfl (fun _ => setTask_touches fun _ => rfl) ht (by rw [hp]; rfl)
      fun _ h t' ht' => ?_
    rw [World.setTask_self (by intro _; rfl) ht, Option.some.injEq] at ht'
    subst ht'
    refine ⟨h.numbered, h.bounded, ?_⟩
    rcases h.staffed with ⟨hn, _, hl⟩ | ⟨_, _, _, hst⟩ | ⟨_, _, hst⟩
    · exact .idle hn (fun hh => by cases hh) fun _ => hl (by rw [hp]; rfl)
    · rw [hp] at hst
      rcases hst with hst | hst <;> cases hst
    · rw [hp] at hst
      cases hst
  rewire w id f := setTask_queue (fun _ => rfl) fun _ => rfl
  cancel w id t g ht hf hg := by
    refine .of_touches (endRun_keys _ hg) (fun hs => (endRun_touches hg hs.runIds).trans
      (setTask_touches fun _ => rfl)) ht hf fun _ h t' ht' => ?_
    have hrow : (w.endRun (w.openRunOf? id) g).task? id = some t :=
      (endRun_task? _ _ _ _).trans ht
    rw [World.setTask_self (by intro _; rfl) hrow, Option.some.injEq] at ht'
    subst ht'
    exact h.endRun (s := .cancelled) hg rfl rfl rfl (by decide) fun hh => (by cases hh)

/-! The operations. -/

/-- The run a claim is worked on with belongs to the claim's task. -/
def Claim.Owns (c : Claim) (w : World) : Prop :=
  ∃ r ∈ w.agentRuns, r.id = c.run.id ∧ r.taskId = c.task.id

theorem Claim.Owns.step (h : c.Owns w)
    (hk : w.agentRuns.map AgentRun.key <+: w'.agentRuns.map AgentRun.key) : c.Owns w' := by
  obtain ⟨r, hr, hid, htid⟩ := h
  obtain ⟨r', hr', he⟩ := List.mem_map.mp (hk.subset (List.mem_map_of_mem hr))
  simp only [AgentRun.key, Prod.mk.injEq] at he
  exact ⟨r', hr', he.1.trans hid, he.2.1.trans htid⟩

/-- The run of a claim, if it is unfinished, is the one of its task. -/
theorem Claim.Owns.openRun (h : c.Owns w) (hs : QueueSound x w) {r : AgentRun}
    (hr : w.agentRun? c.run.id = some r) (ho : r.state.isOpen = true) :
    r ∈ openRuns (w.runsOf c.task.id) := by
  obtain ⟨r', hr', hid, htid⟩ := h
  obtain ⟨hmem, hrid⟩ := w.mem_of_agentRun? _ hr
  have he : r = r' := List.inj_on_of_nodup_map hs.runIds hmem hr' (hrid.trans hid.symm)
  exact mem_openRuns.mpr ⟨hmem, he ▸ htid, ho⟩

/-- The claim's run and the task's row are written together. -/
theorem Claim.Holds.touches {r : AgentRun} {g : AgentRun → AgentRun} {f : Task → Task}
    (hs : QueueSound x w) (hold : c.Holds w t) (hr : r ∈ openRuns (w.runsOf c.task.id))
    (hg : ∀ y, (g y).key = y.key) (hf : ∀ y, (f y).id = y.id) :
    Touches c.task.id w ((w.setRun r.id g).setTask t.id f) := by
  obtain ⟨hmem, htid, ho⟩ := mem_openRuns.mp hr
  rw [hold.id]
  refine (setRun_touches hg (fun y hy he => ?_) fun y hy he _ => ?_).trans (setTask_touches hf)
  · rw [List.inj_on_of_nodup_map hs.runIds hy hmem he]
    exact htid
  · rw [List.inj_on_of_nodup_map hs.runIds hy hmem he]
    exact ho

theorem setRun_keys {id : Id} {g : AgentRun → AgentRun} (hg : ∀ y, (g y).key = y.key) :
    (w.setRun id g).agentRuns.map AgentRun.key = w.agentRuns.map AgentRun.key := by
  show (w.agentRuns.map (onRun id g)).map AgentRun.key = _
  rw [List.map_map]
  exact List.map_congr_left fun y _ => onRun_key hg y

/-- The claim's run ends and its task moves on. -/
theorem Claim.Holds.ends {r : AgentRun} {g : AgentRun → AgentRun} {f : Task → Task}
    {s : TaskState} (hold : c.Holds w t) (howns : c.Owns w) (hr : c.Works w r) (hg : EndsRun g)
    (hf : ∀ y, (f y).id = y.id) (ha : (f t).attempt = t.attempt)
    (hm : (f t).maxAttempts = t.maxAttempts) (hst : (f t).state = s) (hs : s ≠ .running)
    (hl : s.waits = true → t.attempt < t.maxAttempts) :
    QueueStep none w ((w.setRun r.id g).setTask t.id f) := by
  refine .of_touches (i := c.task.id) (setRun_keys hg.key)
    (fun hq => hold.touches hq (howns.openRun hq hr.row hr.isOpen) hg.key hf) hold.row
    (by rw [hold.running]; rfl) fun hq h t' ht' => ?_
  have hopen := howns.openRun hq hr.row hr.isOpen
  have hrow : (w.setRun r.id g).task? c.task.id = some t := hold.row
  rw [hold.id, World.setTask_self hf hrow, Option.some.injEq] at ht'
  subst ht'
  show Attempted (f t) ((w.setRun r.id g).runsOf c.task.id)
  rw [runsOf_setRun hg.key]
  exact h.ended hopen hg ha hm hst hs hl

theorem fail_queue (hw : Wired e tm) (howns : c.Owns w) {errorClass message : String}
    {retryable retry : Bool}
    (h : Returns (tm.fail c errorClass message retryable) w retry w') : QueueStep none w w' := by
  obtain ⟨t, r, g, hold, hr, hg, ⟨hlt, hl⟩ | ⟨w₁, u, hl, hhook⟩⟩ := fail_spec h
  · refine QueueStep.trans ?_ hl.queue
    exact hold.ends (s := .ready) howns hr hg (fun _ => rfl) rfl rfl rfl (by decide) fun _ => hlt
  · refine QueueStep.trans (QueueStep.trans ?_ hl.queue)
      ((hookSteps_queue.wired hw).failed _ _ _ _ hhook)
    exact hold.ends (s := .failed) howns hr hg (fun _ => rfl) rfl rfl rfl (by decide) fun hh => (by cases hh)

theorem abort_queue (hw : Wired e tm) (howns : c.Owns w) {reason : AbortReason}
    {message : Option String} {u : Unit} (h : Returns (tm.abort c reason message) w u w') :
    QueueStep none w w' := by
  obtain ⟨t, r, g, hold, hr, hg, hl | ⟨s, w₁, hs, hl, hhook⟩⟩ := abort_spec h
  · refine QueueStep.trans ?_ hl.queue
    exact hold.ends (s := .blockedBudget) howns hr hg (fun _ => rfl) rfl rfl rfl (by decide) fun hh => (by cases hh)
  · refine QueueStep.trans (QueueStep.trans ?_ hl.queue)
      ((hookSteps_queue.wired hw).failed _ _ _ _ hhook)
    rcases hs with rfl | rfl
    · exact hold.ends (s := .failed) howns hr hg (fun _ => rfl) rfl rfl rfl (by decide) fun hh => (by cases hh)
    · exact hold.ends (s := .cancelled) howns hr hg (fun _ => rfl) rfl rfl rfl (by decide) fun hh => (by cases hh)

theorem suspend_state {s : AgentRunState} {path : List AgentRunState} (hs : s.isOpen = true)
    (h : agentRunFsm.shortestPath AgentRunState.all s .waitingApproval = .ok path) :
    path.getLast?.getD s = .waitingApproval := by
  cases s <;>
    first
      | (injection h with h; subst h; rfl)
      | cases hs

theorem suspendForApproval_queue (howns : c.Owns w) {approval : Id} {u : Unit}
    (h : Returns (TaskManager.suspendForApproval c approval) w u w') : QueueStep none w w' := by
  obtain ⟨t, r, path, hold, hr, hpath, hl⟩ := suspendForApproval_spec h
  refine QueueStep.trans ?_ hl.queue
  have hkey : ∀ y, (AgentRun.hopped path y).key = y.key := fun _ => rfl
  refine .of_touches (i := c.task.id) (setRun_keys hkey)
    (fun hq => hold.touches hq (howns.openRun hq hr.row hr.isOpen) hkey fun _ => rfl) hold.row
    (by rw [hold.running]; rfl) fun hq h t' ht' => ?_
  have hopen := howns.openRun hq hr.row hr.isOpen
  have hrow : (w.setRun r.id (AgentRun.hopped path)).task? c.task.id = some t := hold.row
  rw [hold.id, World.setTask_self (by intro _; rfl) hrow, Option.some.injEq] at ht'
  subst ht'
  have hwait : (r.hopped path).state = .waitingApproval := suspend_state hr.isOpen hpath
  have hnodup : ((w.runsOf c.task.id).map (·.id)).Nodup :=
    (List.filter_sublist.map _).nodup hq.runIds
  show Attempted (t.leaves .waitingApproval)
    ((w.setRun r.id (AgentRun.hopped path)).runsOf c.task.id)
  rw [runsOf_setRun hkey]
  refine ⟨?_, h.bounded, .suspended (r.hopped path) (openRuns_moved hnodup
    (h.staffed.eq_of_mem hopen) (by rw [hwait]; rfl)) hwait (.inr rfl)⟩
  rw [map_attempt_onRun hkey]
  exact h.numbered

/-- The worker goes on with its run, and extends its lease. -/
theorem working_queue {r : AgentRun} {g : AgentRun → AgentRun} {until_ : Time}
    (hold : c.Holds w t) (howns : c.Owns w) (hr : w.agentRun? c.run.id = some r)
    (ho : r.state.isOpen = true) (hkey : ∀ y, (g y).key = y.key)
    (hg : (g r).state.isOpen = true) :
    QueueStep none w ((w.setTask t.id (Task.extended until_)).setRun c.run.id g) := by
  have hrid := (w.mem_of_agentRun? _ hr).2
  have hcomm : (w.setTask t.id (Task.extended until_)).setRun c.run.id g =
      (w.setRun r.id g).setTask t.id (Task.extended until_) := by rw [hrid]; rfl
  rw [hcomm]
  refine .of_touches (i := c.task.id) (setRun_keys hkey)
    (fun hq => hold.touches hq (howns.openRun hq hr ho) hkey fun _ => rfl) hold.row
    (by rw [hold.running]; rfl) fun hq h t' ht' => ?_
  have hopen := howns.openRun hq hr ho
  have hrow : (w.setRun r.id g).task? c.task.id = some t := hold.row
  rw [hold.id, World.setTask_self (by intro _; rfl) hrow, Option.some.injEq] at ht'
  subst ht'
  have hnodup : ((w.runsOf c.task.id).map (·.id)).Nodup :=
    (List.filter_sublist.map _).nodup hq.runIds
  show Attempted (t.extended until_) ((w.setRun r.id g).runsOf c.task.id)
  rw [runsOf_setRun hkey]
  refine ⟨?_, h.bounded, .working (g r) (openRuns_moved hnodup (h.staffed.eq_of_mem hopen) hg)
    hold.running⟩
  rw [map_attempt_onRun hkey]
  exact h.numbered

theorem succeed_queue (hw : Wired e tm) (howns : c.Owns w) {output : Option Dict}
    {summary : Option String} {unlocked : List UnlockedTask}
    (h : Returns (tm.succeed c output summary) w unlocked w') : QueueStep none w w' := by
  obtain ⟨t, r, g, w₁, hold, hr, hg, hhook, hl⟩ := succeed_spec h
  refine QueueStep.trans ?_ hl.queue
  have hstep : QueueStep (some t.id) _ w₁ := (hookSteps_queue.wired hw).finished _ _ _ _ hhook
  refine ⟨?_, fun hq _ => ⟨?_, fun j hj => (by cases hj)⟩⟩
  · rw [setRun_keys hg.key]
    exact hstep.keys
  -- while the hook runs, the task has ended and its run has not
  have htouch : Touches t.id w
      (w.setTask t.id fun y => { y.leaves .succeeded with output := output }) :=
    setTask_touches fun _ => rfl
  have hrow := hold.row
  rw [← hold.id] at hrow
  have hmid := hq.touched (y := some t.id) htouch (fun j _ _ hj => by cases hj)
    (fun hne => absurd rfl hne)
  have hself := World.setTask_self
    (f := fun y => { y.leaves .succeeded with output := output }) (fun _ => rfl) hrow
  obtain ⟨hq₁, hspared⟩ := hstep.sound hmid fun i hi => by
    rw [Option.mem_some_iff] at hi
    subst hi
    exact ⟨_, hself, rfl⟩
  obtain ⟨hruns, hcounts⟩ := hspared t.id rfl
  obtain ⟨t₁, ht₁, hc₁⟩ := hcounts _ hself
  simp only [Task.counts, Prod.mk.injEq] at hc₁
  have hruns : w₁.runsOf t.id = w.runsOf t.id := hruns
  have hopen := howns.openRun hq hr.row hr.isOpen
  rw [← hold.id] at hopen
  have hatt := hq.tasks _ t hrow (by intro hh; cases hh)
  have hopen₁ := hopen
  rw [← hruns] at hopen₁
  obtain ⟨hmem₁, htid₁, _⟩ := mem_openRuns.mp hopen₁
  refine hq₁.touched (i := t.id) (setRun_touches hg.key (fun y hy he => ?_) fun y hy he ho => ?_)
    (fun j hj _ hx => hj (Option.some.inj hx)) fun _ t₂ ht₂ => ?_
  · rw [List.inj_on_of_nodup_map hq₁.runIds hy hmem₁ he]
    exact htid₁
  · rw [hg.closed] at ho
    cases ho
  · rw [World.setRun_task?, ht₁, Option.some.injEq] at ht₂
    subst ht₂
    rw [runsOf_setRun hg.key, hruns]
    exact hatt.ended (s := .succeeded) hopen hg hc₁.2.1 hc₁.2.2 hc₁.1 (by decide) fun hh => (by cases hh)

end Autora
