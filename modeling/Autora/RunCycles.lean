import Autora.Calm
import Autora.HookSteps
import Autora.Ledger
import Autora.StaleClaims

/-! Which cycle a workflow run's work is accounted to: the run carries a cycle, each of
its tasks carries one, and a model call carries the one of the task it is made for. -/

namespace Autora

open Transactions Systems

/-! Starting work under a cycle -/

/-- The company's cycle that is not done, the last one started. -/
def World.openCycle (w : World) (company : Id) : Option Cycle :=
  ((w.cycles.filter fun c => c.companyId = company && c.stage ≠ .done).mergeSort
    fun c c' => c'.seq ≤ c.seq).head?

/-- `run.cycle_id = ...` -/
def WorkflowRun.underCycle (cycle : Id) (r : WorkflowRun) : WorkflowRun :=
  { r with cycleId := some cycle }

/-- `for task in tasks.values(): task.cycle_id = cycle.id`, of the run just made. -/
def World.setTasksCycle (w : World) (run cycle : Id) : World :=
  { w with tasks := w.tasks.map fun t =>
      if t.workflowRunId = some run then { t with cycleId := some cycle } else t }

/-- `instantiate_workflow`, which `restart_workflow` calls too: `start_workflow` names no
cycle, the open cycle is written on the run and on its tasks. -/
def instantiateWorkflow (e : WorkflowEngine) (template : String) (company project : Id)
    (params : Dict) (allowed : Bool) : Tx Id := do
  let w ← get
  require (allowed = true) (.refused "the policy does not allow it")
  let run ← e.instantiate template company project params none
  forSome (w.openCycle company) fun cycle => do
    updateWorkflowRun run (WorkflowRun.underCycle cycle.id)
    modify fun w => w.setTasksCycle run cycle.id
  pure run

/-- `commission_story`, in a tool call made for a task of that cycle: the cycle is written
on the run alone. -/
def commissionStory (e : WorkflowEngine) (cycle : Option Id) (company project : Id)
    (params : Dict) (allowed : Bool) : Tx Id := do
  require (allowed = true) (.refused "the policy does not allow it")
  let run ← e.instantiate "newsroom.story_to_article_v2" company project params none
  forSome cycle fun cycle => updateWorkflowRun run (WorkflowRun.underCycle cycle)
  pure run

/-! What is read by the cycle -/

/-- A row of `model_calls`, with the run it is made for. -/
structure RunCall extends Company.ModelCall where
  workflowRunId : Option Id

/-- The row of a call made while a claim is worked on. -/
def Claim.callRow (claim : Claim) (id : Id) (status : Company.ModelCallStatus)
    (cost : { c : Company.Money // 0 ≤ c }) : RunCall where
  id := id
  companyId := claim.task.companyId
  projectId := some claim.task.projectId
  cycleId := claim.task.cycleId
  status := status
  costUsd := cost.1
  cost_nonneg := cost.2
  workflowRunId := claim.task.workflowRunId

/-- `_record_timeout`: the tasks its event names; nothing else happens to them. -/
def World.unfinishedOf (w : World) (cycle : Id) : List Id :=
  (w.tasks.filter fun t => t.cycleId = some cycle && !t.state.final).map (·.id)

/-- `workflows_this_cycle`. -/
def World.workflowsThisCycle (w : World) (company : Id) : Nat :=
  match w.openCycle company with
  | none => 0
  | some cycle => w.workflowRuns.countP (·.cycleId = some cycle.id)

/-- `_record_timeout`: its event names the unfinished tasks of the cycle. -/
def recordTimeout (cycle : Id) : Tx (List Id) := do
  let w ← get
  pure (w.unfinishedOf cycle)

/-! The cycle of a run -/

def World.cycleOf (w : World) (run : Id) : Option (Option Id) :=
  (w.workflowRun? run).map (·.cycleId)

/-- Every task carries the cycle of its run; some runs may be left out. -/
structure World.Linked (out : Id → Prop) (w : World) : Prop where
  runIds : ∀ r ∈ w.workflowRuns, r.id < w.nextId
  tasks : ∀ t ∈ w.tasks, ∀ run, t.workflowRunId = some run → ¬ out run →
    w.cycleOf run = some t.cycleId

/-- No run changes its cycle, and the tasks stay linked. -/
structure CycleStep (out : Id → Prop) (w w' : World) : Prop where
  next : w.nextId ≤ w'.nextId
  kept : ∀ run c, w.cycleOf run = some c → w'.cycleOf run = some c
  linked : w.Linked out → w'.Linked out

variable {out : Id → Prop} {w w₁ w' : World} {e : WorkflowEngine} {tm : TaskManager}

instance : IsPreorder World (CycleStep out) where
  refl _ := ⟨Nat.le_refl _, fun _ _ h => h, fun h => h⟩
  trans _ _ _ h h' := ⟨Nat.le_trans h.next h'.next,
    fun run c hc => h'.kept run c (h.kept run c hc), fun hl => h'.linked (h.linked hl)⟩

theorem CycleStep.refl (w : World) : CycleStep out w w := Std.Refl.refl w

theorem CycleStep.trans (h : CycleStep out w w₁) (h' : CycleStep out w₁ w') :
    CycleStep out w w' := IsTrans.trans _ _ _ h h'

/-- The runs are as they were, and each task's run and cycle are those of a task before. -/
theorem CycleStep.of_rows (hn : w.nextId ≤ w'.nextId) (hr : w'.workflowRuns = w.workflowRuns)
    (ht : ∀ t' ∈ w'.tasks, ∃ t ∈ w.tasks, t'.workflowRunId = t.workflowRunId ∧
      t'.cycleId = t.cycleId) : CycleStep out w w' := by
  have hcycle : ∀ run, w'.cycleOf run = w.cycleOf run := by
    intro run
    unfold World.cycleOf World.workflowRun?
    rw [hr]
  refine ⟨hn, fun run c h => (hcycle run).trans h,
    fun h => ⟨fun r hmem => ?_, fun t' ht' run hrun hout => ?_⟩⟩
  · rw [hr] at hmem
    exact Nat.lt_of_lt_of_le (h.runIds r hmem) hn
  · obtain ⟨t, hmem, hsame, hc⟩ := ht t' ht'
    rw [hcycle, hc]
    exact h.tasks t hmem run (hsame.symm.trans hrun) hout

theorem CycleStep.of_tasks (hn : w.nextId ≤ w'.nextId) (hr : w'.workflowRuns = w.workflowRuns)
    (ht : w'.tasks = w.tasks) : CycleStep out w w' :=
  .of_rows hn hr fun t hmem => ⟨t, ht ▸ hmem, rfl, rfl⟩

theorem Logged.cycles (h : Logged w w') : CycleStep out w w' :=
  .of_tasks (Nat.le_of_eq h.nextId.symm) h.workflowRuns h.tasks

theorem setRun_cycles (w : World) (id : Id) (f : AgentRun → AgentRun) :
    CycleStep out w (w.setRun id f) := .of_tasks (Nat.le_refl _) rfl rfl

theorem endRun_cycles (w : World) (run : Option AgentRun) (g : AgentRun → AgentRun) :
    CycleStep out w (w.endRun run g) := by
  cases run with
  | none => exact CycleStep.refl w
  | some r => exact setRun_cycles w r.id g

theorem setTask_cycles {f : Task → Task} (w : World) (id : Id)
    (hf : ∀ t, (f t).workflowRunId = t.workflowRunId ∧ (f t).cycleId = t.cycleId) :
    CycleStep out w (w.setTask id f) := by
  refine .of_rows (Nat.le_refl _) rfl fun t' ht' => ?_
  obtain ⟨t, hmem, rfl⟩ := List.mem_map.mp ht'
  refine ⟨t, hmem, ?_⟩
  by_cases h : t.id = id
  · rw [if_pos h]
    exact hf t
  · rw [if_neg h]
    exact ⟨rfl, rfl⟩

/-- A task was written, and then only the log. -/
theorem Logged.written {f : Task → Task} {id : Id} (hl : Logged (w.setTask id f) w')
    (hf : ∀ t, (f t).workflowRunId = t.workflowRunId ∧ (f t).cycleId = t.cycleId) :
    CycleStep out w w' := (setTask_cycles w id hf).trans hl.cycles

theorem setWorkflowRun_cycleOf {f : WorkflowRun → WorkflowRun} (hf : ∀ r, (f r).id = r.id)
    (w : World) (id run : Id) : (w.setWorkflowRun id f).cycleOf run =
      (w.workflowRun? run).map fun r => (if r.id = id then f r else r).cycleId := by
  have hfind : (w.setWorkflowRun id f).workflowRun? run =
      (w.workflowRun? run).map fun r => if r.id = id then f r else r := by
    refine find?_map_key (fun r => ?_) w.workflowRuns run
    by_cases h : r.id = id <;> simp [h, hf]
  rw [World.cycleOf, hfind, Option.map_map]
  rfl

theorem setWorkflowRun_runIds {f : WorkflowRun → WorkflowRun} (hf : ∀ r, (f r).id = r.id)
    {id : Id} (h : ∀ r ∈ w.workflowRuns, r.id < w.nextId) :
    ∀ r ∈ (w.setWorkflowRun id f).workflowRuns, r.id < w.nextId := by
  intro r' hr'
  obtain ⟨r, hmem, rfl⟩ := List.mem_map.mp hr'
  split
  · rw [hf]
    exact h r hmem
  · exact h r hmem

/-- A write that leaves a run's cycle alone. -/
theorem setWorkflowRun_cycles {f : WorkflowRun → WorkflowRun}
    (hf : ∀ r, (f r).id = r.id ∧ (f r).cycleId = r.cycleId) (w : World) (id : Id) :
    CycleStep out w (w.setWorkflowRun id f) := by
  have hcycle : ∀ run, (w.setWorkflowRun id f).cycleOf run = w.cycleOf run := by
    intro run
    rw [setWorkflowRun_cycleOf (fun r => (hf r).1), World.cycleOf]
    congr 1
    funext r
    split
    · exact (hf r).2
    · rfl
  refine ⟨Nat.le_refl _, fun run c h => (hcycle run).trans h,
    fun h => ⟨?_, fun t ht run hrun hout => ?_⟩⟩
  · exact setWorkflowRun_runIds (fun r => (hf r).1) h.runIds
  · rw [hcycle]
    exact h.tasks t ht run hrun hout

/-- A task may be added under the cycle of its run. -/
def MayAdd (out : Id → Prop) (w : World) (args : TaskArgs) : Prop :=
  ∀ run, args.workflowRunId = some run → ¬ out run → w.cycleOf run = some args.cycleId

theorem insertTask_cycles {args : TaskArgs} {id n : Id} {s : TaskState} (hn : w.nextId ≤ n)
    (ha : MayAdd out w args) :
    CycleStep out w (w.insertTask n ((TaskManager.newTask args id w.now).moved s)) := by
  refine ⟨hn, fun run c h => h, fun h => ⟨fun r hr => Nat.lt_of_lt_of_le (h.runIds r hr) hn, ?_⟩⟩
  intro t ht run hrun hout
  rcases List.mem_append.mp ht with hold | hnew
  · exact h.tasks t hold run hrun hout
  · rw [List.mem_singleton.mp hnew] at hrun ⊢
    exact ha run hrun hout

theorem engineSteps_cycles : EngineSteps (MayAdd out) (CycleStep out) where
  logged _ _ h := h.cycles
  settle w id _ hf := setWorkflowRun_cycles hf w id
  round w w' run args hrun hstep hid hc := by
    intro run' hrun' _
    obtain rfl : run.id = run' := Option.some.inj (hid.symm.trans hrun')
    rw [hc]
    refine hstep.kept run.id run.cycleId ?_
    rw [World.cycleOf, hrun]
    rfl
  insert _ _ _ _ _ hn _ _ _ ha := insertTask_cycles hn ha
  unlock w id _ _ _ := setTask_cycles w id fun _ => ⟨rfl, rfl⟩
  rewire w id _ := setTask_cycles w id fun _ => ⟨rfl, rfl⟩
  cancel w id _ g _ _ _ :=
    (endRun_cycles w _ g).trans (setTask_cycles _ id fun _ => ⟨rfl, rfl⟩)

/-! The operations -/

theorem cycleOf_lt (h : ∀ r ∈ w.workflowRuns, r.id < w.nextId) {run : Id} {c : Option Id}
    (hc : w.cycleOf run = some c) : run < w.nextId := by
  obtain ⟨r, hr, _⟩ := Option.map_eq_some_iff.mp hc
  obtain ⟨hmem, rfl⟩ := w.mem_of_workflowRun? run hr
  exact h r hmem

theorem insertRun_cycleOf {run : WorkflowRun} (id : Id) :
    World.cycleOf { w with workflowRuns := w.workflowRuns ++ [run] } id =
      (w.cycleOf id).or (if run.id = id then some run.cycleId else none) := by
  simp only [World.cycleOf, World.workflowRun?, List.find?_append, Option.map_or]
  congr 1
  by_cases h : run.id = id <;> simp [h]

/-- The row of a run is inserted under the next id. -/
theorem insertRun_cycles (hl : w.Linked out) {run : WorkflowRun} (hid : run.id = w.nextId)
    (hw' : w' = { w with
      nextId := w.nextId + 1
      workflowRuns := w.workflowRuns ++ [run] }) :
    CycleStep out w w' ∧ w'.cycleOf run.id = some run.cycleId := by
  subst hw'
  have hnone : w.cycleOf run.id = none := by
    rw [Option.eq_none_iff_forall_ne_some]
    intro c hc
    exact absurd (cycleOf_lt hl.runIds hc) (Nat.not_lt_of_le (Nat.le_of_eq hid.symm))
  have hkept : ∀ id c, w.cycleOf id = some c →
      World.cycleOf { w with workflowRuns := w.workflowRuns ++ [run] } id = some c := by
    intro id c h
    rw [insertRun_cycleOf, h, Option.some_or]
  refine ⟨⟨Nat.le_succ _, hkept, fun _ => ⟨fun r hr => ?_, fun t ht id hrun hout => ?_⟩⟩, ?_⟩
  · rcases List.mem_append.mp hr with hold | hnew
    · exact Nat.lt_succ_of_lt (hl.runIds r hold)
    · rw [List.mem_singleton.mp hnew, hid]
      exact Nat.lt_succ_self _
  · exact hkept id _ (hl.tasks t ht id hrun hout)
  · refine (insertRun_cycleOf run.id).trans ?_
    rw [hnone, Option.none_or, if_pos rfl]

theorem uuid7_cycles : Keeps (CycleStep out) uuid7 :=
  Keeps.get.bind fun _ => Keeps.bind
    (Keeps.modify fun _ => .of_tasks (Nat.le_succ _) rfl rfl) fun _ => Keeps.pure _

/-- The new run, and all its tasks, are under the cycle it is instantiated with. -/
theorem instantiate_cycles {template : String} {company project : Id} {params : Dict}
    {cycle : Option Id} {run : Id} (hl : w.Linked out)
    (h : Returns (e.instantiate template company project params cycle) w run w') :
    CycleStep out w w' ∧ w.nextId ≤ run ∧ w'.cycleOf run = some cycle := by
  simp only [WorkflowEngine.instantiate, returns_bind, returns_orRaise, returns_uuid7,
    returns_clock, returns_modify, returns_pure] at h
  obtain ⟨t, w, ⟨_, rfl⟩, ids, w₁, h₁, display, w₂, h₂, _, _, ⟨rfl, rfl⟩, now, _, ⟨_, rfl⟩,
    _, _, hw₂, _, w₃, h₃, _, w', h₄, rfl, rfl⟩ := h
  have hs₁ : CycleStep out w w₁ :=
    Keeps.foldEach _ _ (fun _ _ _ => uuid7_cycles.bind fun _ => Keeps.pure _) _ _ _ h₁
  have hs₂ : CycleStep out w₁ w₂ := Keeps.foldEach _ _
    (fun _ _ _ => (EngineSteps.keeps_render _ _ _).bind fun _ => Keeps.pure _) _ _ _ h₂
  have hs := hs₁.trans hs₂
  obtain ⟨hinsert, hcycle⟩ := insertRun_cycles (hs.linked hl) rfl hw₂
  have hs₃ : CycleStep out _ w₃ := (emitWorkflowRun_logged _ _ _ _ _ h₃).cycles
  -- each task is added while the run has its cycle
  have hs₄ : CycleStep out w₃ w' := by
    refine forEach_prefix (I := fun _ s => CycleStep out w₃ s) ?_ (CycleStep.refl w₃) h₄
    intro _ node _ _ s _ s' hstep hadd
    simp only [returns_bind, returns_orRaise, returns_pure] at hadd
    obtain ⟨_, s, ⟨_, rfl⟩, _, s, ⟨_, rfl⟩, _, s₁, hadd, _, rfl⟩ := hadd
    refine hstep.trans (engineSteps_cycles.addTask_allowed ?_ hadd)
    intro run hrun _
    obtain rfl := Option.some.inj hrun
    exact hstep.kept _ _ (hs₃.kept _ _ hcycle)
  exact ⟨((hs.trans hinsert).trans hs₃).trans hs₄, hs.next,
    hs₄.kept _ _ (hs₃.kept _ _ hcycle)⟩

/-- `add_task` is only called by the engine: no other caller names a run. -/
def Op.NamesNoRun : Op → Prop
  | addTask args => args.workflowRunId = none
  | _ => True

theorem transition_cycles {id : Id} {s : TaskState} {p : Task → Payload} {u : Unit}
    (h : Returns (do
      transitionTask id s
      let task ← theTask id
      emitTask task (p task) none) w u w') : CycleStep out w w' := by
  obtain ⟨_, _, _, hl⟩ := transition_spec h
  exact hl.written fun _ => ⟨rfl, rfl⟩

/-- A claim's task and run are written, then the hooks may be called. -/
theorem ended_cycles (hh : HooksKeep (CycleStep out) tm) {run id : Id}
    {g : AgentRun → AgentRun} {f : Task → Task} {u : Unit}
    (hl : Logged ((w.setRun run g).setTask id f) w₁) (hfail : Returns (tm.failed id) w₁ u w')
    (hf : ∀ t, (f t).workflowRunId = t.workflowRunId ∧ (f t).cycleId = t.cycleId) :
    CycleStep out w w' :=
  ((setRun_cycles w run g).trans (hl.written hf)).trans (hh.failed id _ _ _ hfail)

theorem succeed_cycles (hh : HooksKeep (CycleStep out) tm) {claim : Claim} {output : Option Dict}
    {summary : Option String} {unlocked : List UnlockedTask}
    (h : Returns (tm.succeed claim output summary) w unlocked w') : CycleStep out w w' := by
  obtain ⟨t, r, g, w₁, _, _, _, hfin, hl⟩ := succeed_spec h
  have hset : CycleStep out w (w.setTask t.id fun x => { x.leaves .succeeded with output := output }) :=
    setTask_cycles w t.id fun _ => ⟨rfl, rfl⟩
  exact ((hset.trans (hh.finished _ _ _ _ hfin)).trans (setRun_cycles w₁ r.id g)).trans hl.cycles

theorem fail_cycles (hh : HooksKeep (CycleStep out) tm) {claim : Claim}
    {errorClass message : String} {retryable retry : Bool}
    (h : Returns (tm.fail claim errorClass message retryable) w retry w') : CycleStep out w w' := by
  obtain ⟨t, r, g, _, _, _, ⟨_, hl⟩ | ⟨w₁, u, hl, hfail⟩⟩ := fail_spec h
  · exact (setRun_cycles w r.id g).trans (hl.written fun _ => ⟨rfl, rfl⟩)
  · exact ended_cycles hh hl hfail fun _ => ⟨rfl, rfl⟩

theorem abort_cycles (hh : HooksKeep (CycleStep out) tm) {claim : Claim} {reason : AbortReason}
    {message : Option String} {u : Unit} (h : Returns (tm.abort claim reason message) w u w') :
    CycleStep out w w' := by
  obtain ⟨t, r, g, _, _, _, hl | ⟨s, w₁, _, hl, hfail⟩⟩ := abort_spec h
  · exact (setRun_cycles w r.id g).trans (hl.written fun _ => ⟨rfl, rfl⟩)
  · exact ended_cycles hh hl hfail fun _ => ⟨rfl, rfl⟩

theorem claimNext_cycles {agent : Agent} {workerId : String} {locked : List Id}
    {o : Option Claim} (h : Returns (tm.claimNext agent workerId locked) w o w') :
    CycleStep out w w' := by
  rcases claimNext_spec h with ⟨_, rfl⟩ | ⟨task, _, _, claim, resume, _, _, htake⟩
  · exact CycleStep.refl _
  cases resume with
  | none =>
    obtain ⟨_, _, _, _, hl⟩ := take_fresh htake
    have hrows : CycleStep out w
        { w with agentRuns := w.agentRuns ++ [claim.run], nextId := w.nextId + 2 } :=
      .of_tasks (Nat.le_add_right _ _) rfl rfl
    exact hrows.trans (hl.written fun _ => ⟨rfl, rfl⟩)
  | some r =>
    obtain ⟨_, _, _, hl⟩ := take_resumed htake
    have hrows : CycleStep out w { w with nextId := w.nextId + 1 } :=
      .of_tasks (Nat.le_succ _) rfl rfl
    exact hrows.trans (hl.written fun _ => ⟨rfl, rfl⟩)

theorem releaseBlocked_cycles (hh : HooksKeep (CycleStep out) tm) {company : Id}
    {locked : List Id} : Keeps (CycleStep out) (tm.releaseBlocked company locked) := by
  refine Keeps.get.bind fun w => Keeps.bind (Keeps.forEach _ fun t _ => ?_) fun _ => Keeps.pure _
  intro w u w' h
  obtain ⟨_, _, ⟨_, _, hl⟩ | ⟨_, _, w₁, hl, hfail⟩⟩ := releaseBlockedTask_spec h
  · exact hl.written fun _ => ⟨rfl, rfl⟩
  · exact (hl.written fun _ => ⟨rfl, rfl⟩).trans (hh.failed _ _ _ _ hfail)

theorem reapExpiredLeases_cycles (hh : HooksKeep (CycleStep out) tm) {limit : Nat}
    {locked : List Id} : Keeps (CycleStep out) (tm.reapExpiredLeases limit locked) := by
  refine Keeps.get.bind fun w => Keeps.bind (Keeps.forEach _ fun t _ => ?_) fun _ => Keeps.pure _
  intro w u w' h
  obtain ⟨_, g, _, _, _, ⟨_, hl⟩ | ⟨w₁, hl, hfail⟩⟩ := reapTask_spec h
  · exact (endRun_cycles w _ g).trans (hl.written fun _ => ⟨rfl, rfl⟩)
  · exact ((endRun_cycles w _ g).trans (hl.written fun _ => ⟨rfl, rfl⟩)).trans
      (hh.failed _ _ _ _ hfail)

theorem exec_cycles (hw : Wired e tm) {op : Op} {o : Option Claim} (hop : op.NamesNoRun)
    (hlinked : w.Linked out) (h : Returns (op.exec e tm) w o w') : CycleStep out w w' := by
  have hh : HooksKeep (CycleStep out) tm := engineSteps_cycles.wired hw
  cases op with
  | tick d =>
    simp only [Op.exec, returns_bind, returns_modify, returns_pure] at h
    obtain ⟨_, _, rfl, _, rfl⟩ := h
    exact .of_tasks (Nat.le_refl _) rfl rfl
  | addTask args =>
    obtain ⟨_, _, h⟩ := returns_discard.mp h
    refine engineSteps_cycles.addTask_allowed (fun run hrun _ => ?_) h
    have hnone : args.workflowRunId = none := hop
    rw [hnone] at hrun
    cases hrun
  | markReady task =>
    obtain ⟨_, _, h⟩ := returns_discard.mp h
    exact transition_cycles (p := fun t => .taskReady t.requiredRole) h
  | claimNext agent workerId locked =>
    simp only [Op.exec, returns_bind, returns_theAgent] at h
    obtain ⟨_, _, ⟨_, rfl⟩, h⟩ := h
    exact claimNext_cycles h
  | heartbeat claim =>
    obtain ⟨_, _, h⟩ := returns_discard.mp h
    obtain ⟨t, _, rfl⟩ := heartbeat_spec h
    exact setTask_cycles w t.id fun _ => ⟨rfl, rfl⟩
  | startRun claim =>
    obtain ⟨_, _, h⟩ := returns_discard.mp h
    obtain ⟨t, _, g, _, _, _, _, rfl⟩ := startRun_spec h
    have hset : CycleStep out w (w.setTask t.id (Task.extended (w.now + tm.lease))) :=
      setTask_cycles w t.id fun _ => ⟨rfl, rfl⟩
    exact hset.trans (setRun_cycles _ _ g)
  | evaluate claim repair =>
    obtain ⟨_, _, h⟩ := returns_discard.mp h
    obtain ⟨t, _, g, _, _, _, _, rfl⟩ := evaluate_spec h
    have hset : CycleStep out w (w.setTask t.id (Task.extended (w.now + tm.lease))) :=
      setTask_cycles w t.id fun _ => ⟨rfl, rfl⟩
    exact hset.trans (setRun_cycles _ _ g)
  | succeed claim output summary =>
    obtain ⟨_, _, h⟩ := returns_discard.mp h
    exact succeed_cycles hh h
  | fail claim errorClass message retryable =>
    obtain ⟨_, _, h⟩ := returns_discard.mp h
    exact fail_cycles hh h
  | abort claim reason message =>
    obtain ⟨_, _, h⟩ := returns_discard.mp h
    exact abort_cycles hh h
  | cancel task reason =>
    obtain ⟨_, _, h⟩ := returns_discard.mp h
    exact engineSteps_cycles.keeps_cancel hh _ _ _ _ _ h
  | suspendForApproval claim approval =>
    obtain ⟨_, _, h⟩ := returns_discard.mp h
    obtain ⟨t, r, path, _, _, _, hl⟩ := suspendForApproval_spec h
    exact (setRun_cycles w r.id _).trans (hl.written fun _ => ⟨rfl, rfl⟩)
  | awaitApproval task approval =>
    obtain ⟨_, _, h⟩ := returns_discard.mp h
    exact transition_cycles (p := fun _ => .taskWaiting .approval (some approval)) h
  | releaseAfterApproval task =>
    obtain ⟨_, _, h⟩ := returns_discard.mp h
    exact transition_cycles (p := fun t => .taskReady t.requiredRole) h
  | completeWithoutRun task output summary =>
    obtain ⟨_, _, h⟩ := returns_discard.mp h
    obtain ⟨_, w₁, _, _, hfin, hl⟩ := completeWithoutRun_spec h
    have hset : CycleStep out w (w.setTask task (Task.answered output)) :=
      setTask_cycles w task fun _ => ⟨rfl, rfl⟩
    exact (hset.trans (hh.finished _ _ _ _ hfin)).trans hl.cycles
  | failWithoutRun task errorClass message =>
    obtain ⟨_, _, h⟩ := returns_discard.mp h
    obtain ⟨_, w₁, _, _, hl, hfail⟩ := failWithoutRun_spec h
    exact (hl.written fun _ => ⟨rfl, rfl⟩).trans (hh.failed _ _ _ _ hfail)
  | releaseBlocked company locked =>
    obtain ⟨_, _, h⟩ := returns_discard.mp h
    exact releaseBlocked_cycles hh _ _ _ h
  | reapExpiredLeases limit locked =>
    obtain ⟨_, _, h⟩ := returns_discard.mp h
    exact reapExpiredLeases_cycles hh _ _ _ h
  | instantiate template company project params cycle =>
    obtain ⟨_, _, h⟩ := returns_discard.mp h
    exact (instantiate_cycles hlinked h).1
  | cancelRun run reason =>
    obtain ⟨_, _, h⟩ := returns_discard.mp h
    exact engineSteps_cycles.keeps_cancelRun _ _ _ _ _ h

/-- The task of a new claim is a row of the database. -/
theorem claimNext_task {agent : Agent} {workerId : String} {locked : List Id} {claim : Claim}
    (h : Returns (tm.claimNext agent workerId locked) w (some claim) w') :
    claim.task ∈ w'.tasks := by
  obtain ⟨ho, _⟩ | ⟨task, _, _, claim', resume, ho, _, htake⟩ := claimNext_spec h
  · cases ho
  obtain rfl := Option.some.inj ho
  simp only [TaskManager.take, returns_bind, returns_theTask, returns_pure] at htake
  obtain ⟨_, _, _, _, _, _, _, _, _, _, _, _, t, w₂, ⟨ht, rfl⟩, _, w₃, h₃, rfl, rfl⟩ := htake
  rw [(emitTask_logged _ _ _ _ _ _ h₃).tasks]
  exact (World.mem_of_task? _ _ ht).1

theorem exec_claim_task {op : Op} {claim : Claim}
    (h : Returns (op.exec e tm) w (some claim) w') : claim.task ∈ w'.tasks := by
  cases op
  case claimNext agent workerId locked =>
    simp only [Op.exec, returns_bind, returns_theAgent] at h
    obtain ⟨_, _, ⟨_, rfl⟩, h⟩ := h
    exact claimNext_task h
  all_goals
    obtain ⟨ho, _⟩ := returns_discard.mp h
    cases ho

/-! The two callers that write the cycle afterwards -/

/-- A run's cycle was written. -/
theorem cycleOf_underCycle (w : World) (run id cycle : Id) :
    (w.setWorkflowRun run (WorkflowRun.underCycle cycle)).cycleOf id =
      if id = run then (w.cycleOf id).map fun _ => some cycle else w.cycleOf id := by
  have hset := setWorkflowRun_cycleOf (f := WorkflowRun.underCycle cycle) (fun _ => rfl) w run id
  rw [hset, World.cycleOf]
  cases hr : w.workflowRun? id with
  | none => simp
  | some r =>
    have hid := (w.mem_of_workflowRun? id hr).2
    by_cases h : id = run <;> simp [hid, h, WorkflowRun.underCycle]

theorem instantiateWorkflow_cycles {template : String} {company project run : Id} {params : Dict}
    {allowed : Bool} (hl : w.Linked out)
    (h : Returns (instantiateWorkflow e template company project params allowed) w run w') :
    CycleStep out w w' := by
  simp only [instantiateWorkflow, returns_bind, returns_get, returns_require, returns_pure] at h
  obtain ⟨_, _, ⟨rfl, rfl⟩, _, _, ⟨_, rfl⟩, _, w₁, h₁, _, w₂, h₂, rfl, rfl⟩ := h
  obtain ⟨hs, hfresh, hnew⟩ := instantiate_cycles hl h₁
  rcases returns_forSome.mp h₂ with ⟨cycle, _, h₂⟩ | ⟨_, rfl⟩
  · simp only [returns_bind, returns_updateWorkflowRun, returns_modify] at h₂
    obtain ⟨_, _, rfl, rfl⟩ := h₂
    have hcycle : ∀ id, World.cycleOf ((w₁.setWorkflowRun run
        (WorkflowRun.underCycle cycle.id)).setTasksCycle run cycle.id) id =
          if id = run then some (some cycle.id) else w₁.cycleOf id := by
      intro id
      refine (cycleOf_underCycle w₁ run id cycle.id).trans ?_
      by_cases hid : id = run
      · subst hid
        simp [hnew]
      · simp [hid]
    refine ⟨hs.next, fun id c hc => ?_, fun hl => ⟨?_, fun t' ht' id hid hout => ?_⟩⟩
    · have hne : id ≠ run := by
        rintro rfl
        exact absurd hfresh (Nat.not_le_of_lt (cycleOf_lt hl.runIds hc))
      rw [hcycle, if_neg hne]
      exact hs.kept id c hc
    · exact setWorkflowRun_runIds (f := WorkflowRun.underCycle cycle.id) (fun _ => rfl)
        (hs.linked hl).runIds
    · obtain ⟨t, ht, rfl⟩ := List.mem_map.mp ht'
      rw [hcycle]
      by_cases hrun : t.workflowRunId = some run
      · rw [if_pos hrun] at hid ⊢
        obtain rfl : run = id := Option.some.inj (hrun.symm.trans hid)
        rw [if_pos rfl]
      · rw [if_neg hrun] at hid ⊢
        have hne : id ≠ run := by
          rintro rfl
          exact hrun hid
        rw [if_neg hne]
        exact (hs.linked hl).tasks t ht id hid hout
  · exact hs

/-- The run that is commissioned under a cycle is left out from then on. -/
theorem commissionStory_cycles {cycle : Option Id} {company project run : Id} {params : Dict}
    {allowed : Bool} (hl : w.Linked out)
    (h : Returns (commissionStory e cycle company project params allowed) w run w') :
    (∀ id c, w.cycleOf id = some c → w'.cycleOf id = some c) ∧
      w'.Linked fun id => out id ∨ id = run ∧ cycle.isSome = true := by
  simp only [commissionStory, returns_bind, returns_require, returns_pure] at h
  obtain ⟨_, _, ⟨_, rfl⟩, _, w₁, h₁, _, w₂, h₂, rfl, rfl⟩ := h
  obtain ⟨hs, hfresh, hnew⟩ := instantiate_cycles hl h₁
  have hl₁ := hs.linked hl
  rcases returns_forSome.mp h₂ with ⟨cycle, rfl, hset⟩ | ⟨rfl, rfl⟩
  · obtain rfl := returns_updateWorkflowRun.mp hset
    have hcycle : ∀ id, id ≠ run → (w₁.setWorkflowRun run
        (WorkflowRun.underCycle cycle)).cycleOf id = w₁.cycleOf id := by
      intro id hid
      rw [cycleOf_underCycle, if_neg hid]
    refine ⟨fun id c hc => ?_, ⟨?_, ?_⟩⟩
    · have hne : id ≠ run := by
        rintro rfl
        exact absurd hfresh (Nat.not_le_of_lt (cycleOf_lt hl.runIds hc))
      rw [hcycle id hne]
      exact hs.kept id c hc
    · exact setWorkflowRun_runIds (f := WorkflowRun.underCycle cycle) (fun _ => rfl) hl₁.runIds
    · intro t ht id hid hout
      rw [hcycle id (fun he => hout (.inr ⟨he, rfl⟩))]
      exact hl₁.tasks t ht id hid fun ho => hout (.inl ho)
  · exact ⟨hs.kept, ⟨hl₁.runIds, fun t ht id hid hout =>
      hl₁.tasks t ht id hid fun ho => hout (.inl ho)⟩⟩

/-! The company at work -/

/-- The runtime, the model calls made so far, and the runs commissioned under a cycle. -/
structure Office where
  rt : Runtime
  calls : List RunCall
  commissioned : List Id

inductive OfficeAct where
  | op (op : Op)
  /-- The cycle runner starts a cycle or moves one on. -/
  | cycles (rows : List Cycle)
  | instantiateWorkflow (template : String) (company project : Id) (params : Dict)
    (allowed : Bool)
  /-- In a tool call of the claim's task. -/
  | commissionStory (claim : Claim) (project : Id) (params : Dict) (allowed : Bool)
  | call (claim : Claim) (status : Company.ModelCallStatus) (cost : { c : Company.Money // 0 ≤ c })
  | recordTimeout (cycle : Id)

def Office.withDb (s : Office) (w : World) : Office := { s with rt := { s.rt with db := w } }

/-- A transaction commits, or nothing happened. -/
def Office.after (e : WorkflowEngine) (tm : TaskManager) (s : Office) : OfficeAct → Office
  | .op op => { s with rt := s.rt.after e tm op }
  | .cycles rows => s.withDb { s.rt.db with cycles := rows }
  | .instantiateWorkflow template company project params allowed =>
    match instantiateWorkflow e template company project params allowed s.rt.db with
    | .ok (_, w) => s.withDb w
    | .error _ => s
  | .commissionStory claim project params allowed =>
    match commissionStory e claim.task.cycleId claim.task.companyId project params allowed
        s.rt.db with
    | .ok (run, w) => { s.withDb w with
        commissioned := if claim.task.cycleId.isSome then run :: s.commissioned
          else s.commissioned }
    | .error _ => s
  | .call claim status cost =>
    { s with calls := s.calls ++ [claim.callRow s.rt.db.nextId status cost] }
  | .recordTimeout cycle =>
    match Autora.recordTimeout cycle s.rt.db with
    | .ok (_, w) => s.withDb w
    | .error _ => s

/-- What is done for a claim is done by the worker it was handed to. -/
def OfficeAct.Called (s : Office) : OfficeAct → Prop
  | .op operation => operation.Called s.rt ∧ operation.NamesNoRun
  | .commissionStory claim .. | .call claim .. => claim ∈ s.rt.claims
  | _ => True

def office (e : WorkflowEngine) (tm : TaskManager) : System Office OfficeAct where
  init s := s.rt.Fresh ∧ s.calls = [] ∧ s.commissioned = []
  step s a s' := a.Called s ∧ s' = s.after e tm a

/-- Tasks, claims and calls are under the cycle of their run. -/
structure Accounted (s : Office) : Prop where
  linked : s.rt.db.Linked (· ∈ s.commissioned)
  claims : ∀ claim ∈ s.rt.claims, ∀ run, claim.task.workflowRunId = some run →
    run ∉ s.commissioned → s.rt.db.cycleOf run = some claim.task.cycleId
  calls : ∀ c ∈ s.calls, ∀ run, c.workflowRunId = some run → run ∉ s.commissioned →
    s.rt.db.cycleOf run = some c.cycleId

theorem Accounted.init {s : Office} (h : s.rt.Fresh ∧ s.calls = [] ∧ s.commissioned = []) :
    Accounted s := by
  obtain ⟨⟨ht, _, hr, hc⟩, hcalls, _⟩ := h
  refine ⟨⟨?_, ?_⟩, ?_, ?_⟩
  · rw [hr]
    simp
  · rw [ht]
    simp
  · rw [hc]
    simp
  · rw [hcalls]
    simp

/-- The database changes; the runs keep their cycles and the tasks stay linked, but for
the runs left out from now on. -/
theorem Accounted.withDb {s : Office} (h : Accounted s) {w : World} {commissioned : List Id}
    (hmore : ∀ run, run ∈ s.commissioned → run ∈ commissioned)
    (hkept : ∀ run c, s.rt.db.cycleOf run = some c → w.cycleOf run = some c)
    (hlinked : w.Linked (· ∈ commissioned)) :
    Accounted { s.withDb w with commissioned := commissioned } :=
  ⟨hlinked,
    fun claim hc run hrun hout =>
      hkept _ _ (h.claims claim hc run hrun fun hin => hout (hmore run hin)),
    fun c hc run hrun hout => hkept _ _ (h.calls c hc run hrun fun hin => hout (hmore run hin))⟩

theorem Accounted.stepped {s : Office} (h : Accounted s) {w : World}
    (hstep : CycleStep (· ∈ s.commissioned) s.rt.db w) : Accounted (s.withDb w) :=
  h.withDb (fun _ hin => hin) hstep.kept (hstep.linked h.linked)

theorem Accounted.op (hw : Wired e tm) {s : Office} (h : Accounted s) {op : Op}
    (hop : op.NamesNoRun) : Accounted (s.after e tm (.op op)) := by
  rcases after_cases e tm s.rt op with ⟨claim, w, hexec, he⟩ | ⟨_, he⟩
  · have hstep := exec_cycles hw hop h.linked hexec
    have hs := h.stepped hstep
    simp only [Office.after, he]
    refine ⟨hs.linked, fun c hc run hrun hout => ?_, hs.calls⟩
    rcases List.mem_append.mp hc with hold | hnew
    · exact hs.claims c hold run hrun hout
    · cases claim with
      | none => simp at hnew
      | some claim =>
        rw [List.mem_singleton.mp hnew] at hrun ⊢
        exact hs.linked.tasks _ (exec_claim_task hexec) run hrun hout
  · simp only [Office.after, he]
    exact h

theorem Accounted.step (hw : Wired e tm) {s : Office} (h : Accounted s) {a : OfficeAct}
    (ha : a.Called s) : Accounted (s.after e tm a) := by
  cases a with
  | op op => exact h.op hw ha.2
  | cycles rows => exact h.stepped (.of_tasks (Nat.le_refl _) rfl rfl)
  | instantiateWorkflow template company project params allowed =>
    simp only [Office.after]
    split
    · next run w hok => exact h.stepped (instantiateWorkflow_cycles h.linked hok)
    · exact h
  | commissionStory claim project params allowed =>
    simp only [Office.after]
    split
    · next run w hok =>
      obtain ⟨hkept, hlinked⟩ := commissionStory_cycles h.linked hok
      cases hcycle : claim.task.cycleId with
      | none =>
        rw [hcycle] at hlinked
        refine h.withDb (fun _ hin => hin) hkept ⟨hlinked.runIds, fun t ht id hid hout => ?_⟩
        exact hlinked.tasks t ht id hid fun hor => hout (hor.resolve_right fun hr => by
          cases hr.2)
      | some cycle =>
        rw [hcycle] at hlinked
        refine h.withDb (fun _ hin => List.mem_cons_of_mem _ hin) hkept
          ⟨hlinked.runIds, fun t ht id hid hout => ?_⟩
        refine hlinked.tasks t ht id hid ?_
        rintro (hin | ⟨rfl, _⟩)
        · exact hout (List.mem_cons_of_mem _ hin)
        · exact hout List.mem_cons_self
    · exact h
  | call claim status cost =>
    refine ⟨h.linked, h.claims, fun c hc run hrun hout => ?_⟩
    rcases List.mem_append.mp hc with hold | hnew
    · exact h.calls c hold run hrun hout
    · rw [List.mem_singleton.mp hnew] at hrun ⊢
      exact h.claims claim ha run hrun hout
  | recordTimeout cycle => exact h

theorem accounted_of_reach (hw : Wired e tm) {s : Office}
    (h : (office e tm).Reach anyStep s) : Accounted s := by
  refine h.invariant (fun s hs => .init hs) ?_
  rintro s a _ hs _ ⟨hcalled, rfl⟩
  exact hs.step hw hcalled

/-- A run that was not commissioned under a cycle: its tasks and its model calls carry its
cycle. The cycle's settlement takes its successful calls, the cycle's timeout names its
unfinished tasks and leaves them as they are, and the cycle's limit counts the run. -/
theorem run_accounted (hw : Wired e tm) {s : Office} (h : (office e tm).Reach anyStep s)
    {r : WorkflowRun} (hr : s.rt.db.workflowRun? r.id = some r) (hout : r.id ∉ s.commissioned) :
    (∀ t ∈ s.rt.db.tasksOf r.id, t.cycleId = r.cycleId) ∧
      (∀ c ∈ s.calls, c.workflowRunId = some r.id → c.cycleId = r.cycleId) ∧
      ∀ cycle, r.cycleId = some cycle →
        (∀ b : Company.Books, b.modelCalls = s.calls.map RunCall.toModelCall →
          ∀ c ∈ s.calls, c.workflowRunId = some r.id → c.status = .ok →
            c.toModelCall ∈ b.settled cycle) ∧
        (∀ t ∈ s.rt.db.tasksOf r.id, t.state.final = false →
          t.id ∈ s.rt.db.unfinishedOf cycle) ∧
        s.after e tm (.recordTimeout cycle) = s ∧
        ∀ c, s.rt.db.openCycle r.companyId = some c → c.id = cycle →
          s.rt.db.workflowsThisCycle r.companyId =
              s.rt.db.workflowRuns.countP (·.cycleId = some cycle) ∧
            r ∈ s.rt.db.workflowRuns.filter (·.cycleId = some cycle) := by
  have hs := accounted_of_reach hw h
  have hcycle : s.rt.db.cycleOf r.id = some r.cycleId := by
    rw [World.cycleOf, hr]
    rfl
  have htasks : ∀ t ∈ s.rt.db.tasksOf r.id, t.cycleId = r.cycleId := by
    intro t ht
    obtain ⟨hmem, hrun⟩ := List.mem_filter.mp ht
    have htask := hs.linked.tasks t hmem r.id (of_decide_eq_true hrun) hout
    exact Option.some.inj (htask.symm.trans hcycle)
  have hcalls : ∀ c ∈ s.calls, c.workflowRunId = some r.id → c.cycleId = r.cycleId :=
    fun c hc hrun => Option.some.inj ((hs.calls c hc r.id hrun hout).symm.trans hcycle)
  refine ⟨htasks, hcalls, fun cycle hc => ⟨fun b hb c hmem hrun hok => ?_, fun t ht hopen => ?_,
    rfl, fun c hopen hid => ⟨?_, ?_⟩⟩⟩
  · refine List.mem_filter.mpr ⟨hb ▸ List.mem_map_of_mem hmem, ?_⟩
    simp [hcalls c hmem hrun, hc, hok]
  · refine List.mem_map.mpr ⟨t, List.mem_filter.mpr ⟨(List.mem_filter.mp ht).1, ?_⟩, rfl⟩
    simp [htasks t ht, hc, hopen]
  · simp only [World.workflowsThisCycle, hopen, hid]
  · exact List.mem_filter.mpr ⟨(World.mem_of_workflowRun? _ _ hr).1, by simp [hc]⟩

/-! A planning task commissions a story -/

def writersNode (name : String) : NodeSpec where
  name := name
  displayName := fun _ => .ok name
  requiredRole := "writer"

def planTemplate : WorkflowTemplate where
  name := "plan"
  nodes := [writersNode "plan"]
  valid := by decide +kernel

def deskTemplate : WorkflowTemplate where
  name := "newsroom.story_to_article_v2"
  nodes := [writersNode "research"]
  valid := by decide +kernel

def newsroomEngine : WorkflowEngine where
  taskManager := {}
  templates := ⟨[planTemplate, deskTemplate], by decide⟩

/-- The planning of cycle 7 is under way. -/
def planned : Office :=
  ((Office.mk Runtime.staffed [] []).after newsroomEngine newsroomEngine.bound
    (.op (.instantiate "plan" 100 101 [] (some 7)))).after newsroomEngine newsroomEngine.bound
      (.op (.claimNext 1 "worker" []))

theorem planned_reach : (office newsroomEngine newsroomEngine.bound).Reach anyStep planned := by
  have hinit : (office newsroomEngine newsroomEngine.bound).Reach anyStep
      ⟨Runtime.staffed, [], []⟩ := .init ⟨⟨rfl, rfl, rfl, rfl⟩, rfl, rfl⟩
  have hplan := hinit.step (a := OfficeAct.op (.instantiate "plan" 100 101 [] (some 7))) trivial
    ⟨⟨trivial, trivial⟩, rfl⟩
  exact hplan.step (a := OfficeAct.op (.claimNext 1 "worker" [])) trivial ⟨⟨trivial, trivial⟩, rfl⟩

/-- The commissioned run carries the cycle and its task does not; and a timeout of the
cycle cancels nothing. -/
theorem cycle_not_carried :
    (¬ ∀ (e : WorkflowEngine) (s : Office), (office e e.bound).Reach anyStep s →
      ∀ r, s.rt.db.workflowRun? r.id = some r →
        ∀ t ∈ s.rt.db.tasksOf r.id, t.cycleId = r.cycleId) ∧
    ¬ ∀ (e : WorkflowEngine) (s : Office), (office e e.bound).Reach anyStep s →
      ∀ r, s.rt.db.workflowRun? r.id = some r → ∀ cycle, r.cycleId = some cycle →
        ∀ t ∈ (s.after e e.bound (.recordTimeout cycle)).rt.db.tasksOf r.id,
          t.state.final = true := by
  constructor
  · intro h
    have hclaim : ∃ c ∈ planned.rt.claims, ∃ id ∈ (planned.after newsroomEngine
        newsroomEngine.bound (.commissionStory c 101 [] true)).rt.db.workflowRuns.map (·.id),
        ∃ r ∈ (planned.after newsroomEngine newsroomEngine.bound
          (.commissionStory c 101 [] true)).rt.db.workflowRun? id,
          ∃ t ∈ (planned.after newsroomEngine newsroomEngine.bound
            (.commissionStory c 101 [] true)).rt.db.tasksOf r.id, t.cycleId ≠ r.cycleId := by
      decide +kernel
    obtain ⟨c, hc, id, _, r, hr, t, ht, hne⟩ := hclaim
    have hstep := planned_reach.step (a := OfficeAct.commissionStory c 101 [] true) trivial ⟨hc, rfl⟩
    have hid := (World.mem_of_workflowRun? _ _ hr).2
    exact hne (h _ _ hstep r (hid.symm ▸ hr) t ht)
  · intro h
    have hopen : ∃ id ∈ planned.rt.db.workflowRuns.map (·.id),
        ∃ r ∈ planned.rt.db.workflowRun? id, r.cycleId = some 7 ∧
          ∃ t ∈ planned.rt.db.tasksOf r.id, t.state.final = false := by
      decide +kernel
    obtain ⟨id, _, r, hr, hcycle, t, ht, hfinal⟩ := hopen
    have hid := (World.mem_of_workflowRun? _ _ hr).2
    have hend := h _ _ planned_reach r (hid.symm ▸ hr) 7 hcycle t ht
    rw [hfinal] at hend
    cases hend

theorem run_accounted_planned : ∃ r ∈ planned.rt.db.workflowRuns, r.cycleId = some 7 ∧
    (planned.rt.db.tasksOf r.id).length = 1 ∧
    ∀ t ∈ planned.rt.db.tasksOf r.id, t.cycleId = some 7 := by
  have hrun : ∃ id ∈ planned.rt.db.workflowRuns.map (·.id),
      ∃ r ∈ planned.rt.db.workflowRun? id, r.cycleId = some 7 ∧
        (planned.rt.db.tasksOf r.id).length = 1 := by
    decide +kernel
  obtain ⟨id, _, r, hr, hcycle, hlength⟩ := hrun
  obtain ⟨hmem, hid⟩ := World.mem_of_workflowRun? _ _ hr
  have hall := run_accounted (.inl rfl) planned_reach (hid.symm ▸ hr) List.not_mem_nil
  exact ⟨r, hmem, hcycle, hlength, fun t ht => (hall.1 t ht).trans hcycle⟩

end Autora
