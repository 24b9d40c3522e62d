import Autora.Writes

/-! The engine's hooks are made of a few writes: a relation that those respect is
one that the hooks respect, however deep they are nested. -/

namespace Autora

open Transactions

/-- The writes the hooks are made of respect the relation; a task is inserted where it is
allowed, and the tasks of a round are. -/
structure EngineSteps (Allowed : World → TaskArgs → Prop) (R : World → World → Prop) : Prop where
  logged : ∀ w w', Logged w w' → R w w'
  settle : ∀ w id f, (∀ r : WorkflowRun, (f r).id = r.id ∧ (f r).cycleId = r.cycleId) →
    R w (w.setWorkflowRun id f)
  round : ∀ w w' (run : WorkflowRun) (args : TaskArgs), w.workflowRun? run.id = some run →
    R w w' → args.workflowRunId = some run.id → args.cycleId = run.cycleId → Allowed w' args
  insert : ∀ w args id n s, w.nextId ≤ n → s = .pending ∨ s = .ready →
    (∀ t ∈ w.tasks, t.id ≠ id) → 1 ≤ args.maxAttempts → Allowed w args →
    R w (w.insertTask n ((TaskManager.newTask args id w.now).moved s))
  unlock : ∀ w id t, w.task? id = some t → t.state = .pending →
    R w (w.setTask id (Task.moved .ready))
  rewire : ∀ w id (f : List Id → List Id), R w (w.setTask id fun t => { t with dependsOn := f t.dependsOn })
  cancel : ∀ w id t g, w.task? id = some t → t.state.final = false → EndsRun g →
    R w ((w.endRun (w.openRunOf? id) g).setTask id (Task.leaves .cancelled))

/-- The writes the hooks are made of respect the relation. -/
structure HookSteps (R : World → World → Prop) : Prop where
  logged : ∀ w w', Logged w w' → R w w'
  nextId : ∀ w, R w { w with nextId := w.nextId + 1 }
  workflowRuns : ∀ w runs, R w { w with workflowRuns := runs }
  insert : ∀ w args id n s, w.nextId ≤ n → s = .pending ∨ s = .ready →
    (∀ t ∈ w.tasks, t.id ≠ id) → 1 ≤ args.maxAttempts →
    R w (w.insertTask n ((TaskManager.newTask args id w.now).moved s))
  unlock : ∀ w id t, w.task? id = some t → t.state = .pending →
    R w (w.setTask id (Task.moved .ready))
  rewire : ∀ w id (f : List Id → List Id), R w (w.setTask id fun t => { t with dependsOn := f t.dependsOn })
  cancel : ∀ w id t g, w.task? id = some t → t.state.final = false → EndsRun g →
    R w ((w.endRun (w.openRunOf? id) g).setTask id (Task.leaves .cancelled))

/-- The hooks of a task manager respect the relation. -/
structure HooksKeep (R : World → World → Prop) (tm : TaskManager) : Prop where
  finished : ∀ id, Keeps R (tm.finished id)
  failed : ∀ id, Keeps R (tm.failed id)

namespace EngineSteps

variable {Allowed : World → TaskArgs → Prop} {R : World → World → Prop} [IsPreorder World R]
  (hR : EngineSteps Allowed R) {tm : TaskManager} {e : WorkflowEngine}

theorem keeps_format (text : Except String String) : Keeps R (format text) := by
  unfold format
  split
  · exact Keeps.pure _
  · exact Keeps.throw _

theorem keeps_render (t : TemplateSpec) (node : NodeSpec) (params : Dict) :
    Keeps R (render t node params) := by
  unfold render
  split
  · exact Keeps.pure _
  · exact Keeps.throw _

include hR

omit [IsPreorder World R] in
theorem keeps_logged {α : Type} {m : Tx α} (h : Keeps Logged m) : Keeps R m :=
  h.mono hR.logged

theorem keeps_cancel (htm : HooksKeep R tm) (id : Id) (reason : String) :
    Keeps R (tm.cancel id reason) := by
  intro w u w' h
  obtain ⟨t, ht, ⟨_, rfl⟩ | ⟨hf, g, w₁, hg, hl, hhook⟩⟩ := cancel_spec h
  · exact Std.Refl.refl _
  · have h₁ := hR.cancel w id t g ht hf hg
    have h₂ := hR.logged _ _ hl
    exact IsTrans.trans _ _ _ (IsTrans.trans _ _ _ h₁ h₂) (htm.failed id _ _ _ hhook)

theorem addTask_allowed {args : TaskArgs} {id : Id} {w w' : World} (ha : Allowed w args)
    (h : Returns (TaskManager.addTask args) w id w') : R w w' := by
  obtain ⟨n, s, hn, hs, hfresh, hmax, hl⟩ := addTask_spec h
  exact IsTrans.trans _ _ _ (hR.insert w args id n s hn hs hfresh hmax ha) (hR.logged _ _ hl)

theorem keeps_cancelWaiting (htm : HooksKeep R tm) (waiting : List Task) (reason : String) :
    Keeps R (WorkflowEngine.cancelWaiting tm waiting reason) :=
  Keeps.forEach waiting fun _ _ => (Keeps.get.bind fun _ => Keeps.orRaise).bind fun _ =>
    (Keeps.pure _).ite (hR.keeps_cancel htm _ _)

theorem keeps_transitionWorkflowRun (run : WorkflowRun) (target : WorkflowRunState)
    (now : Time) : Keeps R (transitionWorkflowRun run target now) :=
  Keeps.require.bind fun _ => Keeps.modify fun w => hR.settle w _ _ fun _ => ⟨rfl, rfl⟩

omit [IsPreorder World R] in
theorem keeps_emitWorkflowRun (run : WorkflowRun) (payload : Payload) :
    Keeps R (emitWorkflowRun run payload) :=
  hR.keeps_logged (emitWorkflowRun_logged _ _)

theorem keeps_closeIfDone (runId : Id) : Keeps R (e.closeIfDone runId) := by
  refine Keeps.get.bind fun w => ?_
  have hclose : ∀ run s now p, Keeps R (do
      transitionWorkflowRun run s now
      emitWorkflowRun run p) := fun run s now p =>
    (hR.keeps_transitionWorkflowRun run s now).bind fun _ => hR.keeps_emitWorkflowRun run p
  split
  · exact Keeps.pure _
  · refine (Keeps.pure _).ite ((hR.keeps_logged clock_logged).bind fun now => ?_)
    refine (hclose _ _ _ _).ite ?_
    split
    · exact hclose _ _ _ _
    · exact hclose _ _ _ _

theorem keeps_halt (htm : HooksKeep R tm) (task : Task) (runId : Id) (siblings : List Task) :
    Keeps R (e.halt tm task runId siblings) := by
  refine Keeps.get.bind fun w => ?_
  dsimp only
  split
  · exact Keeps.pure _
  · exact (keeps_format _).bind fun _ => (hR.keeps_cancelWaiting htm _ _).bind fun _ =>
      (hR.keeps_closeIfDone runId).bind fun _ => Keeps.pure _

theorem addRound_allowed {run : WorkflowRun} {t : TemplateSpec} {loop : Loop} {task : Task}
    {siblings : List Task} {new : List (String × Id)} {w w' : World}
    (hrun : w.workflowRun? run.id = some run)
    (h : Returns (WorkflowEngine.addRound run t loop task siblings) w new w') : R w w' := by
  refine foldEach_prefix (I := fun _ _ w' => R w w') ?_ (Std.Refl.refl w) h
  intro _ node _ _ new w₁ new' w₂ hr hadd
  simp only [returns_bind, returns_pure] at hadd
  obtain ⟨_, w₃, h₁, _, w₄, h₂, id, w₅, h₃, rfl, rfl⟩ := hadd
  have hr₃ := IsTrans.trans _ _ _ hr (keeps_render _ _ _ _ _ _ h₁)
  have hr₄ := IsTrans.trans _ _ _ hr₃ (keeps_format _ _ _ _ h₂)
  refine IsTrans.trans _ _ _ hr₄ (hR.addTask_allowed ?_ h₃)
  exact hR.round w w₄ run _ hrun hr₄ rfl rfl

theorem startRound_allowed {run : WorkflowRun} {t : TemplateSpec} {loop : Loop} {task : Task}
    {siblings : List Task} {unlocked : List UnlockedTask} {w w' : World}
    (hrun : w.workflowRun? run.id = some run)
    (h : Returns (WorkflowEngine.startRound run t loop task siblings) w unlocked w') : R w w' := by
  obtain ⟨new, w₁, hadd, hrest⟩ := returns_bind.mp h
  have hkeeps : Keeps R (do
      let again ← orRaise (.keyError loop.check) (new.lookup loop.check)
      forEach (fun t => updateTask t.id fun t => { t with
        dependsOn := WorkflowEngine.rewire task.id again t.dependsOn }) (waitingFor siblings task)
      emitWorkflowRun run (.workflowRunExtended s!"{task.name} asked for another round"
        (roundsOf siblings loop.check + 2).toNat (new.map (·.2)))
      let w ← get
      pure ((new.filterMap fun n => w.task? n.2).filterMap fun t =>
        if t.state = .ready then some (⟨t.id, t.requiredRole⟩ : UnlockedTask) else none)) := by
    refine Keeps.orRaise.bind fun again => ?_
    refine Keeps.bind (Keeps.forEach _ fun t _ => Keeps.modify fun w => hR.rewire w t.id _)
      fun _ => ?_
    exact (hR.keeps_emitWorkflowRun _ _).bind fun _ => Keeps.get.bind fun _ => Keeps.pure _
  exact IsTrans.trans _ _ _ (hR.addRound_allowed hrun hadd) (hkeeps _ _ _ hrest)

theorem keeps_loop (htm : HooksKeep R tm) (task : Task) (runId : Id) (siblings : List Task) :
    Keeps R (e.loop tm task runId siblings) := by
  intro w looped w' h
  simp only [WorkflowEngine.loop, returns_bind (m := get), returns_get] at h
  obtain ⟨_, _, ⟨rfl, rfl⟩, h⟩ := h
  split at h
  · rw [(returns_pure.mp h).2]
    exact Std.Refl.refl _
  · next run template loop hfound =>
    rcases returns_ite.mp h with ⟨_, h⟩ | ⟨_, h⟩
    · exact ((hR.keeps_cancelWaiting htm _ _).bind fun _ =>
        (hR.keeps_closeIfDone runId).bind fun _ => Keeps.pure _) _ _ _ h
    · obtain ⟨_, w₁, h₁, h₂⟩ := returns_bind.mp h
      rw [(returns_pure.mp h₂).2]
      refine hR.startRound_allowed ?_ h₁
      simp only [Option.bind_eq_bind, Option.bind_eq_some_iff, Option.pure_def,
        Option.some.injEq, Prod.mk.injEq] at hfound
      obtain ⟨r, hr, _, _, _, _, rfl, _, _⟩ := hfound
      rw [(World.mem_of_workflowRun? _ _ hr).2]
      exact hr

theorem keeps_unlock (task : Task) (siblings : List Task) :
    Keeps R (WorkflowEngine.unlock task siblings) := by
  refine Keeps.foldEach _ _ fun unlocked t _ w b w' h => ?_
  simp only [returns_bind (m := theTask _), returns_theTask] at h
  obtain ⟨row, w, ⟨hrow, rfl⟩, h⟩ := h
  obtain ⟨_, hid⟩ := w.mem_of_task? _ hrow
  rcases returns_ite.mp h with ⟨⟨_, hpending, _⟩, h⟩ | ⟨_, h⟩
  · simp only [returns_bind, returns_pure] at h
    obtain ⟨_, w₁, h₁, _, rfl⟩ := h
    obtain ⟨_, _, _, hl⟩ := markReady_spec h₁
    rw [← hid] at hrow
    exact IsTrans.trans _ _ _ (hR.unlock w _ row hrow hpending) (hR.logged _ _ hl)
  · rw [(returns_pure.mp h).2]
    exact Std.Refl.refl _

theorem keeps_onTaskFinished (htm : HooksKeep R tm) (id : Id) :
    Keeps R (e.onTaskFinished tm id) := by
  refine (Keeps.get.bind fun _ => Keeps.orRaise).bind fun task => ?_
  split
  · exact Keeps.pure _
  · refine (Keeps.get.bind fun _ => Keeps.pure _).bind fun siblings =>
      (hR.keeps_halt htm _ _ _).bind fun _ => (Keeps.pure _).ite
        ((hR.keeps_loop htm _ _ _).bind fun looped => ?_)
    split
    · exact Keeps.pure _
    · exact (hR.keeps_unlock _ _).bind fun _ => (hR.keeps_closeIfDone _).bind fun _ => Keeps.pure _

theorem keeps_onTaskFailed (htm : HooksKeep R tm) (id : Id) :
    Keeps R (e.onTaskFailed tm id) := by
  refine (Keeps.get.bind fun _ => Keeps.orRaise).bind fun task => ?_
  split
  · exact Keeps.pure _
  · refine (Keeps.get.bind fun _ => Keeps.pure _).bind fun siblings =>
      Keeps.bind (Keeps.forEach _ fun t _ => ?_) fun _ => hR.keeps_closeIfDone _
    exact (Keeps.get.bind fun _ => Keeps.orRaise).bind fun _ =>
      (hR.keeps_cancel htm _ _).ite (Keeps.pure _)

/-- One level of nesting after the other. -/
theorem manager (n : Nat) : HooksKeep R (e.manager n) := by
  induction n with
  | zero => exact ⟨fun _ => Keeps.throw _, fun _ => Keeps.throw _⟩
  | succ n ih => exact ⟨hR.keeps_onTaskFinished ih, hR.keeps_onTaskFailed ih⟩

theorem bound : HooksKeep R e.bound :=
  ⟨fun id => Keeps.get.bind fun w => hR.keeps_onTaskFinished (hR.manager w.tasks.length) id,
    fun id => Keeps.get.bind fun w => hR.keeps_onTaskFailed (hR.manager w.tasks.length) id⟩

/-! The engine's own operations. -/

theorem keeps_cancelRun (run : Id) (reason : String) : Keeps R (e.cancel run reason) :=
  (Keeps.get.bind fun _ => Keeps.pure _).bind fun _ =>
    (hR.keeps_cancelWaiting hR.bound _ _).bind fun _ => hR.keeps_closeIfDone _

end EngineSteps

/-- The two ways a company wires its task manager: bound to the engine, or to nothing. -/
def Wired (e : WorkflowEngine) (tm : TaskManager) : Prop :=
  tm = e.bound ∨ tm.onTaskFinished = none ∧ tm.onTaskFailed = none

theorem EngineSteps.wired {Allowed : World → TaskArgs → Prop} {R : World → World → Prop}
    [IsPreorder World R] (hR : EngineSteps Allowed R)
    {e : WorkflowEngine} {tm : TaskManager} (h : Wired e tm) : HooksKeep R tm := by
  rcases h with rfl | ⟨h₁, h₂⟩
  · exact hR.bound
  · refine ⟨fun id => ?_, fun id => ?_⟩
    · unfold TaskManager.finished
      rw [h₁]
      exact Keeps.pure _
    · unfold TaskManager.failed
      rw [h₂]
      exact Keeps.pure _

/-! A relation that any task may be inserted under. -/

namespace HookSteps

variable {R : World → World → Prop} (hR : HookSteps R) {e : WorkflowEngine} {tm : TaskManager}

include hR

theorem engine : EngineSteps (fun _ _ => True) R where
  logged := hR.logged
  settle w _ _ _ := hR.workflowRuns w _
  round _ _ _ _ _ _ _ _ := trivial
  insert w args id n s hn hs hfresh hmax _ := hR.insert w args id n s hn hs hfresh hmax
  unlock := hR.unlock
  rewire := hR.rewire
  cancel := hR.cancel

variable [IsPreorder World R]

theorem wired (h : Wired e tm) : HooksKeep R tm := hR.engine.wired h

theorem keeps_cancel (htm : HooksKeep R tm) (id : Id) (reason : String) :
    Keeps R (tm.cancel id reason) := hR.engine.keeps_cancel htm id reason

theorem keeps_cancelRun (run : Id) (reason : String) : Keeps R (e.cancel run reason) :=
  hR.engine.keeps_cancelRun run reason

theorem keeps_addTask (args : TaskArgs) : Keeps R (TaskManager.addTask args) :=
  fun _ _ _ h => hR.engine.addTask_allowed trivial h

theorem keeps_uuid7 : Keeps R uuid7 :=
  Keeps.get.bind fun _ => Keeps.bind (Keeps.modify fun w => hR.nextId w) fun _ => Keeps.pure _

theorem keeps_instantiate (template : String) (company project : Id) (params : Dict)
    (cycle : Option Id) : Keeps R (e.instantiate template company project params cycle) := by
  refine Keeps.orRaise.bind fun t => ?_
  refine Keeps.bind (Keeps.foldEach _ _ fun _ _ _ => hR.keeps_uuid7.bind fun _ =>
    Keeps.pure _) fun ids => ?_
  refine Keeps.bind (Keeps.foldEach _ _ fun _ _ _ => (EngineSteps.keeps_render _ _ _).bind fun _ =>
    Keeps.pure _) fun display => ?_
  refine hR.keeps_uuid7.bind fun run => (clock_logged.mono hR.logged).bind fun now => ?_
  refine Keeps.bind (Keeps.modify fun w => hR.workflowRuns w _) fun _ =>
    (hR.engine.keeps_emitWorkflowRun _ _).bind fun _ => ?_
  refine Keeps.bind (Keeps.forEach _ fun node _ => ?_) fun _ => Keeps.pure _
  exact Keeps.orRaise.bind fun _ => Keeps.orRaise.bind fun _ =>
    (hR.keeps_addTask _).bind fun _ => Keeps.pure _

end HookSteps

end Autora
