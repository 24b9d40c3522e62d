import Autora.Maintenance

/-! Every operation of the runtime is a sequence of steps of the board. Only an
operation that finishes a task can start a round or stop what waited, and which
of these it does can be read off the state before. -/

namespace Autora

open Transactions Systems

variable {e : WorkflowEngine} {w w' : World}

/-! The verdict does not depend on the task being written. -/

theorem verdict_congr {t t' : Task} (hruns : w'.workflowRuns = w.workflowRuns)
    (hrounds : ∀ run name, roundsOf (w'.tasksOf run) name = roundsOf (w.tasksOf run) name)
    (hrun : t'.workflowRunId = t.workflowRunId) (hname : t'.name = t.name)
    (hout : t'.output = t.output) : e.verdict w' t' = e.verdict w t := by
  have hwr : ∀ id, w'.workflowRun? id = w.workflowRun? id := fun id => by
    simp only [World.workflowRun?, hruns]
  have hhalt : ∀ id, e.haltAt w' t' id = e.haltAt w t id := fun id => by
    simp only [WorkflowEngine.haltAt, hwr, TemplateSpec.haltOf, hname, hout]
  have hloop : ∀ id, e.loopAt w' t' id = e.loopAt w t id := fun id => by
    simp only [WorkflowEngine.loopAt, hwr, TemplateSpec.loopOf, hname, hout]
  simp only [WorkflowEngine.verdict, hrun, hhalt, hloop, hrounds]

theorem Moves.rounds {id : Id} {s : TaskState} (h : Moves id s w w') (run : Id)
    (name : String) : roundsOf (w'.tasksOf run) name = roundsOf (w.tasksOf run) name := by
  rw [roundsOf_eq, roundsOf_eq, h.board]
  rw [countP_setState]

theorem bound_finished {id : Id} {unlocked : List UnlockedTask}
    (h : Returns (e.bound.finished id) w unlocked w') :
    Returns (e.onTaskFinished (e.manager w.tasks.length) id) w unlocked w' := by
  simp only [TaskManager.finished, WorkflowEngine.bound, returns_bind (m := get),
    returns_get] at h
  obtain ⟨_, w, ⟨rfl, rfl⟩, h⟩ := h
  exact h

theorem onTaskFinished_standalone {tm : TaskManager} {id : Id} {t : Task}
    {unlocked : List UnlockedTask} (ht : w.task? id = some t) (hr : t.workflowRunId = none)
    (h : Returns (e.onTaskFinished tm id) w unlocked w') : w' = w := by
  simp only [WorkflowEngine.onTaskFinished, returns_bind (m := theTask _), returns_theTask] at h
  obtain ⟨t', w, ⟨ht', rfl⟩, h⟩ := h
  rw [ht, Option.some.injEq] at ht'
  subst ht'
  rw [hr] at h
  exact (returns_pure.mp h).2

/-- A task finishes: on the board it is one step, by the verdict on its output. -/
structure Finishes (e : WorkflowEngine) (id : Id) (output : Option Dict) (t : Task)
    (w w' : World) : Prop where
  keyed : Keyed w'
  standalone : t.workflowRunId = none → w'.board = w.board
  step : ∀ run, t.workflowRunId = some run → BoardStep e.templates.get w.board
    ((e.verdict w { t with output := output }).event id) w'.board

theorem finishes {id : Id} {output : Option Dict} {t t₁ : Task} {w₁ w₂ : World} (hk : Keyed w)
    (ht : w.task? id = some t) (ha : t.state.active = true) (hm : Moves id .succeeded w w₁)
    (hruns : w₁.workflowRuns = w.workflowRuns) (ht₁ : w₁.task? id = some t₁)
    (hname : t₁.name = t.name) (hrun : t₁.workflowRunId = t.workflowRunId)
    (hout : t₁.output = output) {unlocked : List UnlockedTask}
    (h : Returns (e.bound.finished id) w₁ unlocked w₂) (hq : Quiet w₂ w') :
    Finishes e id output t w w' := by
  have hh := bound_finished h
  have hv : e.verdict w₁ t₁ = e.verdict w { t with output := output } :=
    verdict_congr hruns hm.rounds hrun hname hout
  cases hr : t.workflowRunId with
  | none =>
    have he := onTaskFinished_standalone ht₁ (hrun.trans hr) hh
    subst he
    refine ⟨hq.kept.keyed (hm.kept.keyed hk), fun _ => ?_, fun run hrun' => ?_⟩
    · rw [hq.board, hm.board, setState_standalone hk ht hr]
    · rw [hr] at hrun'
      cases hrun'
  | some run =>
    obtain ⟨hk', hstep⟩ := finish_refines (manager_refines e _).2 hk ht hr ha hm ht₁ hh
    refine ⟨hq.kept.keyed hk', fun hnone => ?_, fun _ _ => ?_⟩
    · rw [hr] at hnone
      cases hnone
    · rw [hq.board, ← hv]
      exact hstep

theorem theTask_quiet (id : Id) : Keeps Quiet (theTask id) :=
  Keeps.get.bind fun _ => Keeps.orRaise

theorem theRun_quiet (id : Id) : Keeps Quiet (theRun id) :=
  Keeps.get.bind fun _ => Keeps.orRaise

theorem succeed_finishes {claim : Claim} {output : Option Dict} {summary : Option String}
    {unlocked : List UnlockedTask} (hk : Keyed w)
    (h : Returns (e.bound.succeed claim output summary) w unlocked w') :
    ∃ t, w.task? claim.task.id = some t ∧ t.state.active = true ∧
      Finishes e claim.task.id output t w w' := by
  simp only [TaskManager.succeed, returns_bind (m := lockedTask _), returns_bind (m := runOf _),
    returns_bind (m := clock), returns_lockedTask, returns_runOf, returns_clock,
    returns_bind (m := updateTask _ _), returns_updateTask, releaseLease,
    returns_bind (m := transitionTask _ _), returns_transitionTask,
    returns_bind (m := e.bound.finished _)] at h
  obtain ⟨t, w, ⟨⟨ht, hstate, _⟩, rfl⟩, run, w, ⟨_, rfl⟩, now, w, ⟨_, rfl⟩, _, _, rfl, _, _, rfl,
    _, _, ⟨_, _, _, rfl⟩, unlocked', w₂, h₂, h₃⟩ := h
  have hact : t.state.active = true := by
    rw [hstate]
    rfl
  refine ⟨t, ht, hact, ?_⟩
  obtain ⟨_, hid⟩ := w.mem_of_task? claim.task.id ht
  rw [← hid] at ht ⊢
  have hq := (setTask_quiet w t.id (f := fun t => { t with output := output }) (fun _ => rfl)
    (fun _ => rfl) fun _ => rfl).trans (setTask_quiet _ t.id (f := fun t => { t with
      leaseOwner := none
      leaseUntil := none
      leaseToken := none }) (fun _ => rfl) (fun _ => rfl) fun _ => rfl)
  have hm := (setTask_moves _ t.id .succeeded).after hq
  -- the row the hook reads
  have hrow := World.setTask_self (f := Task.moved .succeeded) (fun _ => rfl)
    (World.setTask_self (f := fun t => { t with
      leaseOwner := none
      leaseUntil := none
      leaseToken := none }) (fun _ => rfl)
      (World.setTask_self (f := fun t => { t with output := output }) (fun _ => rfl) ht))
  have hrest : Quiet w₂ w' := by
    refine Keeps.bind (emitTask_quiet _ _ _) (fun _ => ?_) _ _ _ h₃
    refine (updateRun_quiet _ _).bind fun _ => (finishRun_quiet rfl now).bind fun _ => ?_
    refine (theTask_quiet _).bind fun _ => (theRun_quiet _).bind fun _ => ?_
    refine (Keeps.get.bind fun _ => Keeps.pure _).bind fun _ => ?_
    exact (setActivityUnlessPaused_quiet _ _ _).bind fun _ => Keeps.pure _
  exact finishes hk ht hact hm rfl hrow rfl rfl rfl h₂ hrest

theorem completeWithoutRun_finishes {id : Id} {output : Option Dict} {summary : Option String}
    {unlocked : List UnlockedTask} (hk : Keyed w)
    (hcalled : ∀ t, w.task? id = some t → t.state = .ready ∨ t.state = .waitingApproval)
    (h : Returns (e.bound.completeWithoutRun id output summary) w unlocked w') :
    ∃ t, w.task? id = some t ∧ t.state.active = true ∧ Finishes e id output t w w' := by
  simp only [TaskManager.completeWithoutRun, returns_bind (m := updateTask _ _),
    returns_updateTask, returns_bind (m := transitionTask _ _), returns_transitionTask,
    returns_bind (m := e.bound.finished _)] at h
  obtain ⟨_, _, rfl, _, _, ⟨t₁, ht₁, _, rfl⟩, unlocked', w₂, h₂, h₃⟩ := h
  rw [World.setTask_task? (by intro _; rfl)] at ht₁
  obtain ⟨t, ht, _⟩ := Option.map_eq_some_iff.mp ht₁
  have hact : t.state.active = true := by
    rcases hcalled t ht with hs | hs <;> rw [hs] <;> rfl
  refine ⟨t, ht, hact, ?_⟩
  have hq := setTask_quiet w id (f := fun t => { t with output := output }) (fun _ => rfl)
    (fun _ => rfl) fun _ => rfl
  have hm := (setTask_moves _ id .succeeded).after hq
  have hrow := World.setTask_self (f := Task.moved .succeeded) (fun _ => rfl)
    (World.setTask_self (f := fun t => { t with output := output }) (fun _ => rfl) ht)
  have hrest : Quiet w₂ w' := by
    refine Keeps.bind (theTask_quiet _) (fun _ => ?_) _ _ _ h₃
    exact (emitTask_quiet _ _ _).bind fun _ => Keeps.pure _
  exact finishes hk ht hact hm rfl hrow rfl rfl rfl h₂ hrest

/-! Operations in general. -/

namespace Op

/-- The task an operation finishes, and its output. -/
def finishes? : Op → Option (Id × Option Dict)
  | succeed claim output _ => some (claim.task.id, output)
  | completeWithoutRun task output _ => some (task, output)
  | _ => none

/-- What the end of a task of a run makes the engine do. -/
def event? (e : WorkflowEngine) (w : World) (op : Op) : Option Event :=
  op.finishes?.bind fun (id, output) => (w.task? id).bind fun t => t.workflowRunId.map fun _ =>
    (e.verdict w { t with output := output }).event id

/-- Only the engine adds tasks to a run, and unlocks them. -/
def Outside (w : World) : Op → Prop
  | addTask args => args.workflowRunId = none
  | markReady task => ∀ t, w.task? task = some t →
      t.workflowRunId = none ∨ t.state = .blockedBudget
  | _ => True

end Op

theorem Op.event?_eq {op : Op} {id run : Id} {output : Option Dict} {t : Task}
    (hop : op.finishes? = some (id, output)) (ht : w.task? id = some t)
    (hr : t.workflowRunId = some run) :
    op.event? e w = some ((e.verdict w { t with output := output }).event id) := by
  simp only [Op.event?, hop, ht, Option.bind_some]
  exact (congrArg (Option.map fun _ => _) hr).trans rfl

theorem Op.event?_calm {op : Op} (hop : op.finishes? = none) : op.event? e w = none := by
  simp only [Op.event?, hop, Option.bind_none]

/-- On the board an operation is a calm path, or the one step that its event says. -/
structure Refines (e : WorkflowEngine) (op : Op) (w w' : World) : Prop where
  keyed : Keyed w'
  calm : op.event? e w = none → CalmPath e.templates.get w.board w'.board
  step : ∀ ev, op.event? e w = some ev → BoardStep e.templates.get w.board ev w'.board

theorem Calm.refines {op : Op} (hop : op.finishes? = none) (hk : Keyed w)
    (h : Calm e.templates.get w w') : Refines e op w w' := by
  refine ⟨h.kept.keyed hk, fun _ => h.path, fun ev hev => ?_⟩
  rw [Op.event?_calm hop] at hev
  cases hev

theorem Finishes.refines {op : Op} {id : Id} {output : Option Dict} {t : Task}
    (hop : op.finishes? = some (id, output)) (ht : w.task? id = some t)
    (h : Finishes e id output t w w') : Refines e op w w' := by
  cases hr : t.workflowRunId with
  | none =>
    refine ⟨h.keyed, fun _ => ?_, fun ev hev => ?_⟩
    · rw [h.standalone hr]
      exact .refl
    · simp only [Op.event?, hop, ht, hr, Option.bind_some, Option.map_none] at hev
      cases hev
  | some run =>
    have hev := Op.event?_eq (e := e) hop ht hr
    refine ⟨h.keyed, fun hno => ?_, fun ev hev' => ?_⟩
    · rw [hev] at hno
      cases hno
    · rw [hev, Option.some.injEq] at hev'
      subst hev'
      exact h.step run hr

theorem exec_refines {s : Runtime} {op : Op} {claim : Option Claim} (hk : Keyed s.db)
    (hs : Shape e.templates.get s.db.board) (hc : op.Called s) (ho : op.Outside s.db)
    (h : Returns (op.exec e e.bound) s.db claim w') : Refines e op s.db w' := by
  have htm := bound_spreads e
  cases op with
  | tick d =>
    simp only [Op.exec, returns_bind, returns_modify, returns_pure] at h
    obtain ⟨_, _, rfl, _, rfl⟩ := h
    have hq : Quiet s.db { s.db with now := s.db.now + d } := ⟨⟨rfl, rfl, Nat.le_refl _⟩, rfl⟩
    exact hq.calm.refines rfl hk
  | addTask args =>
    simp only [Op.exec, returns_bind, returns_pure] at h
    obtain ⟨id, w₁, h, _, rfl⟩ := h
    have hadd := addTask_refines hk h
    refine ⟨hadd.keyed, fun _ => ?_, fun ev hev => ?_⟩
    · have hboard := hadd.board
      rw [show args.workflowRunId = none from ho] at hboard
      simp only [Option.map_none, Option.toList_none, List.append_nil] at hboard
      rw [hboard]
      exact .refl
    · cases hev
  | markReady task =>
    simp only [Op.exec, returns_bind, returns_pure] at h
    obtain ⟨_, w₁, h, _, rfl⟩ := h
    obtain ⟨t, ht, _⟩ := transition_row h
    refine ((markReady_moves h).calm hk ht ((ho t ht).imp_right fun hb => ?_)).refines rfl hk
    rw [hb]
    exact ⟨rfl, rfl⟩
  | claimNext agent workerId locked =>
    simp only [Op.exec, returns_bind, returns_theAgent] at h
    obtain ⟨_, w, ⟨_, rfl⟩, h⟩ := h
    exact (claimNext_calm hk h).refines rfl hk
  | heartbeat claim =>
    simp only [Op.exec, returns_bind, returns_pure] at h
    obtain ⟨_, w₁, h, _, rfl⟩ := h
    exact (heartbeat_quiet claim _ _ _ h).calm.refines rfl hk
  | startRun claim =>
    simp only [Op.exec, returns_bind, returns_pure] at h
    obtain ⟨_, w₁, h, _, rfl⟩ := h
    exact (startRun_quiet claim _ _ _ h).calm.refines rfl hk
  | evaluate claim repair =>
    simp only [Op.exec, returns_bind, returns_pure] at h
    obtain ⟨_, w₁, h, _, rfl⟩ := h
    exact (evaluate_quiet claim repair _ _ _ h).calm.refines rfl hk
  | succeed claim output summary =>
    simp only [Op.exec, returns_bind, returns_pure] at h
    obtain ⟨_, w₁, h, _, rfl⟩ := h
    obtain ⟨t, ht, _, hf⟩ := succeed_finishes hk h
    exact hf.refines rfl ht
  | fail claim errorClass message retryable =>
    simp only [Op.exec, returns_bind, returns_pure] at h
    obtain ⟨_, w₁, h, _, rfl⟩ := h
    exact (fail_calm htm hk h).refines rfl hk
  | abort claim reason message =>
    simp only [Op.exec, returns_bind, returns_pure] at h
    obtain ⟨_, w₁, h, _, rfl⟩ := h
    exact (abort_calm htm hk h).refines rfl hk
  | cancel task reason =>
    simp only [Op.exec, returns_bind, returns_pure] at h
    obtain ⟨_, w₁, h, _, rfl⟩ := h
    exact (cancel_calm (bound_cancels e) hk h).refines rfl hk
  | suspendForApproval claim approval =>
    simp only [Op.exec, returns_bind, returns_pure] at h
    obtain ⟨_, w₁, h, _, rfl⟩ := h
    exact (suspendForApproval_calm hk h).refines rfl hk
  | awaitApproval task approval =>
    simp only [Op.exec, returns_bind, returns_pure] at h
    obtain ⟨_, w₁, h, _, rfl⟩ := h
    exact (awaitApproval_calm hk hc h).refines rfl hk
  | releaseAfterApproval task =>
    simp only [Op.exec, returns_bind, returns_pure] at h
    obtain ⟨_, w₁, h, _, rfl⟩ := h
    exact (releaseAfterApproval_calm hk hc h).refines rfl hk
  | completeWithoutRun task output summary =>
    simp only [Op.exec, returns_bind, returns_pure] at h
    obtain ⟨_, w₁, h, _, rfl⟩ := h
    obtain ⟨t, ht, _, hf⟩ := completeWithoutRun_finishes hk hc h
    exact hf.refines rfl ht
  | failWithoutRun task errorClass message =>
    simp only [Op.exec, returns_bind, returns_pure] at h
    obtain ⟨_, w₁, h, _, rfl⟩ := h
    exact (failWithoutRun_calm htm hk hc h).refines rfl hk
  | releaseBlocked company locked =>
    simp only [Op.exec, returns_bind, returns_pure] at h
    obtain ⟨_, w₁, h, _, rfl⟩ := h
    exact (releaseBlocked_calm htm hk h).refines rfl hk
  | reapExpiredLeases limit locked =>
    simp only [Op.exec, returns_bind, returns_pure] at h
    obtain ⟨_, w₁, h, _, rfl⟩ := h
    exact (reapExpiredLeases_calm htm hk h).refines rfl hk
  | instantiate template company project params cycle =>
    simp only [Op.exec, returns_bind, returns_pure] at h
    obtain ⟨_, w₁, h, _, rfl⟩ := h
    obtain ⟨hk', hstep⟩ := instantiate_refines hk h
    exact ⟨hk', fun _ => calm_step hstep rfl, fun ev hev => by cases hev⟩
  | cancelRun run reason =>
    simp only [Op.exec, returns_bind, returns_pure] at h
    obtain ⟨_, w₁, h, _, rfl⟩ := h
    exact (cancelRun_calm hk hs h).refines rfl hk

/-! Runs. -/

variable {s s' : Runtime}

theorem after_refines {op : Op} (hk : Keyed s.db) (hs : Shape e.templates.get s.db.board)
    (hc : op.Called s) (ho : op.Outside s.db) : Keyed (s.after e e.bound op).db ∧
      (CalmPath e.templates.get s.db.board (s.after e e.bound op).db.board ∨
        ∃ ev, op.event? e s.db = some ev ∧
          BoardStep e.templates.get s.db.board ev (s.after e e.bound op).db.board) := by
  rcases after_cases e e.bound s op with ⟨claim, w, h, he⟩ | ⟨_, he⟩
  · rw [he]
    have hr := exec_refines hk hs hc ho h
    refine ⟨hr.keyed, ?_⟩
    cases hev : op.event? e s.db with
    | none => exact .inl (hr.calm hev)
    | some ev => exact .inr ⟨ev, rfl, hr.step ev hev⟩
  · rw [he]
    exact ⟨hk, .inl .refl⟩

/-- An operation that commits takes the step its event says. -/
theorem committed_step {op : Op} {ev : Event} (hk : Keyed s.db)
    (hs : Shape e.templates.get s.db.board) (hc : op.Called s) (ho : op.Outside s.db)
    (hok : ∃ r, op.exec e e.bound s.db = .ok r) (hev : op.event? e s.db = some ev) :
    BoardStep e.templates.get s.db.board ev (s.after e e.bound op).db.board := by
  rcases after_cases e e.bound s op with ⟨claim, w, h, he⟩ | ⟨⟨err, herr⟩, _⟩
  · rw [he]
    exact (exec_refines hk hs hc ho h).step ev hev
  · obtain ⟨r, hr⟩ := hok
    rw [herr] at hr
    cases hr

/-- The steps of a run meet the condition on what the engine does with a task that
finishes. -/
def Meets (e : WorkflowEngine) (P : Board → Event → Prop) (s : Runtime) (op : Op) : Prop :=
  op.Outside s.db ∧ ∀ ev, op.event? e s.db = some ev → P s.db.board ev

/-- The runtime refines the board. -/
theorem runtime_refines {P : Board → Event → Prop}
    (hcalm : ∀ b (ev : Event), ev.calm = true → P b ev)
    (h : (runtime e e.bound).Reach (Meets e P) s) :
    Keyed s.db ∧ (boards e.templates.get).Reach P s.db.board := by
  refine System.Reach.invariant
    (I := fun s => Keyed s.db ∧ (boards e.templates.get).Reach P s.db.board) ?_ ?_ h
  · rintro s ⟨ht, _, hr, _⟩
    refine ⟨⟨by simp [ht], by simp [hr], by simp [hr]⟩, .init ⟨?_, ?_⟩⟩
    · simp [World.board, ht]
    · simp [World.board, hr]
  · rintro s op s' ⟨hk, hreach⟩ ⟨ho, hP⟩ ⟨hc, rfl⟩
    obtain ⟨hk', hpath | ⟨ev, hev, hstep⟩⟩ := after_refines hk (boards_shape hreach) hc ho
    · exact ⟨hk', hreach.path (System.Path.mono hcalm hpath)⟩
    · exact ⟨hk', hreach.step (hP ev hev) hstep⟩

/-- What the steps of the board preserve, a run of the runtime preserves. -/
theorem path_refines {P : Board → Event → Prop}
    (hcalm : ∀ b (ev : Event), ev.calm = true → P b ev) {I : Board → Prop}
    (hI : ∀ b ev b', Shape e.templates.get b → I b → P b ev →
      BoardStep e.templates.get b ev b' → I b')
    (h : (runtime e e.bound).Reach (Meets e P) s)
    (hp : (runtime e e.bound).Path (Meets e P) s s') (hs : I s.db.board) : I s'.db.board := by
  have hstep : ∀ b ev b', (Shape e.templates.get b ∧ I b) → P b ev →
      (boards e.templates.get).step b ev b' → Shape e.templates.get b' ∧ I b' :=
    fun _ _ _ hb hev hst => ⟨BoardStep.shape hb.1 hst, hI _ _ _ hb.1 hb.2 hev hst⟩
  have hrun : ∀ s op s', (Keyed s.db ∧ Shape e.templates.get s.db.board ∧ I s.db.board) →
      Meets e P s op → (runtime e e.bound).step s op s' →
      Keyed s'.db ∧ Shape e.templates.get s'.db.board ∧ I s'.db.board := by
    rintro s op _ ⟨hk, hb⟩ ⟨ho, hP⟩ ⟨hc, rfl⟩
    obtain ⟨hk', hpath | ⟨ev, hev, hst⟩⟩ := after_refines hk hb.1 hc ho
    · exact ⟨hk', System.Path.invariant hstep (System.Path.mono hcalm hpath) hb⟩
    · exact ⟨hk', hstep _ _ _ hb (hP ev hev) hst⟩
  obtain ⟨hk, hreach⟩ := runtime_refines hcalm h
  exact (System.Path.invariant hrun hp ⟨hk, boards_shape hreach, hs⟩).2.2

end Autora
