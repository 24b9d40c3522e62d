import Autora.DependencyOrder
import Autora.Liveness

/-! A run closes exactly when its last task ends, with the outcome its tasks have,
and what has ended stays as it is. What depends on a dead task is cancelled, as
long as every round starts on tasks that are in order. -/

namespace Autora

open Systems

/-- The outcome of a run that has closed. -/
structure Outcome (tasks : List Task) (s : WorkflowRunState) : Prop where
  succeeded : s = .succeeded ↔ ∀ t ∈ tasks, t.state = .succeeded
  failed : s ≠ .succeeded → (s = .failed ↔ ∃ t ∈ tasks, t.state = .failed)
  cancelled : s ≠ .succeeded → s ≠ .failed → s = .cancelled

/-- `t` is a task of a run and depends directly on `d`. -/
def DependsOn (w : World) (t d : Task) : Prop :=
  t ∈ w.tasks ∧ d ∈ w.tasks ∧ t.workflowRunId ≠ none ∧ d.id ∈ t.dependsOn

structure ExactClosure (w : World) : Prop where
  running : ∀ r ∈ w.workflowRuns,
    (r.state = .running ↔ ∃ t ∈ w.tasksOf r.id, t.state.final = false)
  outcome : ∀ r ∈ w.workflowRuns, r.state ≠ .running → Outcome (w.tasksOf r.id) r.state
  dependents : ∀ t d, Relation.TransGen (DependsOn w) t d → d.state.dead = true →
    t.state = .cancelled

/-- What has ended stays so: a closed run, each of its tasks, and a cancelled task. -/
structure EndsForGood (w w' : World) : Prop where
  runs : ∀ r ∈ w.workflowRuns, r.state ≠ .running →
    (∀ r' ∈ w'.workflowRuns, r'.id = r.id → r'.state = r.state) ∧
      ∀ t ∈ w'.tasksOf r.id, t.state.final = true
  cancelled : ∀ t ∈ w.tasks, t.workflowRunId ≠ none → t.state = .cancelled →
    ∀ t' ∈ w'.tasks, t'.id = t.id → t'.state = .cancelled

/-! From the board to the rows. -/

theorem outcome_of_cards (w : World) (run : Id) :
    Outcome (w.tasksOf run) (outcome (ofRun w.board.cards run)) := by
  refine ⟨outcome_succeeded_iff, fun _ => outcome_failed_iff, fun h h' => ?_⟩
  exact outcome_cancelled h h'

theorem settled_exact {w : World} {r : WorkflowRun} (h : Settled w.board.cards r.card) :
    (r.state = .running ↔ ∃ t ∈ w.tasksOf r.id, t.state.final = false) ∧
      (r.state ≠ .running → Outcome (w.tasksOf r.id) r.state) := by
  have hex : (∃ t ∈ w.tasksOf r.id, t.state.final = false) ↔ ¬ AllFinal w.board.cards r.id := by
    rw [allFinal_iff]
    push Not
    simp only [Bool.not_eq_true]
  rw [hex]
  rcases h with ⟨hrun, c, hc, hcr, hu⟩ | ⟨hf, ho⟩
  · have hrun : r.state = .running := hrun
    refine ⟨⟨fun _ hf => ?_, fun _ => hrun⟩, fun hne => absurd hrun hne⟩
    rw [hf c hc hcr] at hu
    cases hu
  · have ho : r.state = outcome (ofRun w.board.cards r.id) := ho
    refine ⟨⟨fun hrun => ?_, fun hno => absurd hf hno⟩, fun _ => ?_⟩
    · rw [ho] at hrun
      exact absurd hrun (outcome_ne_running _)
    · rw [ho]
      exact outcome_of_cards w r.id

theorem DependsOn.card {reg : String → Option WorkflowTemplate} {w : World} (hk : Keyed w)
    (hs : Shape reg w.board) {t d : Task} (h : DependsOn w t d) :
    ∃ c x, t.card? = some c ∧ d.card? = some x ∧ Prerequisite w.board.cards c.run c x := by
  obtain ⟨ht, hd, hrun, hdep⟩ := h
  obtain ⟨run, hr⟩ := Option.ne_none_iff_exists'.mp hrun
  have hcard : t.card? = some ⟨t.id, run, t.name, t.dependsOn, t.state⟩ := by
    simp [Task.card?, hr]
  have hmem := mem_board.mpr ⟨t, ht, hcard⟩
  obtain ⟨x, hx, hxr, hxi⟩ := hs.dep_old hmem hdep
  have hxd := hk.card_eq (hk.task? hd) hx hxi
  exact ⟨_, x, hcard, hxd, hmem, hx, rfl, hxr, hxi ▸ hdep⟩

/-- A chain of dependencies is one on the board, and stays in its run. -/
theorem chain_on_board {reg : String → Option WorkflowTemplate} {w : World} (hk : Keyed w)
    (hs : Shape reg w.board) {t d : Task} (h : Relation.TransGen (DependsOn w) t d) :
    ∃ run c x, t.card? = some c ∧ d.card? = some x ∧ x.run = run ∧
      Relation.TransGen (Prerequisite w.board.cards run) c x := by
  induction h with
  | single h =>
    obtain ⟨c, x, hc, hx, hp⟩ := h.card hk hs
    exact ⟨c.run, c, x, hc, hx, hp.2.2.2.1, .single hp⟩
  | tail _ hmd ih =>
    obtain ⟨run, c, y, hc, hy, rfl, hchain⟩ := ih
    obtain ⟨y', x, hy', hx, hp⟩ := hmd.card hk hs
    rw [hy, Option.some.injEq] at hy'
    subst hy'
    exact ⟨y.run, c, x, hc, hx, hp.2.2.2.1, hchain.tail hp⟩

theorem exactClosure_of_board {reg : String → Option WorkflowTemplate} {w : World} (hk : Keyed w)
    (hs : Shape reg w.board) (hu : Unlocked w.board.cards) (hw : Waiting w.board.cards) :
    ExactClosure w := by
  have hsettled : ∀ r ∈ w.workflowRuns, Settled w.board.cards r.card :=
    fun r hr => hs.settled r.card (List.mem_map_of_mem hr)
  refine ⟨fun r hr => (settled_exact (hsettled r hr)).1,
    fun r hr => (settled_exact (hsettled r hr)).2, fun t d h hd => ?_⟩
  obtain ⟨run, c, x, hc, hx, _, hchain⟩ := chain_on_board hk hs h
  rw [(Task.card?_eq_some.mp hc).2.2.2.2]
  rw [(Task.card?_eq_some.mp hx).2.2.2.2] at hd
  exact cancelled_of_dead hs hu hw hchain hd

/-! Over the rest of a run. -/

/-- A round starts on tasks that are in order: what its entry waits for succeeded, and
nothing its other nodes wait for is dead. -/
def RoundInOrder (reg : String → Option WorkflowTemplate) (b : Board) (ev : Event) : Prop :=
  EntryReady reg b ev ∧ BodyAlive reg b ev

instance {reg : String → Option WorkflowTemplate} (b : Board) :
    DecidablePred (RoundInOrder reg b) := fun _ => instDecidableAnd

theorem roundInOrder_of_calm {reg : String → Option WorkflowTemplate} (b : Board) (ev : Event)
    (h : ev.calm = true) : RoundInOrder reg b ev :=
  ⟨entryReady_of_calm b ev h, bodyAlive_of_calm b ev h⟩

variable {e : WorkflowEngine} {s s' : Runtime} {P : Board → Event → Prop}

theorem closed_for_good (hcalm : ∀ b (ev : Event), ev.calm = true → P b ev)
    (h : (runtime e e.bound).Reach (Meets e P) s)
    (hp : (runtime e e.bound).Path (Meets e P) s s') : EndsForGood s.db s'.db := by
  have hreach := h.path hp
  obtain ⟨hk', hb'⟩ := runtime_refines hcalm hreach
  have hs' := boards_shape hb'
  refine ⟨fun r hr hclosed => ?_, fun t ht hrun hcan t' ht' hid => ?_⟩
  · have hr' : r.card ∈ s'.db.board.runs :=
      path_refines hcalm (I := fun b => r.card ∈ b.runs)
        (fun b ev b' hs hmem _ hst => closed_persists hs hst hmem hclosed) h hp
        (List.mem_map_of_mem hr)
    have hstate : ∀ r' ∈ s'.db.workflowRuns, r'.id = r.id → r'.state = r.state := by
      intro r' hmem hid
      have hmem' : r'.card ∈ s'.db.board.runs := List.mem_map_of_mem hmem
      exact congrArg RunCard.state (List.inj_on_of_nodup_map hs'.runIds hmem' hr' hid)
    refine ⟨hstate, fun t ht => ?_⟩
    rcases hs'.settled r.card hr' with ⟨hrun, _⟩ | ⟨hf, _⟩
    · exact absurd hrun hclosed
    · exact allFinal_iff.mp hf t ht
  · obtain ⟨run, hrn⟩ := Option.ne_none_iff_exists'.mp hrun
    have hcard : t.card? = some ⟨t.id, run, t.name, t.dependsOn, t.state⟩ := by
      simp [Task.card?, hrn]
    have hfin : ∃ y ∈ s'.db.board.cards, y.id = t.id ∧ y.state = .cancelled := by
      refine path_refines hcalm (I := fun b => ∃ y ∈ b.cards, y.id = t.id ∧ y.state = .cancelled)
        (fun b ev b' hs hy _ hst => ?_) h hp ⟨_, mem_board.mpr ⟨t, ht, hcard⟩, rfl, hcan⟩
      obtain ⟨y, hy, hyi, hys⟩ := hy
      obtain ⟨z, hz, hzi, _, _, hzs⟩ := final_persists hs hst hy (by rw [hys]; rfl)
      exact ⟨z, hz, hzi.trans hyi, hzs.trans hys⟩
    obtain ⟨y, hy, hyi, hys⟩ := hfin
    have hcy := hk'.card_eq (hk'.task? ht') hy (hyi.trans hid.symm)
    exact (Task.card?_eq_some.mp hcy).2.2.2.2.trans hys

/-- Run closure is exact. -/
theorem run_closure (e : WorkflowEngine) (s s' : Runtime)
    (h : (runtime e e.bound).Reach (Meets e (RoundInOrder e.templates.get)) s)
    (hp : (runtime e e.bound).Path (Meets e (RoundInOrder e.templates.get)) s s') :
    ExactClosure s.db ∧ EndsForGood s.db s'.db := by
  obtain ⟨hk, hb⟩ := runtime_refines roundInOrder_of_calm h
  have hu := boards_unlocked (hb.mono fun _ _ hev => hev.1)
  have hw := boards_waiting (hb.mono fun _ _ hev => hev.2)
  exact ⟨exactClosure_of_board hk (boards_shape hb) hu hw,
    closed_for_good roundInOrder_of_calm h hp⟩

/-- In the deadlock of `crossing` the new `z` waits for the `x` that failed. -/
theorem run_closure_fails : ¬ ∀ (e : WorkflowEngine) (s s' : Runtime),
    (runtime e e.bound).Reach (Meets e anyStep) s →
      (runtime e e.bound).Path (Meets e anyStep) s s' →
        ExactClosure s.db ∧ EndsForGood s.db s'.db := by
  intro h
  have hlegal : legal (engineOf crossing) anyStep Runtime.blank crossingRounds = true := by
    decide +kernel
  have hwaits : ∃ t ∈ (Runtime.blank.trace (engineOf crossing) crossingRounds).db.tasks,
      ∃ d ∈ (Runtime.blank.trace (engineOf crossing) crossingRounds).db.tasks,
        t.workflowRunId ≠ none ∧ d.id ∈ t.dependsOn ∧ d.state.dead = true ∧
          t.state ≠ .cancelled := by
    decide +kernel
  obtain ⟨t, ht, d, hd, hr, hdep, hdead, hne⟩ := hwaits
  obtain ⟨hexact, _⟩ := h _ _ _ (reach_from_blank hlegal) .refl
  exact hne (hexact.dependents t d (.single ⟨ht, hd, hr, hdep⟩) hdead)

/-- One round, a failure in it, and the end of the run; then another run starts. -/
theorem run_closure_crossing :
    let s := Runtime.blank.trace (engineOf crossing)
      [.instantiate "crossing" 100 101 [] none, .completeWithoutRun 0 none none,
        .completeWithoutRun 2 more none, .completeWithoutRun 1 none none,
        .completeWithoutRun 3 none none, .failWithoutRun 5 "Error" "no luck"]
    let s' := s.trace (engineOf crossing) [.instantiate "crossing" 100 101 [] none]
    ExactClosure s.db ∧ EndsForGood s.db s'.db :=
  run_closure (engineOf crossing) _ _ (reach_from_blank (by decide +kernel))
    (path_trace (by decide +kernel))

end Autora
