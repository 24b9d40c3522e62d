import Autora.Closure

/-! A run whose work was stopped does not succeed, when there was something to stop. -/

namespace Autora

open Systems

def Verdict.stops : Verdict → Bool
  | .halted _ | .exhausted _ => true
  | .carryOn | .again _ _ _ => false

/-- The operation finishes the task `id` of the run with an output on which a halt
fires, or that asks for a round when its loop has none left. -/
def stopsWork (e : WorkflowEngine) (s : Runtime) (op : Op) (run id : Id) : Bool :=
  (op.exec e e.bound s.db).isOk && op.finishes?.any fun (task, output) =>
    task = id && (s.db.task? id).any fun t =>
      t.workflowRunId = some run && (e.verdict s.db { t with output := output }).stops

/-- There is something to stop: a task that waits for `id` and has not succeeded; or the
run has a failed or cancelled task already. -/
def StopBites (w : World) (run id : Id) : Prop :=
  ∃ d ∈ w.tasksOf run, d.state.dead = true ∨ (id ∈ d.dependsOn ∧ d.state ≠ .succeeded)

instance (w : World) (run id : Id) : Decidable (StopBites w run id) := by
  unfold StopBites
  infer_instance

variable {e : WorkflowEngine} {s s' : Runtime} {op : Op} {run id : Id}

theorem Shape.not_self {reg : String → Option WorkflowTemplate} {b : Board} (h : Shape reg b)
    {c : Card} (hc : c ∈ b.cards) : c.id ∉ c.deps := by
  intro hdep
  obtain ⟨r, _, _, t, _, _, hdeps⟩ := h.follows c hc
  obtain ⟨d, hd, _, hdi, hdn⟩ := hdeps c.id hdep
  rw [eq_of_id h.ids hd hc hdi] at hdn
  exact Nat.lt_irrefl _ (t.rank_lt hdn)

theorem dead_of_not_succeeded {s : TaskState} (hf : s.final = true) (hs : s ≠ .succeeded) :
    s.dead = true := by
  revert hf hs
  cases s <;> decide

/-- When a stop bites, something of the run is dead afterwards. -/
theorem Ends.dead {reg : String → Option WorkflowTemplate} {b b' : Board} (hs : Shape reg b)
    {c d : Card} (hc : c ∈ b.cards) (ha : c.state.active = true) (he : Ends c .succeeded b b')
    (hd : d ∈ b.cards) (hdr : d.run = c.run)
    (hbites : d.state.dead = true ∨ (c.id ∈ d.deps ∧ d.state ≠ .succeeded)) :
    ∃ y ∈ b'.cards, y.run = c.run ∧ y.state.dead = true := by
  have hcu := TaskState.final_of_active ha
  by_cases hdead : d.state.dead = true
  · have hdf := TaskState.final_of_dead hdead
    have hne : d.id ≠ c.id := by
      intro h
      rw [eq_of_id hs.ids hd hc h, hcu] at hdf
      cases hdf
    exact ⟨d, he.keeps hd hne hdf, hdr, hdead⟩
  · obtain ⟨hdep, hns⟩ := hbites.resolve_left hdead
    have hne : d.id ≠ c.id := by
      intro h
      have hdc := eq_of_id hs.ids hd hc h
      rw [hdc] at hdep
      exact hs.not_self hc hdep
    rcases he.image hd hne with hold | hcan
    · have hf := he.stopped d hold hdr hdep
      exact absurd (dead_of_not_succeeded hf hns) hdead
    · exact ⟨_, hcan, hdr, rfl⟩

/-- A run with a dead task never succeeds. -/
theorem not_succeeded_of_dead {reg : String → Option WorkflowTemplate} {w : World}
    (hs : Shape reg w.board) (h : ∃ y ∈ w.board.cards, y.run = run ∧ y.state.dead = true) :
    ∀ r ∈ w.workflowRuns, r.id = run → r.state ≠ .succeeded := by
  intro r hr hid hsuc
  obtain ⟨y, hy, hyr, hyd⟩ := h
  rcases hs.settled r.card (List.mem_map_of_mem hr) with ⟨hrun, _⟩ | ⟨_, ho⟩
  · have hrun : r.state = .running := hrun
    rw [hsuc] at hrun
    cases hrun
  · have ho : outcome (ofRun w.board.cards r.id) = .succeeded := ho.symm.trans hsuc
    have hall := outcome_eq_succeeded.mp ho y (mem_ofRun.mpr ⟨hy, hyr.trans hid.symm⟩)
    rw [hall] at hyd
    cases hyd

theorem stopsWork_spec (h : stopsWork e s op run id = true) :
    (∃ r, op.exec e e.bound s.db = .ok r) ∧ op.event? e s.db = some (.stop id) ∧
      ∃ t, s.db.task? id = some t ∧ t.workflowRunId = some run := by
  rw [stopsWork, Bool.and_eq_true, Option.any_eq_true] at h
  obtain ⟨hok, ⟨task, output⟩, hop, h⟩ := h
  rw [Bool.and_eq_true, decide_eq_true_eq, Option.any_eq_true] at h
  obtain ⟨rfl, t, ht, h⟩ := h
  rw [Bool.and_eq_true, decide_eq_true_eq] at h
  obtain ⟨hr, hstops⟩ := h
  refine ⟨?_, ?_, t, ht, hr⟩
  · cases hx : op.exec e e.bound s.db with
    | ok r => exact ⟨r, rfl⟩
    | error err =>
      rw [hx] at hok
      cases hok
  · rw [Op.event?_eq hop ht hr]
    revert hstops
    cases e.verdict s.db { t with output := output } with
    | halted _ => exact fun _ => rfl
    | exhausted _ => exact fun _ => rfl
    | carryOn => exact fun h => by cases h
    | again _ _ _ => exact fun h => by cases h

theorem stop_bites (h : (runtime e e.bound).Reach (Meets e anyStep) s)
    (hc : op.Called s) (ho : op.Outside s.db) (hstop : stopsWork e s op run id = true)
    (hbites : StopBites s.db run id) :
    ∃ y ∈ (s.after e e.bound op).db.board.cards, y.run = run ∧ y.state.dead = true := by
  obtain ⟨hk, hb⟩ := runtime_refines (fun _ _ _ => trivial) h
  have hs := boards_shape hb
  obtain ⟨hok, hev, t, ht, hr⟩ := stopsWork_spec hstop
  have hstep := committed_step hk hs hc ho hok hev
  obtain ⟨d, hd, hcond⟩ := hbites
  obtain ⟨hdmem, hdr⟩ := mem_tasksOf.mp hd
  have hdc : (⟨d.id, run, d.name, d.dependsOn, d.state⟩ : Card) ∈ s.db.board.cards :=
    mem_board.mpr ⟨d, hdmem, by simp [Task.card?, hdr]⟩
  obtain ⟨c', hc', _, hcid', hcr'⟩ := World.card_of_task? ht hr
  cases hstep with
  | @stop _ c hc ha he =>
    -- the card that stops is the task's
    have hcc : c = c' := eq_of_id hs.ids hc hc' hcid'.symm
    have hcr : c.run = run := hcc ▸ hcr'
    rw [← hcr] at hdc ⊢
    exact he.dead hs hc ha hdc rfl hcond

/-- A stop that bites keeps the run from ever ending SUCCEEDED. -/
theorem stopped_not_succeeded (e : WorkflowEngine) (s s' : Runtime) (op : Op) (run id : Id)
    (h : (runtime e e.bound).Reach (Meets e anyStep) s) (hc : op.Called s)
    (ho : op.Outside s.db) (hstop : stopsWork e s op run id = true)
    (hbites : StopBites s.db run id)
    (hp : (runtime e e.bound).Path (Meets e anyStep) (s.after e e.bound op) s') :
    ∀ r ∈ s'.db.workflowRuns, r.id = run → r.state ≠ .succeeded := by
  have hstep : (runtime e e.bound).Reach (Meets e anyStep) (s.after e e.bound op) :=
    h.step ⟨ho, fun _ _ => trivial⟩ ⟨hc, rfl⟩
  have hdead := path_refines (fun _ _ _ => trivial)
    (I := fun b => ∃ y ∈ b.cards, y.run = run ∧ y.state.dead = true)
    (fun b ev b' hs hy _ hst => by
      obtain ⟨y, hy, hyr, hyd⟩ := hy
      obtain ⟨z, hz, _, hzr, _, hzs⟩ := final_persists hs hst hy (TaskState.final_of_dead hyd)
      exact ⟨z, hz, hzr.trans hyr, hzs ▸ hyd⟩) hstep hp (stop_bites h hc ho hstop hbites)
  obtain ⟨_, hb⟩ := runtime_refines (fun _ _ _ => trivial) (hstep.path hp)
  exact not_succeeded_of_dead (boards_shape hb) hdead

/-! A review that vetoes: with a node after it there is something to stop, without one
there is not. -/

def vetoed (nodes : List NodeSpec) : TemplateSpec where
  name := "vetoed"
  nodes := [serviceNode "draft" [], serviceNode "review" ["draft"]] ++ nodes
  halts := [{ check := "review", fires := wantsMore }]

def vetoedAtEnd : WorkflowTemplate := { vetoed [] with valid := by decide }

def vetoedBefore : WorkflowTemplate :=
  { vetoed [serviceNode "publish" ["review"]] with valid := by decide }

/-- The draft is done, the review is next. -/
def underReview (template : WorkflowTemplate) : Runtime :=
  Runtime.blank.trace (engineOf template)
    [.instantiate "vetoed" 100 101 [] none, .completeWithoutRun 0 none none]

def veto : Op := .completeWithoutRun 1 more none

theorem stopped_but_succeeded : ¬ ∀ (e : WorkflowEngine) (s s' : Runtime) (op : Op) (run id : Id),
    (runtime e e.bound).Reach (Meets e anyStep) s → op.Called s → op.Outside s.db →
      stopsWork e s op run id = true →
        (runtime e e.bound).Path (Meets e anyStep) (s.after e e.bound op) s' →
          ∀ r ∈ s'.db.workflowRuns, r.id = run → r.state ≠ .succeeded := by
  intro h
  have hreach : legal (engineOf vetoedAtEnd) anyStep Runtime.blank
      [.instantiate "vetoed" 100 101 [] none, .completeWithoutRun 0 none none] = true := by
    decide +kernel
  have hveto : veto.isService (underReview vetoedAtEnd) = true := by decide +kernel
  obtain ⟨hc, ho⟩ := Op.called_of_isService hveto
  have hsucceeded : ¬ ∀ r ∈ ((underReview vetoedAtEnd).after (engineOf vetoedAtEnd)
      (engineOf vetoedAtEnd).bound veto).db.workflowRuns, r.id = 2 → r.state ≠ .succeeded := by
    decide +kernel
  exact hsucceeded (h _ _ _ veto 2 1 (reach_from_blank hreach) hc ho (by decide +kernel) .refl)

theorem stopped_not_succeeded_vetoed : veto.isService (underReview vetoedBefore) = true ∧
    ∀ r ∈ ((underReview vetoedBefore).after (engineOf vetoedBefore)
      (engineOf vetoedBefore).bound veto).db.workflowRuns, r.id = 3 → r.state ≠ .succeeded := by
  have hveto : veto.isService (underReview vetoedBefore) = true := by decide +kernel
  obtain ⟨hc, ho⟩ := Op.called_of_isService hveto
  refine ⟨hveto, ?_⟩
  exact stopped_not_succeeded (engineOf vetoedBefore) _ _ veto 3 1
    (reach_from_blank (by decide +kernel)) hc ho (by decide +kernel) (by decide +kernel) .refl

end Autora
