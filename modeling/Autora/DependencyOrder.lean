import Autora.Traces

/-! When a task of a run is unlocked, everything it depends on has succeeded; as
long as no round is started before what its entry waits for has succeeded. -/

namespace Autora

open Systems

/-- A task of a run is READY, RUNNING or SUCCEEDED only when all its dependencies
have SUCCEEDED. -/
def DepsSucceeded (w : World) : Prop :=
  ∀ t ∈ w.tasks, t.workflowRunId ≠ none →
    t.state = .ready ∨ t.state = .running ∨ t.state = .succeeded →
      ∀ i ∈ t.dependsOn, ∃ d ∈ w.tasks, d.id = i ∧ d.state = .succeeded

instance (w : World) : Decidable (DepsSucceeded w) := by
  unfold DepsSucceeded
  infer_instance

theorem depsSucceeded_of_unlocked {w : World} (h : Unlocked w.board.cards) :
    DepsSucceeded w := by
  intro t ht hrun hs i hi
  obtain ⟨run, hr⟩ := Option.ne_none_iff_exists'.mp hrun
  have hcard : t.card? = some ⟨t.id, run, t.name, t.dependsOn, t.state⟩ := by
    simp [Task.card?, hr]
  have hp : t.state ≠ .pending ∧ t.state ≠ .cancelled := by
    rcases hs with hs | hs | hs <;> rw [hs] <;> decide
  obtain ⟨c, hc, _, hci, hcs⟩ := h _ (mem_board.mpr ⟨t, ht, hcard⟩) hp.1 hp.2 i hi
  obtain ⟨d, hd, hdc⟩ := mem_board.mp hc
  obtain ⟨_, hdi, _, _, hds⟩ := Task.card?_eq_some.mp hdc
  exact ⟨d, hd, hdi.trans hci, hds.trans hcs⟩

theorem entryReady_of_calm {reg : String → Option WorkflowTemplate} (b : Board) (ev : Event)
    (h : ev.calm = true) : EntryReady reg b ev := by
  cases ev <;> trivial

theorem deps_succeeded (e : WorkflowEngine) (s : Runtime)
    (h : (runtime e e.bound).Reach (Meets e (EntryReady e.templates.get)) s) :
    DepsSucceeded s.db := by
  obtain ⟨_, hb⟩ := runtime_refines entryReady_of_calm h
  exact depsSucceeded_of_unlocked (boards_unlocked hb)

/-! Two loops that overlap: `z` asks for another round of `y` and `z` after `w`
has started one of `x` and `w`. -/

def overlapping : WorkflowTemplate where
  name := "overlapping"
  nodes := [serviceNode "x" [], serviceNode "y" ["x"], serviceNode "z" ["y"],
    serviceNode "w" ["x"]]
  loops := [{ check := "w", backTo := "x", again := wantsMore },
    { check := "z", backTo := "y", again := wantsMore }]
  valid := by decide

/-- `x`, `y`, then `w` and `z`, the ids of the first round in the order of creation. -/
def overlappingRounds : List Op :=
  [.instantiate "overlapping" 100 101 [] none, .completeWithoutRun 0 none none,
    .completeWithoutRun 1 none none, .completeWithoutRun 2 more none,
    .completeWithoutRun 3 more none]

theorem deps_not_succeeded : ¬ ∀ (e : WorkflowEngine) (s : Runtime),
    (runtime e e.bound).Reach (Meets e anyStep) s → DepsSucceeded s.db := by
  intro h
  have hlegal : legal (engineOf overlapping) anyStep Runtime.blank overlappingRounds = true := by
    decide +kernel
  have hno : ¬ DepsSucceeded (Runtime.blank.trace (engineOf overlapping) overlappingRounds).db := by
    decide +kernel
  exact hno (h _ _ (reach_from_blank hlegal))

/-- The same template, when `z` asks only after the new `x` succeeded. -/
theorem deps_succeeded_overlapping :
    DepsSucceeded (Runtime.blank.trace (engineOf overlapping)
      (overlappingRounds.dropLast ++
        [.completeWithoutRun 5 none none, .completeWithoutRun 3 more none])).db :=
  deps_succeeded _ _ (reach_from_blank (by decide +kernel))

end Autora
