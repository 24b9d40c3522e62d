import Autora.Traces

/-! A run never deadlocks: while it is RUNNING some task of it can still be worked
on, as long as no round is started that waits for something dead. -/

namespace Autora

open Systems

/-- Some task of a RUNNING run is neither ended nor PENDING. -/
def NoDeadlock (w : World) : Prop :=
  ∀ r ∈ w.workflowRuns, r.state = .running →
    ∃ t ∈ w.tasks, t.workflowRunId = some r.id ∧ t.state.final = false ∧ t.state ≠ .pending

instance (w : World) : Decidable (NoDeadlock w) := by
  unfold NoDeadlock
  infer_instance

theorem bodyAlive_of_calm {reg : String → Option WorkflowTemplate} (b : Board) (ev : Event)
    (h : ev.calm = true) : BodyAlive reg b ev := by
  cases ev <;> trivial

theorem noDeadlock_of_waiting {reg : String → Option WorkflowTemplate} {w : World}
    (hs : Shape reg w.board) (hw : Waiting w.board.cards) : NoDeadlock w := by
  intro r hr hrun
  have hcard : r.card ∈ w.board.runs := List.mem_map_of_mem hr
  obtain ⟨c, hc, hcr, hact⟩ := exists_active hs hw hcard hrun
  obtain ⟨t, ht, htc⟩ := mem_board.mp hc
  obtain ⟨htr, _, _, _, hts⟩ := Task.card?_eq_some.mp htc
  have hne : t.state ≠ .pending := by
    intro hp
    rw [← hts, hp] at hact
    cases hact
  refine ⟨t, ht, htr.trans (congrArg some hcr), ?_, hne⟩
  rw [hts]
  exact TaskState.final_of_active hact

theorem no_deadlock (e : WorkflowEngine) (s : Runtime)
    (h : (runtime e e.bound).Reach (Meets e (BodyAlive e.templates.get)) s) :
    NoDeadlock s.db := by
  obtain ⟨_, hb⟩ := runtime_refines bodyAlive_of_calm h
  exact noDeadlock_of_waiting (boards_shape hb) (boards_waiting hb)

/-! The new `x` of the round of `w` fails; the round of `z` adds a `z` that waits
for it all the same. -/

def crossing : WorkflowTemplate where
  name := "crossing"
  nodes := [serviceNode "x" [], serviceNode "y" ["x"], serviceNode "z" ["y", "x"],
    serviceNode "w" ["x"]]
  loops := [{ check := "w", backTo := "x", again := wantsMore },
    { check := "z", backTo := "y", again := wantsMore }]
  valid := by decide

def crossingRounds : List Op :=
  [.instantiate "crossing" 100 101 [] none, .completeWithoutRun 0 none none,
    .completeWithoutRun 1 none none, .completeWithoutRun 2 more none,
    .failWithoutRun 5 "Error" "no luck", .completeWithoutRun 3 more none,
    .completeWithoutRun 7 none none]

theorem deadlock : ¬ ∀ (e : WorkflowEngine) (s : Runtime),
    (runtime e e.bound).Reach (Meets e anyStep) s → NoDeadlock s.db := by
  intro h
  have hlegal : legal (engineOf crossing) anyStep Runtime.blank crossingRounds = true := by
    decide +kernel
  have hno : ¬ NoDeadlock (Runtime.blank.trace (engineOf crossing) crossingRounds).db := by
    decide +kernel
  exact hno (h _ _ (reach_from_blank hlegal))

/-- The same rounds, when the new `x` has not failed. -/
theorem no_deadlock_crossing :
    NoDeadlock (Runtime.blank.trace (engineOf crossing)
      (crossingRounds.take 4 ++ [.completeWithoutRun 5 none none,
        .completeWithoutRun 3 more none, .completeWithoutRun 7 none none])).db :=
  no_deadlock _ _ (reach_from_blank (by decide +kernel))

end Autora
