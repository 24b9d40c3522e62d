import Autora.Calm

/-! The operations that go through many tasks: the maintenance jobs and the
cancelling of a whole run. Each turn is a step of the board. -/

namespace Autora

open Transactions Systems

variable {reg : String → Option WorkflowTemplate} {e : WorkflowEngine} {tm : TaskManager}
  {w w₁ w' : World}

/-- The card of a task that a loop has listed: as it was then, or ended meanwhile. -/
def Listed (s : TaskState) (id : Id) (w : World) : Prop :=
  ∀ c ∈ w.board.cards, c.id = id → c.state = s ∨ c.state.final = true

/-- The other cards stay, or end. -/
def Others (id : Id) (w w' : World) : Prop :=
  ∀ d ∈ w'.board.cards, d.id = id ∨ d.state.final = true ∨ d ∈ w.board.cards

theorem Listed.later {s : TaskState} {id x : Id} (h : Listed s x w) (ho : Others id w w')
    (hne : x ≠ id) : Listed s x w' := by
  intro d hd hdx
  rcases ho d hd with hid | hf | hold
  · exact absurd (hdx.symm.trans hid) hne
  · exact .inr hf
  · exact h d hold hdx

theorem Moves.others {id : Id} {s : TaskState} (h : Moves id s w w') : Others id w w' := by
  intro d hd
  rw [h.board] at hd
  obtain ⟨c, hc, rfl⟩ := mem_setState.mp hd
  by_cases hid : c.id = id
  · rw [if_pos hid]
    exact .inl hid
  · rw [if_neg hid]
    exact .inr (.inr hc)

theorem Moves.dies_others {id : Id} {s : TaskState} {t : Task} (htm : SpreadsFailure tm)
    (hk : Keyed w) (ht : w.task? id = some t) (hs : s.final = true) (hm : Moves id s w w₁)
    {u : Unit} (h : Returns (tm.failed id) w₁ u w') : Others id w w' := by
  obtain ⟨_, hnone, hsome⟩ := ends_of_moves htm hk ht hm h
  intro d hd
  cases hr : t.workflowRunId with
  | none =>
    rw [hnone hr] at hd
    exact .inr (.inr hd)
  | some run =>
    obtain ⟨c, hc, hcard, rfl, _⟩ := World.card_of_task? ht hr
    rcases (hsome c hcard).cases (board_nodup hk) hc hs hd with rfl | ⟨hold, _⟩ | ⟨x, _, _, _, rfl, _⟩
    · exact .inl rfl
    · exact .inr (.inr hold)
    · exact .inr (.inl rfl)

/-- A listed row that can still move is on the board as it was listed. -/
theorem Listed.state {s : TaskState} {id : Id} {t : Task} (h : Listed s id w)
    (ht : w.task? id = some t) (hf : t.state.final = false) :
    t.workflowRunId = none ∨ t.state = s := by
  cases hr : t.workflowRunId with
  | none => exact .inl rfl
  | some run =>
    obtain ⟨c, hc, hcard, hid, _⟩ := World.card_of_task? ht hr
    have hstate := (Task.card?_eq_some.mp hcard).2.2.2.2
    rcases h c hc hid with hs | hs
    · exact .inr (hstate.trans hs)
    · rw [hstate, hs] at hf
      cases hf

/-- A turn of a loop on a listed task. -/
def Turns (reg : String → Option WorkflowTemplate) (s : TaskState) (f : Id → Tx Unit) : Prop :=
  ∀ id w u w', Keyed w → Listed s id w → Returns (f id) w u w' →
    Calm reg w w' ∧ Others id w w'

theorem Turns.forEach {s : TaskState} {f : Id → Tx Unit} (hf : Turns reg s f) {tasks : List Task}
    (hn : (tasks.map (·.id)).Nodup) (hk : Keyed w) (hl : ∀ t ∈ tasks, Listed s t.id w)
    {u : Unit} (h : Returns (forEach (fun t => f t.id) tasks) w u w') : Calm reg w w' := by
  induction tasks generalizing w with
  | nil =>
    rw [returns_forEach_nil.mp h]
    exact Calm.refl w
  | cons t tasks ih =>
    rw [List.map_cons, List.nodup_cons] at hn
    obtain ⟨w₁, h₁, h₂⟩ := returns_forEach_cons.mp h
    obtain ⟨hcalm, hothers⟩ := hf t.id w _ w₁ hk (hl t (by simp)) h₁
    refine hcalm.trans (ih hn.2 (hcalm.kept.keyed hk) (fun x hx => ?_) h₂)
    refine (hl x (by simp [hx])).later hothers fun he => hn.1 ?_
    rw [← he]
    exact List.mem_map_of_mem hx

theorem not_final_of_can {s s' : TaskState} (h : taskFsm.can s s' = true) : s.final = false := by
  cases s <;> cases s' <;> first | rfl | cases h

theorem releaseBlockedTask_turns (htm : SpreadsFailure tm) :
    Turns reg .blockedBudget tm.releaseBlockedTask := by
  intro id w u w' hk hl h
  simp only [TaskManager.releaseBlockedTask, returns_bind (m := theTask _),
    returns_theTask] at h
  obtain ⟨t, w, ⟨ht, rfl⟩, h⟩ := h
  obtain ⟨_, rfl⟩ := w.mem_of_task? id ht
  rcases returns_ite.mp h with ⟨_, h⟩ | ⟨_, h⟩
  · obtain ⟨t', ht', hcan⟩ := transition_row h
    rw [ht, Option.some.injEq] at ht'
    subst ht'
    have hm := markReady_moves h
    refine ⟨hm.calm hk ht ((hl.state ht (not_final_of_can hcan)).imp_right fun hs => ?_),
      hm.others⟩
    rw [hs]
    exact ⟨rfl, rfl⟩
  · simp only [returns_bind, returns_transitionTask] at h
    obtain ⟨_, _, ⟨t', ht', hcan, rfl⟩, _, w₁, h₁, h₂⟩ := h
    rw [ht, Option.some.injEq] at ht'
    subst ht'
    have hu := not_final_of_can hcan
    have hm := (setTask_moves w t.id .failed).quiet (emitTask_quiet _ _ _ _ _ _ h₁)
    refine ⟨?_, hm.dies_others htm hk ht rfl h₂⟩
    have hact : t.state.active = true := by
      revert hcan
      cases t.state <;> decide
    exact hm.dies htm hk ht hu (.inr ⟨rfl, hact⟩) h₂

theorem releaseBlocked_calm (htm : SpreadsFailure tm) {company : Id} {locked : List Id} {n : Nat}
    (hk : Keyed w) (h : Returns (tm.releaseBlocked company locked) w n w') : Calm reg w w' := by
  simp only [TaskManager.releaseBlocked, returns_bind, returns_get, returns_pure] at h
  obtain ⟨_, w, ⟨rfl, rfl⟩, _, w₁, h, _, rfl⟩ := h
  refine (releaseBlockedTask_turns htm).forEach ((List.filter_sublist.map _).nodup hk.tasks) hk
    (fun t ht c hc hid => ?_) h
  obtain ⟨hmem, hp⟩ := List.mem_filter.mp ht
  simp only [Bool.and_eq_true, decide_eq_true_eq] at hp
  have hcard := hk.card_eq (hk.task? hmem) hc hid
  exact .inl ((Task.card?_eq_some.mp hcard).2.2.2.2.symm.trans hp.1.2)

/-- A quiet transaction keeps the card of a row. -/
theorem Quiet.row (h : Quiet w w') (hk : Keyed w) {id : Id} {t t' : Task}
    (ht : w.task? id = some t) (ht' : w'.task? id = some t') : t'.card? = t.card? := by
  obtain ⟨t₁, ht₁, hrun⟩ := h.kept.task? hk ht
  rw [ht', Option.some.injEq] at ht₁
  subst ht₁
  cases hr : t.workflowRunId with
  | none =>
    rw [hr] at hrun
    simp [Task.card?, hr, hrun]
  | some run =>
    obtain ⟨c, hc, hcard, hid, _⟩ := World.card_of_task? ht hr
    rw [← h.board] at hc
    rw [hcard]
    exact (h.kept.keyed hk).card_eq ht' hc hid

/-- A listed row that a quiet transaction left movable is as it was listed. -/
theorem Quiet.listed (h : Quiet w w') (hk : Keyed w) {id : Id} {s : TaskState} {t t' : Task}
    (hl : Listed s id w) (ht : w.task? id = some t) (ht' : w'.task? id = some t')
    (hf : t'.state.final = false) :
    t.workflowRunId = none ∨ t.state = s ∧ t.state.final = false := by
  have hcard := h.row hk ht ht'
  cases hr : t.workflowRunId with
  | none => exact .inl rfl
  | some run =>
    have hstate : t'.state = t.state := by
      have hsome : t.card? = some ⟨t.id, run, t.name, t.dependsOn, t.state⟩ := by
        simp [Task.card?, hr]
      rw [hsome] at hcard
      exact (Task.card?_eq_some.mp hcard).2.2.2.2
    rw [hstate] at hf
    exact .inr ⟨(hl.state ht hf).resolve_left (by simp [hr]), hf⟩

theorem Moves.dies_standalone {id : Id} {s : TaskState} {t : Task} (htm : SpreadsFailure tm)
    (hk : Keyed w) (ht : w.task? id = some t) (hr : t.workflowRunId = none)
    (hm : Moves id s w w₁) {u : Unit} (h : Returns (tm.failed id) w₁ u w') : Calm reg w w' := by
  obtain ⟨hkept, hnone, _⟩ := ends_of_moves htm hk ht hm h
  refine ⟨hkept, ?_⟩
  rw [hnone hr]
  exact .refl

theorem reapTask_turns (htm : SpreadsFailure tm) : Turns reg .running tm.reapTask := by
  intro id w u w' hk hl h
  simp only [TaskManager.reapTask, returns_bind (m := theTask _), returns_theTask,
    returns_bind (m := get), returns_get, returns_bind (m := orRaise _ _), returns_orRaise,
    returns_bind (m := forSome _ _), returns_bind (m := releaseLease _)] at h
  obtain ⟨t, w, ⟨ht, rfl⟩, _, w, ⟨rfl, rfl⟩, until_, w, ⟨_, rfl⟩, _, w₁, h₁, _, w₂, h₂, h⟩ := h
  obtain ⟨_, rfl⟩ := w.mem_of_task? id ht
  have hq₁ : Quiet w w₁ := Keeps.forSome (fun _ _ => abortRun_quiet _ _ _) _ _ _ h₁
  have hq : Quiet w w₂ := hq₁.trans (releaseLease_quiet t.id _ _ _ h₂)
  rcases returns_ite.mp h with ⟨_, h⟩ | ⟨_, h⟩
  · have hm := (requeue_moves h).after hq
    simp only [TaskManager.requeue, returns_bind (m := clock), returns_clock,
      returns_bind (m := updateTask _ _), returns_updateTask] at h
    obtain ⟨now, w₂, ⟨_, rfl⟩, _, _, rfl, h⟩ := h
    obtain ⟨t', ht', hcan⟩ := transition_row h
    have hq' := hq.trans (setTask_quiet w₂ t.id
      (f := fun t => { t with availableAt := some (now + tm.backoff t.attempt) })
      (fun _ => rfl) (fun _ => rfl) fun _ => rfl)
    have hs := hq'.listed hk hl ht ht' (not_final_of_can hcan)
    refine ⟨hm.calm hk ht (hs.imp_right fun hs => ?_), hm.others⟩
    rw [hs.1]
    exact ⟨rfl, rfl⟩
  · simp only [returns_bind, returns_transitionTask] at h
    obtain ⟨_, _, ⟨t', ht', hcan, rfl⟩, _, w₃, h₃, _, w₄, h₄, h₅⟩ := h
    have hq' : Quiet _ w₄ := (emitTask_quiet _ _ _ _ _ _ h₃).trans
      (Keeps.forSome (fun _ _ => taskActivity_quiet _ _ _ _) _ _ _ h₄)
    have hm := ((setTask_moves w₂ t.id .failed).after hq).quiet hq'
    refine ⟨?_, hm.dies_others htm hk ht rfl h₅⟩
    rcases hq.listed hk hl ht ht' (not_final_of_can hcan) with hr | ⟨hs, hu⟩
    · exact hm.dies_standalone htm hk ht hr h₅
    · refine hm.dies htm hk ht hu (.inr ⟨rfl, ?_⟩) h₅
      rw [hs]
      rfl

theorem reapExpiredLeases_calm (htm : SpreadsFailure tm) {limit : Nat} {locked reaped : List Id}
    (hk : Keyed w) (h : Returns (tm.reapExpiredLeases limit locked) w reaped w') :
    Calm reg w w' := by
  simp only [TaskManager.reapExpiredLeases, returns_bind, returns_get, returns_pure] at h
  obtain ⟨_, w, ⟨rfl, rfl⟩, _, w₁, h, _, rfl⟩ := h
  have hsub := (List.take_sublist limit _).trans (List.filter_sublist (l := w.tasks)
    (p := fun t => t.state = .running && t.leaseUntil.any (· < w.now) && t.id ∉ locked))
  refine (reapTask_turns htm).forEach ((hsub.map _).nodup hk.tasks) hk
    (fun t ht c hc hid => ?_) h
  obtain ⟨hmem, hp⟩ := List.mem_filter.mp (List.mem_of_mem_take ht)
  simp only [Bool.and_eq_true, decide_eq_true_eq] at hp
  have hcard := hk.card_eq (hk.task? hmem) hc hid
  exact .inl ((Task.card?_eq_some.mp hcard).2.2.2.2.symm.trans hp.1.1)

/-! Cancelling a whole run. -/

theorem cancelWaiting_calm (htm : Cancels tm) {waiting : List Task} {reason : String}
    (hk : Keyed w) {u : Unit}
    (h : Returns (WorkflowEngine.cancelWaiting tm waiting reason) w u w') : Calm reg w w' := by
  refine (forEach_all (R := Calm reg) (I := Keyed) (Q := fun _ _ => True)
    (fun t ht s s' v hs hr => ?_) (fun s s' hs hr => hr.kept.keyed hs)
    (fun _ _ _ _ _ => trivial) hk h).1
  simp only [returns_bind (m := theTask _), returns_theTask] at hr
  obtain ⟨_, s, ⟨_, rfl⟩, hr⟩ := hr
  rcases returns_ite.mp hr with ⟨_, hr⟩ | ⟨_, hr⟩
  · obtain ⟨_, rfl⟩ := returns_pure.mp hr
    exact ⟨Calm.refl _, trivial⟩
  · exact ⟨cancel_calm htm hs hr, trivial⟩

theorem CalmPath.shape {b b' : Board} (h : CalmPath reg b b') (hs : Shape reg b) :
    Shape reg b' :=
  System.Path.invariant (I := Shape reg) (fun _ _ _ hs _ hstep => BoardStep.shape hs hstep) h hs

/-- When every run is settled there is nothing left to close. -/
theorem ClosesRun.quiet {run : Id} (h : ClosesRun run w w') (hs : Shape reg w.board) :
    Quiet w w' := by
  refine ⟨h.kept, congrArg₂ Board.mk h.cards ?_⟩
  rcases h.closes with hruns | ⟨hf, hrunning, hruns⟩
  · exact hruns
  · refine hruns.trans ((List.map_congr_left fun r hr => ?_).trans (List.map_id _))
    by_cases hid : r.id = run
    · exfalso
      rcases hs.settled r hr with ⟨_, c, hc, hcr, hu⟩ | ⟨_, ho⟩
      · rw [hf c hc (hcr.trans hid)] at hu
        cases hu
      · rw [hrunning r hr hid] at ho
        exact outcome_ne_running _ ho.symm
    · exact if_neg hid

theorem cancelRun_calm {run : Id} {reason : String} (hk : Keyed w)
    (hs : Shape reg w.board) {u : Unit} (h : Returns (e.cancel run reason) w u w') :
    Calm reg w w' := by
  simp only [WorkflowEngine.cancel, tasksOf, returns_bind, returns_get, returns_pure] at h
  obtain ⟨_, w, ⟨_, _, ⟨rfl, rfl⟩, rfl, rfl⟩, _, w₁, h₁, h₂⟩ := h
  have hcalm : Calm reg w w₁ := cancelWaiting_calm (bound_cancels _) hk h₁
  have hclose := closeIfDone_refines (hcalm.kept.keyed hk) h₂
  exact hcalm.trans (hclose.quiet (hcalm.path.shape hs)).calm

end Autora
