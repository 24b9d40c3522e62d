import Autora.Cascades

/-! Closing a run, and the hook for a task that failed or was cancelled: the
engine bound to its own task manager spreads failures as the board says. -/

namespace Autora

open Transactions

/-! The tasks of a run, as rows and as cards. -/

theorem mem_tasksOf {w : World} {run : Id} {t : Task} :
    t ∈ w.tasksOf run ↔ t ∈ w.tasks ∧ t.workflowRunId = some run := by
  simp [World.tasksOf]

/-- A predicate on states holds of all the tasks of a run iff it holds of its cards. -/
theorem forall_tasksOf {w : World} {run : Id} {P : TaskState → Prop} :
    (∀ t ∈ w.tasksOf run, P t.state) ↔ ∀ c ∈ w.board.cards, c.run = run → P c.state := by
  constructor
  · intro h c hc hr
    obtain ⟨t, ht, hcard⟩ := mem_board.mp hc
    obtain ⟨htr, _, _, _, hs⟩ := Task.card?_eq_some.mp hcard
    rw [← hs]
    exact h t (mem_tasksOf.mpr ⟨ht, hr ▸ htr⟩)
  · intro h t ht
    obtain ⟨hmem, hr⟩ := mem_tasksOf.mp ht
    have hcard : t.card? = some ⟨t.id, run, t.name, t.dependsOn, t.state⟩ := by
      simp [Task.card?, hr]
    exact h _ (mem_board.mpr ⟨t, hmem, hcard⟩) rfl

theorem allFinal_iff {w : World} {run : Id} : AllFinal w.board.cards run ↔
    ∀ t ∈ w.tasksOf run, t.state.final = true :=
  (forall_tasksOf (P := fun s => s.final = true)).symm

theorem outcome_succeeded_iff {w : World} {run : Id} :
    outcome (ofRun w.board.cards run) = .succeeded ↔
      ∀ t ∈ w.tasksOf run, t.state = .succeeded := by
  rw [outcome_eq_succeeded, forall_tasksOf (P := fun s => s = .succeeded)]
  constructor
  · exact fun h c hc hr => h c (mem_ofRun.mpr ⟨hc, hr⟩)
  · exact fun h c hc => h c (mem_ofRun.mp hc).1 (mem_ofRun.mp hc).2

theorem outcome_failed_iff {w : World} {run : Id} :
    outcome (ofRun w.board.cards run) = .failed ↔
      ∃ t ∈ w.tasksOf run, t.state = .failed := by
  rw [outcome_eq_failed, ← not_iff_not]
  push Not
  rw [forall_tasksOf (P := fun s => s ≠ .failed)]
  constructor
  · exact fun h c hc hr => h c (mem_ofRun.mpr ⟨hc, hr⟩)
  · exact fun h c hc => h c (mem_ofRun.mp hc).1 (mem_ofRun.mp hc).2

theorem outcome_cancelled {cards : List Card} (h : outcome cards ≠ .succeeded)
    (h' : outcome cards ≠ .failed) : outcome cards = .cancelled := by
  have hr := outcome_ne_running cards
  revert h h' hr
  cases outcome cards <;> simp

/-! Closing. -/

theorem board_setWorkflowRun {w : World} {id : Id} {s : WorkflowRunState}
    {f : WorkflowRun → WorkflowRun} (hf : ∀ r, (f r).card = { r.card with state := s }) :
    (w.setWorkflowRun id f).board = { w.board with
      runs := w.board.runs.map fun r => if r.id = id then { r with state := s } else r } := by
  simp only [World.board, World.setWorkflowRun, List.map_map]
  refine congrArg₂ Board.mk rfl (List.map_congr_left fun r _ => ?_)
  by_cases h : r.id = id
  · simp only [Function.comp_apply, h, if_true, hf]
    exact (if_pos h).symm
  · simp only [Function.comp_apply, h, if_false]
    exact (if_neg h).symm

theorem setWorkflowRun_kept (w : World) (id : Id) {f : WorkflowRun → WorkflowRun}
    (hf : ∀ r, (f r).id = r.id) : Kept w (w.setWorkflowRun id f) := by
  refine ⟨rfl, ?_, Nat.le_refl _⟩
  simp only [World.setWorkflowRun, List.map_map]
  refine List.map_congr_left fun r _ => ?_
  by_cases h : r.id = id <;> simp [h, hf]

/-- A run is closed with the outcome of its tasks, or left alone. -/
structure ClosesRun (run : Id) (w w' : World) : Prop where
  kept : Kept w w'
  cards : w'.board.cards = w.board.cards
  closes : Closes run w.board.cards w.board.runs w'.board.runs
  completed : Completed run w'.board

theorem closesRun_of_transition {run : Id} {r : WorkflowRun} {s : WorkflowRunState} {now : Time}
    {payload : Payload} {w w₁ w' : World} (hk : Keyed w) (hr : w.workflowRun? run = some r)
    (hrun : r.state = .running) (hf : AllFinal w.board.cards run)
    (hs : outcome (ofRun w.board.cards run) = s) {u v : Unit}
    (h₁ : Returns (transitionWorkflowRun r s now) w u w₁)
    (h₂ : Returns (emitWorkflowRun r payload) w₁ v w') : ClosesRun run w w' := by
  obtain ⟨hmem, hid⟩ := w.mem_of_workflowRun? run hr
  simp only [transitionWorkflowRun, returns_bind, returns_checked,
    returns_updateWorkflowRun] at h₁
  obtain ⟨_, w, ⟨_, rfl⟩, rfl⟩ := h₁
  have hq := (emitWorkflowRun_logged _ _ _ _ _ h₂).quiet
  have hb : (w.setWorkflowRun r.id fun x => { x with state := s, finishedAt := some now }).board =
      { w.board with
        runs := w.board.runs.map fun x => if x.id = r.id then { x with state := s } else x } :=
    board_setWorkflowRun fun _ => rfl
  have hruns : w'.board.runs = w.board.runs.map fun x =>
      if x.id = run then closeRun w.board.cards x else x := by
    rw [hq.board, hb]
    refine List.map_congr_left fun x _ => ?_
    rw [hid]
    by_cases hx : x.id = run
    · rw [if_pos hx, if_pos hx, closeRun, hx, hs]
    · rw [if_neg hx, if_neg hx]
  have hne : s ≠ .running := hs ▸ outcome_ne_running _
  have hkept : Kept w (w.setWorkflowRun r.id fun x =>
      { x with state := s, finishedAt := some now }) := setWorkflowRun_kept w r.id fun _ => rfl
  refine ⟨hkept.trans hq.kept, by rw [hq.board, hb], .inr ?_, ?_⟩
  · refine ⟨hf, fun x hx hxid => ?_, hruns⟩
    obtain ⟨y, hy, rfl⟩ := List.mem_map.mp hx
    have hyr : y = r := List.inj_on_of_nodup_map hk.runs hy hmem (hxid.trans hid.symm)
    rw [hyr]
    exact hrun
  · intro _ x hx hxid
    rw [hruns] at hx
    obtain ⟨y, _, rfl⟩ := List.mem_map.mp hx
    by_cases hy : y.id = run
    · rw [if_pos hy]
      exact outcome_ne_running _
    · rw [if_neg hy] at hxid
      exact absurd hxid hy

theorem closeIfDone_refines {e : WorkflowEngine} {run : Id} {w w' : World} (hk : Keyed w)
    {u : Unit} (h : Returns (e.closeIfDone run) w u w') : ClosesRun run w w' := by
  simp only [WorkflowEngine.closeIfDone, returns_bind (m := get), returns_get] at h
  obtain ⟨_, w, ⟨rfl, rfl⟩, h⟩ := h
  cases hr : w.workflowRun? run with
  | none =>
    rw [hr] at h
    obtain ⟨_, rfl⟩ := returns_pure.mp h
    refine ⟨Kept.refl _, rfl, .inl rfl, fun _ x hx hid => ?_⟩
    obtain ⟨y, hy, rfl⟩ := List.mem_map.mp hx
    have hf := hk.workflowRun? hy
    rw [show y.id = run from hid, hr] at hf
    cases hf
  | some r =>
    rw [hr] at h
    obtain ⟨hmem, hid⟩ := w.mem_of_workflowRun? run hr
    rcases returns_ite.mp h with ⟨hstop, h⟩ | ⟨hgo, h⟩
    · -- already closed, or something is unfinished
      obtain ⟨_, rfl⟩ := returns_pure.mp h
      refine ⟨Kept.refl _, rfl, .inl rfl, fun hf x hx hxid => ?_⟩
      obtain ⟨y, hy, rfl⟩ := List.mem_map.mp hx
      have hyr : y = r := List.inj_on_of_nodup_map hk.runs hy hmem
        ((show y.id = run from hxid).trans hid.symm)
      rcases hstop with hfin | ⟨t, ht, hu⟩
      · rw [hyr]
        exact WorkflowRunState.final_iff.mp hfin
      · rw [allFinal_iff.mp hf t ht] at hu
        cases hu
    · rw [not_or] at hgo
      obtain ⟨hrun, hall⟩ := hgo
      have hrun : r.state = .running := by
        by_contra hne
        exact hrun (WorkflowRunState.final_iff.mpr hne)
      have hf : AllFinal w.board.cards run := by
        refine allFinal_iff.mpr fun t ht => ?_
        by_contra hne
        exact hall ⟨t, ht, by simpa using hne⟩
      simp only [returns_bind (m := clock), returns_clock] at h
      obtain ⟨now, w, ⟨_, rfl⟩, h⟩ := h
      rcases returns_ite.mp h with ⟨hsuc, h⟩ | ⟨hsuc, h⟩
      · obtain ⟨_, w₁, h₁, h₂⟩ := returns_bind.mp h
        exact closesRun_of_transition hk hr hrun hf (outcome_succeeded_iff.mpr hsuc) h₁ h₂
      · split at h
        · next first hfirst =>
          obtain ⟨_, w₁, h₁, h₂⟩ := returns_bind.mp h
          have hfail : outcome (ofRun w.board.cards run) = .failed :=
            outcome_failed_iff.mpr ⟨first, List.mem_of_find?_eq_some hfirst,
              by simpa using List.find?_some hfirst⟩
          exact closesRun_of_transition hk hr hrun hf hfail h₁ h₂
        · next hnone =>
          obtain ⟨_, w₁, h₁, h₂⟩ := returns_bind.mp h
          have hcan : outcome (ofRun w.board.cards run) = .cancelled := by
            refine outcome_cancelled (fun ho => hsuc (outcome_succeeded_iff.mp ho)) fun ho => ?_
            obtain ⟨t, ht, hts⟩ := outcome_failed_iff.mp ho
            have hh := List.find?_eq_none.mp hnone t ht
            simp [hts] at hh
          exact closesRun_of_transition hk hr hrun hf hcan h₁ h₂

theorem ClosesRun.cascade {run : Id} {w w' : World} (h : ClosesRun run w w') :
    Cascade run w.board w'.board := by
  refine ⟨[], ?_, ?_, by simp, by simp, by simp⟩
  · rw [h.cards, doom_nil]
  · rw [h.cards]
    exact h.closes

/-! The failure hook. -/

/-- After cancellations that ended whatever depends on `id`, and the closing that
follows, the failure of `id` has spread. -/
theorem spreads_of_cancelling {id run : Id} {w w₁ w' : World} (h : Cancelling run w w₁)
    (hended : ∀ t ∈ w.tasksOf run, id ∈ t.dependsOn → Ended t.id w₁)
    (hclose : ClosesRun run w₁ w') : Spreads id run w.board w'.board := by
  refine ⟨h.cascade.trans hclose.cascade, fun d hd hdr hdep => ?_, hclose.completed⟩
  rw [hclose.cards] at hd
  obtain ⟨f, hf⟩ := h.cascade.restates.cards
  have hd' := hd
  rw [hf] at hd'
  obtain ⟨d₀, hd₀, heq⟩ := List.mem_map.mp hd'
  obtain ⟨t, ht, hcard⟩ := mem_board.mp hd₀
  obtain ⟨htr, htid, _, htdeps, _⟩ := Task.card?_eq_some.mp hcard
  have hid : d.id = t.id := by
    rw [← heq]
    exact htid.symm
  have hmem : t ∈ w.tasksOf run := by
    refine mem_tasksOf.mpr ⟨ht, ?_⟩
    rw [htr, ← hdr, ← heq]
    rfl
  have hdt : id ∈ t.dependsOn := by
    rw [htdeps]
    rw [← heq] at hdep
    exact hdep
  exact hended t hmem hdt d hd hid

theorem onTaskFailed_refines {e : WorkflowEngine} {tm : TaskManager} (htm : Cancels tm)
    {id : Id} {w w' : World} {t : Task} (hk : Keyed w) (ht : w.task? id = some t) {u : Unit}
    (h : Returns (e.onTaskFailed tm id) w u w') :
    Kept w w' ∧ (t.workflowRunId = none → w'.board = w.board) ∧
      ∀ run, t.workflowRunId = some run → Spreads id run w.board w'.board := by
  simp only [WorkflowEngine.onTaskFailed, returns_bind (m := theTask _), returns_theTask] at h
  obtain ⟨t', w, ⟨ht', rfl⟩, h⟩ := h
  rw [ht, Option.some.injEq] at ht'
  subst ht'
  cases hr : t.workflowRunId with
  | none =>
    rw [hr] at h
    obtain ⟨_, rfl⟩ := returns_pure.mp h
    refine ⟨Kept.refl _, fun _ => rfl, fun run hrun => ?_⟩
    cases hrun
  | some run =>
    rw [hr] at h
    simp only [tasksOf, returns_bind, returns_get, returns_pure] at h
    obtain ⟨siblings, w, ⟨_, _, ⟨rfl, rfl⟩, rfl, rfl⟩, _, w₁, h₁, h₂⟩ := h
    have hloop : Cancelling run w w₁ ∧ ∀ d ∈ w.tasksOf run,
        (id ∈ d.dependsOn → Ended d.id w₁) := by
      refine forEach_all (R := Cancelling run)
        (I := fun s => RowsOf run (w.tasksOf run) s ∧ Cancelling run w s)
        (Q := fun d s => id ∈ d.dependsOn → Ended d.id s) (fun d hd s s' v hI hs => ?_)
        (fun s s' hI hR => ⟨hI.1.later hR.kept, IsTrans.trans _ _ _ hI.2 hR⟩)
        (fun d s s' (hq : id ∈ d.dependsOn → Ended d.id s) (hR : Cancelling run s s') hdep =>
          (hq hdep).later hR) ⟨rowsOf_tasksOf hk run, Cancelling.refl run w⟩ h₁
      obtain ⟨d₁, hd₁, hrun⟩ := hI.1.2 d hd
      have hdid := (World.mem_of_task? _ d.id hd₁).2
      simp only [returns_bind (m := theTask _), returns_theTask] at hs
      obtain ⟨d₂, s, ⟨hd₂, rfl⟩, hs⟩ := hs
      rw [hd₁, Option.some.injEq] at hd₂
      subst hd₂
      -- the dependencies of a sibling do not change while tasks are cancelled
      have hdeps : d₁.dependsOn = d.dependsOn := by
        obtain ⟨c₁, hc₁, hcard₁, hcid₁, _⟩ := World.card_of_task? hd₁ hrun
        obtain ⟨f, hf⟩ := hI.2.cascade.restates.cards
        rw [hf] at hc₁
        obtain ⟨c, hc, rfl⟩ := List.mem_map.mp hc₁
        obtain ⟨hmem, _⟩ := mem_tasksOf.mp hd
        have hcard := hk.card_eq (hk.task? hmem) hc hcid₁
        rw [(Task.card?_eq_some.mp hcard₁).2.2.2.1, (Task.card?_eq_some.mp hcard).2.2.2.1]
        rfl
      rcases returns_ite.mp hs with ⟨_, hs⟩ | ⟨hno, hs⟩
      · rw [hdid] at hs
        obtain ⟨hcan, hend⟩ := cancel_one htm hI.1.1 hd₁ hrun hs
        exact ⟨hcan, fun _ => hend⟩
      · obtain ⟨_, rfl⟩ := returns_pure.mp hs
        refine ⟨Cancelling.refl run _, fun hdep c hc hcid => ?_⟩
        have hcard := hI.1.1.card_eq hd₁ hc hcid
        by_contra hnf
        refine hno ⟨hdeps ▸ hdep, ?_⟩
        rw [(Task.card?_eq_some.mp hcard).2.2.2.2]
        simpa using hnf
    obtain ⟨hcan, hended⟩ := hloop
    have hclose := closeIfDone_refines (hcan.kept.keyed hk) h₂
    refine ⟨hcan.kept.trans hclose.kept, fun hnone => ?_, fun run' hrun' => ?_⟩
    · cases hnone
    · rw [Option.some.injEq] at hrun'
      subst hrun'
      exact spreads_of_cancelling hcan hended hclose

/-! The task manager bound to the engine. -/

theorem manager_refines (e : WorkflowEngine) (n : Nat) :
    SpreadsFailure (e.manager n) ∧ Cancels (e.manager n) := by
  induction n with
  | zero =>
    have hf : SpreadsFailure (e.manager 0) :=
      fun id w u w' t _ _ h => (returns_throw h).elim
    exact ⟨hf, cancel_refines hf⟩
  | succ n ih =>
    have hf : SpreadsFailure (e.manager (n + 1)) :=
      fun id w u w' t hk ht h => onTaskFailed_refines ih.2 hk ht h
    exact ⟨hf, cancel_refines hf⟩

theorem bound_spreads (e : WorkflowEngine) : SpreadsFailure e.bound := by
  intro id w u w' t hk ht h
  simp only [TaskManager.failed, WorkflowEngine.bound, returns_bind (m := get), returns_get] at h
  obtain ⟨_, _, ⟨rfl, rfl⟩, h⟩ := h
  exact onTaskFailed_refines (manager_refines e _).2 hk ht h

theorem bound_cancels (e : WorkflowEngine) : Cancels e.bound := cancel_refines (bound_spreads e)

end Autora
