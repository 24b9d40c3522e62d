import Autora.BoardView

/-! Cancelling on the board: the engine's hook and the task manager's `cancel`
call each other, and what they do together is a cascade. -/

namespace Autora

open Transactions

/-- The hook for a task that ended: what depends on it is stopped, and its run is
closed if that was its last task. -/
structure Spreads (id run : Id) (b b' : Board) : Prop where
  cascade : Cascade run b b'
  stopped : Stopped id run b'
  completed : Completed run b'

/-- What `on_task_failed` does on the board. -/
def SpreadsFailure (tm : TaskManager) : Prop :=
  ∀ id w u w' t, Keyed w → w.task? id = some t → Returns (tm.failed id) w u w' →
    Kept w w' ∧ (t.workflowRunId = none → w'.board = w.board) ∧
      ∀ run, t.workflowRunId = some run → Spreads id run w.board w'.board

/-- What `cancel` does on the board. -/
def Cancels (tm : TaskManager) : Prop :=
  ∀ id reason w u w', Keyed w → Returns (tm.cancel id reason) w u w' →
    Kept w w' ∧ ∃ t, w.task? id = some t ∧
      (t.state.final = true ∧ w' = w ∨
        t.state.final = false ∧ ((t.workflowRunId = none ∧ w'.board = w.board) ∨
          ∃ c ∈ w.board.cards, t.card? = some c ∧ Ends c .cancelled w.board w'.board))

/-! A task that ends outside a claim. -/

theorem setState_standalone {w : World} (hk : Keyed w) {id : Id} {t : Task}
    (ht : w.task? id = some t) (hr : t.workflowRunId = none) (s : TaskState) :
    setState id s w.board.cards = w.board.cards := by
  refine (List.map_congr_left fun d hd => ?_).trans (List.map_id _)
  refine if_neg fun hid => ?_
  have hc := hk.card_eq ht hd hid
  rw [Task.card?, hr] at hc
  cases hc

/-- A task that moved to its end and whose failure was spread has ended on the board. -/
theorem ends_of_moves {tm : TaskManager} (htm : SpreadsFailure tm) {id : Id} {s : TaskState}
    {w w₁ w' : World} {t : Task} (hk : Keyed w) (ht : w.task? id = some t)
    (hm : Moves id s w w₁) {u : Unit} (h : Returns (tm.failed id) w₁ u w') :
    Kept w w' ∧ (t.workflowRunId = none → w'.board = w.board) ∧
      ∀ c, t.card? = some c → Ends c s w.board w'.board := by
  obtain ⟨t₁, ht₁, hrun⟩ := hm.kept.task? hk ht
  obtain ⟨hkept, hnone, hsome⟩ := htm id w₁ u w' t₁ (hm.kept.keyed hk) ht₁ h
  refine ⟨hm.kept.trans hkept, fun hr => ?_, fun c hc => ?_⟩
  · rw [hnone (hrun.trans hr), hm.board]
    exact congrArg₂ Board.mk (setState_standalone hk ht hr s) rfl
  · obtain ⟨hcr, hcid, _⟩ := Task.card?_eq_some.mp hc
    obtain ⟨_, hid⟩ := w.mem_of_task? id ht
    obtain ⟨hcas, hst, hdone⟩ := hsome c.run (hrun.trans hcr)
    rw [hm.board] at hcas
    have he : id = c.id := hid.symm.trans hcid
    subst he
    exact ⟨hcas, hst, hdone⟩

theorem cancel_refines {tm : TaskManager} (htm : SpreadsFailure tm) : Cancels tm := by
  intro id reason w u w' hk h
  simp only [TaskManager.cancel, returns_bind (m := theTask _), returns_theTask] at h
  obtain ⟨t, _, ⟨ht, rfl⟩, h⟩ := h
  have hid := (World.mem_of_task? _ id ht).2
  rcases returns_ite.mp h with ⟨hf, h⟩ | ⟨hf, h⟩
  · obtain ⟨_, rfl⟩ := returns_pure.mp h
    exact ⟨Kept.refl _, t, ht, .inl ⟨hf, rfl⟩⟩
  · simp only [returns_bind, returns_get, returns_transitionTask, hid] at h
    obtain ⟨_, _, ⟨rfl, rfl⟩, _, w₁, h₁, waiting, w₂, h₂, _, w₃, h₃, _, _, ⟨_, _, _, rfl⟩,
      _, w₅, h₅, _, w₆, h₆, _, w₇, h₇, h₈⟩ := h
    have hq₁ : Quiet _ w₁ :=
      Keeps.forSome (fun run _ => abortRun_quiet run.id _ _) _ _ _ h₁
    have hq₂ : Quiet w₁ w₂ := (agentsWaitingOn_logged t _ _ _ h₂).quiet
    have hq₃ : Quiet w₂ w₃ := releaseLease_quiet _ _ _ _ h₃
    have hq₅ : Quiet _ w₅ := emitTask_quiet _ _ _ _ _ _ h₅
    have hq₆ : Quiet w₅ w₆ := by
      refine Keeps.forSome (fun run _ => ?_) _ _ _ h₆
      exact (Keeps.get.bind fun _ => Keeps.orRaise).bind fun agent => taskActivity_quiet _ _ _ _
    have hq₇ : Quiet w₆ w₇ :=
      Keeps.forEach _ (fun a _ => setActivityUnlessPaused_quiet _ _ _) _ _ _ h₇
    have hm : Moves id .cancelled _ w₇ :=
      ((setTask_moves w₃ id .cancelled).after ((hq₁.trans hq₂).trans hq₃)).quiet
        ((hq₅.trans hq₆).trans hq₇)
    obtain ⟨hkept, hnone, hsome⟩ := ends_of_moves htm hk ht hm h₈
    refine ⟨hkept, t, ht, .inr ⟨by simpa using hf, ?_⟩⟩
    cases hr : t.workflowRunId with
    | none => exact .inl ⟨rfl, hnone hr⟩
    | some run =>
      obtain ⟨c, hc, hcard, _⟩ := World.card_of_task? ht hr
      exact .inr ⟨c, hc, hcard, hsome c hcard⟩

/-! Cancelling one task after another. -/

/-- The cancellations of one run so far. -/
structure Cancelling (run : Id) (w w' : World) : Prop where
  kept : Kept w w'
  cascade : Cascade run w.board w'.board

instance (run : Id) : IsPreorder World (Cancelling run) where
  refl w := ⟨Kept.refl w, Cascade.refl run _⟩
  trans _ _ _ h h' := ⟨h.kept.trans h'.kept, h.cascade.trans h'.cascade⟩

theorem Cancelling.refl (run : Id) (w : World) : Cancelling run w w := Std.Refl.refl w

theorem Cascade.final {run : Id} {b b' : Board} (h : Cascade run b b') {d' : Card}
    (hd : d' ∈ b'.cards) : d'.state.final = true ∨ d' ∈ b.cards := by
  obtain ⟨doomed, hs⟩ := h
  rw [hs.cards, mem_doom] at hd
  obtain ⟨d, hd, rfl⟩ := hd
  by_cases hin : d.id ∈ doomed
  · rw [if_pos hin]
    exact .inl rfl
  · rw [if_neg hin]
    exact .inr hd

/-- The card of `id` is final. -/
def Ended (id : Id) (w : World) : Prop := ∀ d ∈ w.board.cards, d.id = id → d.state.final = true

theorem Ended.later {run id : Id} {w w' : World} (h : Ended id w) (hc : Cancelling run w w') :
    Ended id w' := by
  intro d hd hid
  rcases hc.cascade.final hd with hf | hd
  · exact hf
  · exact h d hd hid

theorem Ends.cascade_cancelled {c : Card} {b b' : Board} (hn : (b.cards.map (·.id)).Nodup)
    (hc : c ∈ b.cards) (hu : c.state.final = false) (h : Ends c .cancelled b b') :
    Cascade c.run b b' := by
  obtain ⟨doomed, hs⟩ := h.cascade
  have hcards : (setState c.id .cancelled b.cards) = doom [c.id] b.cards := setState_cancelled _ _
  have hother : ∀ d ∈ b.cards, d.id ∉ [c.id] → d ∈ setState c.id .cancelled b.cards := by
    intro d hd hne
    exact mem_setState_other hd (by simpa using hne)
  refine ⟨[c.id] ++ doomed, ?_, hs.closes, fun d hd hin => ?_, fun d hd hin => ?_,
    fun d hd hin e he her hdep => ?_⟩
  · rw [hs.cards, ← doom_doom]
    exact congrArg (doom doomed) hcards
  · by_cases hx : d.id ∈ [c.id]
    · rw [eq_of_id hn hd hc (by simpa using hx)]
    · exact hs.inRun d (hother d hd hx) ((List.mem_append.mp hin).resolve_left hx)
  · by_cases hx : d.id ∈ [c.id]
    · rw [eq_of_id hn hd hc (by simpa using hx)]
      exact hu
    · exact hs.unfinished d (hother d hd hx) ((List.mem_append.mp hin).resolve_left hx)
  · by_cases hex : e.id ∈ [c.id]
    · exact .inr (List.mem_append_left _ hex)
    by_cases hed : e.id ∈ doomed
    · exact .inr (List.mem_append_right _ hed)
    left
    by_cases hx : d.id ∈ [c.id]
    · have hdc : d.id = c.id := by simpa using hx
      rw [hdc] at hdep
      refine h.stopped e ?_ her hdep
      rw [hs.cards, mem_doom]
      exact ⟨e, hother e he hex, if_neg hed⟩
    · have hd' := hs.downstream d (hother d hd hx) ((List.mem_append.mp hin).resolve_left hx) e
        (hother e he hex) her hdep
      exact hd'.resolve_right hed

/-- Cancelling one task of a run. -/
theorem cancel_one {tm : TaskManager} (htm : Cancels tm) {id run : Id} {reason : String}
    {w w' : World} {t : Task} (hk : Keyed w) (ht : w.task? id = some t)
    (hr : t.workflowRunId = some run) {u : Unit} (h : Returns (tm.cancel id reason) w u w') :
    Cancelling run w w' ∧ Ended id w' := by
  obtain ⟨hkept, t', ht', hcases⟩ := htm id reason w u w' hk h
  rw [ht, Option.some.injEq] at ht'
  subst ht'
  rcases hcases with ⟨hf, rfl⟩ | ⟨hu, ⟨hnone, _⟩ | ⟨c, hc, hcard, he⟩⟩
  · refine ⟨Cancelling.refl run _, fun d hd hid => ?_⟩
    have hcard := hk.card_eq ht hd hid
    rw [← (Task.card?_eq_some.mp hcard).2.2.2.2]
    exact hf
  · rw [hr] at hnone
    cases hnone
  · obtain ⟨hcr, hcid, _, _, hcs⟩ := Task.card?_eq_some.mp hcard
    rw [hr, Option.some.injEq] at hcr
    have hn := board_nodup hk
    have hid := (w.mem_of_task? id ht).2
    refine ⟨⟨hkept, ?_⟩, fun d hd hdid => ?_⟩
    · rw [hcr]
      exact he.cascade_cancelled hn hc (hcs ▸ hu)
    · have hself := he.self hc rfl
      have hn' := board_nodup (hkept.keyed hk)
      have hdc : d.id = (c.moved .cancelled).id := by
        rw [hdid, Card.moved_id, ← hcid, hid]
      rw [eq_of_id hn' hd hself hdc]
      rfl

/-- The tasks a loop of cancellations goes through are rows of the run. -/
def RowsOf (run : Id) (ts : List Task) (w : World) : Prop :=
  Keyed w ∧ ∀ t ∈ ts, ∃ t', w.task? t.id = some t' ∧ t'.workflowRunId = some run

theorem RowsOf.later {run : Id} {ts : List Task} {w w' : World} (h : RowsOf run ts w)
    (hk : Kept w w') : RowsOf run ts w' := by
  refine ⟨hk.keyed h.1, fun t ht => ?_⟩
  obtain ⟨t₁, ht₁, hr⟩ := h.2 t ht
  obtain ⟨t₂, ht₂, hr₂⟩ := hk.task? h.1 ht₁
  exact ⟨t₂, ht₂, hr₂.trans hr⟩

theorem rowsOf_tasksOf {w : World} (hk : Keyed w) (run : Id) : RowsOf run (w.tasksOf run) w := by
  refine ⟨hk, fun t ht => ?_⟩
  obtain ⟨hmem, hr⟩ := List.mem_filter.mp ht
  exact ⟨t, hk.task? hmem, by simpa using hr⟩

theorem RowsOf.mono {run : Id} {ts ts' : List Task} {w : World} (h : RowsOf run ts w)
    (hs : ∀ t ∈ ts', t ∈ ts) : RowsOf run ts' w :=
  ⟨h.1, fun t ht => h.2 t (hs t ht)⟩

theorem cancelWaiting_refines {tm : TaskManager} (htm : Cancels tm) {run : Id}
    {waiting : List Task} {reason : String} {w w' : World} (hrows : RowsOf run waiting w)
    {u : Unit} (h : Returns (WorkflowEngine.cancelWaiting tm waiting reason) w u w') :
    Cancelling run w w' ∧ ∀ t ∈ waiting, Ended t.id w' := by
  refine forEach_all (R := Cancelling run) (I := RowsOf run waiting)
    (Q := fun t w => Ended t.id w) (fun t ht s s' v hI hr => ?_)
    (fun s s' hI hR => hI.later hR.kept)
    (fun t s s' (hq : Ended t.id s) (hR : Cancelling run s s') => hq.later hR) hrows h
  obtain ⟨t₁, ht₁, hrun⟩ := hI.2 t ht
  have hid := (World.mem_of_task? _ t.id ht₁).2
  simp only [returns_bind, returns_theTask] at hr
  obtain ⟨t₂, _, ⟨ht₂, rfl⟩, hr⟩ := hr
  rw [ht₁, Option.some.injEq] at ht₂
  subst ht₂
  rcases returns_ite.mp hr with ⟨hf, hr⟩ | ⟨_, hr⟩
  · obtain ⟨_, rfl⟩ := returns_pure.mp hr
    refine ⟨Cancelling.refl run _, fun d hd hdid => ?_⟩
    have hcard := hI.1.card_eq ht₁ hd hdid
    rw [← (Task.card?_eq_some.mp hcard).2.2.2.2]
    exact hf
  · rw [hid] at hr
    exact cancel_one htm hI.1 ht₁ hrun hr

end Autora
