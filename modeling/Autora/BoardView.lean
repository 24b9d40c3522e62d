import Autora.BoardRuns
import Autora.Effects

/-! The board a world shows, and the transactions that do not change it. -/

namespace Autora

open Transactions

def Task.card? (t : Task) : Option Card :=
  t.workflowRunId.map fun run => ⟨t.id, run, t.name, t.dependsOn, t.state⟩

def WorkflowRun.card (r : WorkflowRun) : RunCard := ⟨r.id, r.templateName, r.state⟩

/-- The tasks that belong to a run, and the runs. -/
def World.board (w : World) : Board :=
  ⟨w.tasks.filterMap Task.card?, w.workflowRuns.map WorkflowRun.card⟩

theorem Task.card?_eq_some {t : Task} {c : Card} : t.card? = some c ↔
    t.workflowRunId = some c.run ∧ t.id = c.id ∧ t.name = c.name ∧ t.dependsOn = c.deps ∧
      t.state = c.state := by
  unfold Task.card?
  cases h : t.workflowRunId with
  | none => simp
  | some run =>
    simp only [Option.map_some, Option.some.injEq]
    constructor
    · rintro rfl
      exact ⟨rfl, rfl, rfl, rfl, rfl⟩
    · rintro ⟨rfl, h₁, h₂, h₃, h₄⟩
      rw [h₁, h₂, h₃, h₄]

theorem mem_board {w : World} {c : Card} :
    c ∈ w.board.cards ↔ ∃ t ∈ w.tasks, t.card? = some c := by
  simp [World.board]

theorem World.card_of_task? {w : World} {id run : Id} {t : Task} (h : w.task? id = some t)
    (hr : t.workflowRunId = some run) :
    ∃ c ∈ w.board.cards, t.card? = some c ∧ c.id = id ∧ c.run = run := by
  obtain ⟨hmem, hid⟩ := w.mem_of_task? id h
  refine ⟨⟨t.id, run, t.name, t.dependsOn, t.state⟩, mem_board.mpr ⟨t, hmem, ?_⟩, ?_, hid, rfl⟩
  · simp [Task.card?, hr]
  · simp [Task.card?, hr]

theorem board_setTask {w : World} {id : Id} {f : Task → Task} {g : Card → Card}
    (h : ∀ t, (f t).card? = t.card?.map g) :
    (w.setTask id f).board.cards = w.board.cards.map fun c => if c.id = id then g c else c := by
  simp only [World.board, World.setTask, List.filterMap_map, List.map_filterMap]
  refine List.filterMap_congr fun t _ => ?_
  by_cases ht : t.id = id
  · simp only [Function.comp_apply, ht, if_true, h]
    cases hc : t.card? with
    | none => rfl
    | some c =>
      have hid := (Task.card?_eq_some.mp hc).2.1
      simp [← hid, ht]
  · simp only [Function.comp_apply, ht, if_false]
    cases hc : t.card? with
    | none => rfl
    | some c =>
      have hid := (Task.card?_eq_some.mp hc).2.1
      simp [← hid, ht]

theorem board_quiet {w : World} {id : Id} {f : Task → Task} (h : ∀ t, (f t).card? = t.card?) :
    (w.setTask id f).board = w.board := by
  have hcards : (w.setTask id f).board.cards = w.board.cards := by
    rw [board_setTask (g := fun c => c) (fun t => by simp [h])]
    simp
  exact congrArg₂ Board.mk hcards rfl

theorem board_moved (w : World) (id : Id) (s : TaskState) :
    (w.setTask id (Task.moved s)).board = { w.board with cards := setState id s w.board.cards } := by
  have hcards : (w.setTask id (Task.moved s)).board.cards = setState id s w.board.cards := by
    refine board_setTask (g := Card.moved s) fun t => ?_
    simp only [Task.card?, Task.moved, Option.map_map]
    rfl
  exact congrArg₂ Board.mk hcards rfl

/-! Keys. -/

def Task.key (t : Task) : Id × Option Id := (t.id, t.workflowRunId)

/-- Ids are distinct, and the next one is new among the runs. -/
structure Keyed (w : World) : Prop where
  tasks : (w.tasks.map (·.id)).Nodup
  runs : (w.workflowRuns.map (·.id)).Nodup
  next : ∀ r ∈ w.workflowRuns, r.id < w.nextId

/-- The same rows stand in the tables, whatever they hold now. -/
structure Kept (w w' : World) : Prop where
  tasks : w'.tasks.map Task.key = w.tasks.map Task.key
  runs : w'.workflowRuns.map (·.id) = w.workflowRuns.map (·.id)
  next : w.nextId ≤ w'.nextId

instance : IsPreorder World Kept where
  refl _ := ⟨rfl, rfl, Nat.le_refl _⟩
  trans _ _ _ h h' :=
    ⟨h'.tasks.trans h.tasks, h'.runs.trans h.runs, Nat.le_trans h.next h'.next⟩

theorem Kept.refl (w : World) : Kept w w := Std.Refl.refl w

theorem Kept.trans {w w' w'' : World} (h : Kept w w') (h' : Kept w' w'') : Kept w w'' :=
  IsTrans.trans _ _ _ h h'

theorem map_id_of_key {ts ts' : List Task} (h : ts'.map Task.key = ts.map Task.key) :
    ts'.map (·.id) = ts.map (·.id) := by
  have hh := congrArg (List.map Prod.fst) h
  simpa [List.map_map, Function.comp_def, Task.key] using hh

theorem Kept.keyed {w w' : World} (h : Kept w w') (hk : Keyed w) : Keyed w' where
  tasks := by
    rw [map_id_of_key h.tasks]
    exact hk.tasks
  runs := by
    rw [h.runs]
    exact hk.runs
  next := by
    intro r hr
    have hm : r.id ∈ w'.workflowRuns.map (·.id) := List.mem_map_of_mem hr
    rw [h.runs] at hm
    obtain ⟨r', hr', he⟩ := List.mem_map.mp hm
    have hlt : r.id < w.nextId := he ▸ hk.next r' hr'
    exact Nat.lt_of_lt_of_le hlt h.next

theorem Keyed.task? {w : World} (hk : Keyed w) {t : Task} (ht : t ∈ w.tasks) :
    w.task? t.id = some t :=
  find?_key_of_mem (fun t : Task => t.id) hk.tasks ht

theorem Keyed.workflowRun? {w : World} (hk : Keyed w) {r : WorkflowRun}
    (hr : r ∈ w.workflowRuns) : w.workflowRun? r.id = some r :=
  find?_key_of_mem (fun r : WorkflowRun => r.id) hk.runs hr

theorem Kept.task? {w w' : World} (h : Kept w w') (hk : Keyed w) {id : Id} {t : Task}
    (ht : w.task? id = some t) :
    ∃ t', w'.task? id = some t' ∧ t'.workflowRunId = t.workflowRunId := by
  obtain ⟨hmem, hid⟩ := w.mem_of_task? id ht
  have hm : t.key ∈ w.tasks.map Task.key := List.mem_map_of_mem hmem
  rw [← h.tasks] at hm
  obtain ⟨t', ht', he⟩ := List.mem_map.mp hm
  simp only [Task.key, Prod.mk.injEq] at he
  have hf := (h.keyed hk).task? ht'
  rw [he.1, hid] at hf
  exact ⟨t', hf, he.2⟩

theorem board_nodup {w : World} (hk : Keyed w) : (w.board.cards.map (·.id)).Nodup := by
  have hsub : (w.board.cards.map (·.id)).Sublist (w.tasks.map (·.id)) := by
    simp only [World.board, List.map_filterMap]
    generalize w.tasks = tasks
    induction tasks with
    | nil => exact .slnil
    | cons t ts ih =>
      rw [List.filterMap_cons, List.map_cons]
      cases hc : t.card? with
      | none =>
        simp only [Option.map_none]
        exact ih.cons _
      | some c =>
        have hid := (Task.card?_eq_some.mp hc).2.1
        simp only [Option.map_some, ← hid]
        exact ih.cons_cons _
  exact hsub.nodup hk.tasks

/-- The row of a card. -/
theorem Keyed.card_eq {w : World} (hk : Keyed w) {id : Id} {t : Task} (ht : w.task? id = some t)
    {d : Card} (hd : d ∈ w.board.cards) (hid : d.id = id) : t.card? = some d := by
  obtain ⟨t', ht', hc⟩ := mem_board.mp hd
  have hf := hk.task? ht'
  rw [(Task.card?_eq_some.mp hc).2.1, hid, ht, Option.some.injEq] at hf
  rw [hf]
  exact hc

/-! Transactions that leave the board alone. -/

structure Quiet (w w' : World) : Prop where
  kept : Kept w w'
  board : w'.board = w.board

instance : IsPreorder World Quiet where
  refl w := ⟨Kept.refl w, rfl⟩
  trans _ _ _ h h' := ⟨h.kept.trans h'.kept, h'.board.trans h.board⟩

theorem Quiet.refl (w : World) : Quiet w w := Std.Refl.refl w

theorem Quiet.trans {w w' w'' : World} (h : Quiet w w') (h' : Quiet w' w'') : Quiet w w'' :=
  IsTrans.trans _ _ _ h h'

theorem Logged.quiet {w w' : World} (h : Logged w w') : Quiet w w' := by
  obtain ⟨_, _, _, rfl⟩ := h
  exact ⟨⟨rfl, rfl, Nat.le_refl _⟩, rfl⟩

theorem setRun_quiet (w : World) (id : Id) (f : AgentRun → AgentRun) : Quiet w (w.setRun id f) :=
  ⟨⟨rfl, rfl, Nat.le_refl _⟩, rfl⟩

theorem setTask_kept (w : World) (id : Id) {f : Task → Task} (h : ∀ t, (f t).key = t.key) :
    Kept w (w.setTask id f) := by
  refine ⟨?_, rfl, Nat.le_refl _⟩
  simp only [World.setTask, List.map_map]
  refine List.map_congr_left fun t _ => ?_
  by_cases ht : t.id = id <;> simp [ht, h]

theorem key_of_card? {t t' : Task} (hid : t'.id = t.id)
    (h : t'.workflowRunId = t.workflowRunId) : t'.key = t.key := by
  simp [Task.key, hid, h]

theorem setTask_quiet (w : World) (id : Id) {f : Task → Task} (hid : ∀ t, (f t).id = t.id)
    (hr : ∀ t, (f t).workflowRunId = t.workflowRunId) (h : ∀ t, (f t).card? = t.card?) :
    Quiet w (w.setTask id f) :=
  ⟨setTask_kept w id fun t => key_of_card? (hid t) (hr t), board_quiet h⟩

theorem releaseLease_quiet (id : Id) : Keeps Quiet (releaseLease id) :=
  Keeps.modify fun w => setTask_quiet w id (fun _ => rfl) (fun _ => rfl) fun _ => rfl

theorem finishRun_quiet {id : Id} {target : AgentRunState} (ht : target.isOpen = false)
    (now : Time) : Keeps Quiet (finishRun id target now) := by
  intro w u w' h
  rw [finishRun_spec ht h]
  exact setRun_quiet w id _

theorem abortRun_quiet (id : Id) (reason : AbortReason) (message : Option String) :
    Keeps Quiet (abortRun id reason message) := by
  intro w u w' h
  rw [abortRun_spec h]
  exact setRun_quiet w id _

theorem emitTask_quiet (task : Task) (payload : Payload) (run : Option AgentRun) :
    Keeps Quiet (emitTask task payload run) :=
  (emitTask_logged _ _ _).mono fun _ _ => Logged.quiet

theorem taskActivity_quiet (agent : Agent) (payload : Payload) (task : Task)
    (run : Option AgentRun) : Keeps Quiet (taskActivity agent payload task run) :=
  (taskActivity_logged _ _ _ _).mono fun _ _ => Logged.quiet

theorem setActivityUnlessPaused_quiet (agent : Agent) (payload : Payload)
    (ctx : ActivityContext) : Keeps Quiet (setActivityUnlessPaused agent payload ctx) :=
  (setActivityUnlessPaused_logged _ _ _).mono fun _ _ => Logged.quiet

/-- A task moves: the board moves its card and nothing else. -/
structure Moves (id : Id) (s : TaskState) (w w' : World) : Prop where
  kept : Kept w w'
  board : w'.board = { w.board with cards := setState id s w.board.cards }

theorem setTask_moves (w : World) (id : Id) (s : TaskState) :
    Moves id s w (w.setTask id (Task.moved s)) :=
  ⟨setTask_kept w id fun _ => rfl, board_moved w id s⟩

theorem Moves.after {id : Id} {s : TaskState} {w w' w'' : World} (h : Quiet w w')
    (h' : Moves id s w' w'') : Moves id s w w'' :=
  ⟨h.kept.trans h'.kept, by rw [h'.board, h.board]⟩

theorem Moves.quiet {id : Id} {s : TaskState} {w w' w'' : World} (h : Moves id s w w')
    (h' : Quiet w' w'') : Moves id s w w'' :=
  ⟨h.kept.trans h'.kept, by rw [h'.board, h.board]⟩

end Autora
