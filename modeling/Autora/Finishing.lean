import Autora.Rounds

/-! A task that succeeds is one step of the board: the engine carries on, stops
what waited for it, or starts another round. Which of these it is can be read
off the state before. -/

namespace Autora

open Transactions

/-- What the engine makes of a task that succeeded. -/
inductive Verdict where
  | carryOn
  | halted (halt : Halt)
  | exhausted (loop : Loop)
  | again (run : WorkflowRun) (template : WorkflowTemplate) (loop : Loop)

namespace WorkflowEngine

def haltAt (e : WorkflowEngine) (w : World) (task : Task) (runId : Id) : Option Halt := do
  let run ← w.workflowRun? runId
  let template ← e.templates.get run.templateName
  template.haltOf task

def loopAt (e : WorkflowEngine) (w : World) (task : Task) (runId : Id) :
    Option (WorkflowRun × WorkflowTemplate × Loop) := do
  let run ← w.workflowRun? runId
  let template ← e.templates.get run.templateName
  let loop ← template.loopOf task
  pure (run, template, loop)

def verdict (e : WorkflowEngine) (w : World) (task : Task) : Verdict :=
  match task.workflowRunId with
  | none => .carryOn
  | some runId => match e.haltAt w task runId with
    | some halt => .halted halt
    | none => match e.loopAt w task runId with
      | none => .carryOn
      | some (run, template, loop) =>
        if roundsOf (w.tasksOf runId) loop.check ≥ loop.maxRounds then .exhausted loop
        else .again run template loop

end WorkflowEngine

def Verdict.event (id : Id) : Verdict → Event
  | .carryOn => .finish id
  | .halted _ => .stop id
  | .exhausted _ => .stop id
  | .again _ _ loop => .round id loop

/-- What the hook for a finished task does on the board. -/
def Verdict.Effect (id run : Id) (b b' : Board) : Verdict → Prop
  | .carryOn => b'.cards = b.cards.map (unlockCard run id b.cards) ∧
      Closes run b'.cards b.runs b'.runs ∧ Completed run b'
  | .halted _ => Spreads id run b b'
  | .exhausted _ => Spreads id run b b'
  | .again r t loop => ∃ new again, r.id = run ∧ r.card ∈ b.runs ∧
      Added t.toTemplateSpec (t.inside loop) (ofRun b.cards run) run b.cards new ∧
      again ∈ new ∧ again.name = loop.check ∧
      b' = ⟨b.cards.map (rewireCard run id again.id) ++ new, b.runs⟩

/-! What waited for the task waits for its new copy. -/

def rewiredTo (old new : Id) (pre : List Id) (d : Card) : Card :=
  if d.id ∈ pre then { d with deps := WorkflowEngine.rewire old new d.deps } else d

theorem rewiredTo_id (old new : Id) (pre : List Id) (d : Card) :
    (rewiredTo old new pre d).id = d.id := by
  unfold rewiredTo
  split <;> rfl

theorem rewiring_refines {old new : Id} {waiting : List Task} {w w' : World}
    (hn : (waiting.map (·.id)).Nodup) {u : Unit}
    (h : Returns (forEach (fun t => updateTask t.id fun t => { t with
      dependsOn := WorkflowEngine.rewire old new t.dependsOn }) waiting) w u w') :
    Kept w w' ∧
      w'.board = ⟨w.board.cards.map (rewiredTo old new (waiting.map (·.id))), w.board.runs⟩ := by
  refine forEach_prefix (I := fun pre s => Kept w s ∧ s.board =
    ⟨w.board.cards.map (rewiredTo old new (pre.map (·.id))), w.board.runs⟩)
    (fun pre x post he s v t hI hs => ?_) ⟨Kept.refl w, ?_⟩ h
  · obtain ⟨hkept, hboard⟩ := hI
    rw [returns_updateTask.mp hs]
    have hxpre : x.id ∉ pre.map (·.id) := by
      rw [he, List.map_append, List.nodup_append] at hn
      intro hin
      exact hn.2.2 _ hin _ (by simp) rfl
    refine ⟨hkept.trans (setTask_kept s x.id fun _ => rfl), ?_⟩
    have hcards : (s.setTask x.id fun t => { t with
          dependsOn := WorkflowEngine.rewire old new t.dependsOn }).board.cards =
        s.board.cards.map fun c => if c.id = x.id then
          { c with deps := WorkflowEngine.rewire old new c.deps } else c := by
      refine board_setTask (g := fun c => { c with
        deps := WorkflowEngine.rewire old new c.deps }) fun t => ?_
      cases hr : t.workflowRunId <;> simp [Task.card?, hr]
    refine congrArg₂ Board.mk (hcards.trans ?_) (congrArg Board.runs hboard)
    rw [hboard, List.map_map]
    refine List.map_congr_left fun d _ => ?_
    simp only [Function.comp_apply, rewiredTo_id]
    by_cases hd : d.id = x.id
    · have hdpre : rewiredTo old new (pre.map (·.id)) d = d := if_neg (hd ▸ hxpre)
      rw [if_pos hd, hdpre]
      exact (if_pos (by simp [hd])).symm
    · rw [if_neg hd]
      simp only [rewiredTo, hd, List.map_append, List.mem_append, List.map_cons,
        List.map_nil, List.mem_singleton, or_false]
  · refine congrArg₂ Board.mk ?_ rfl
    refine ((List.map_congr_left fun d _ => ?_).trans (List.map_id _)).symm
    exact if_neg (by simp)

theorem mem_waiting {w : World} (hk : Keyed w) {run : Id} {task : Task} {d : Card}
    (hd : d ∈ w.board.cards) : d.id ∈ (waitingFor (w.tasksOf run) task).map (·.id) ↔
      d.run = run ∧ task.id ∈ d.deps := by
  simp only [waitingFor, List.mem_map, List.mem_filter, mem_tasksOf, decide_eq_true_eq]
  constructor
  · rintro ⟨t, ⟨⟨ht, hr⟩, hdep⟩, hid⟩
    have hcard := hk.card_eq (hk.task? ht) hd hid.symm
    obtain ⟨hcr, _, _, hcd, _⟩ := Task.card?_eq_some.mp hcard
    rw [hr, Option.some.injEq] at hcr
    exact ⟨hcr.symm, hcd ▸ hdep⟩
  · rintro ⟨hr, hdep⟩
    obtain ⟨t, ht, hcard⟩ := mem_board.mp hd
    obtain ⟨hcr, hci, _, hcd, _⟩ := Task.card?_eq_some.mp hcard
    exact ⟨t, ⟨⟨ht, hr ▸ hcr⟩, hcd ▸ hdep⟩, hci⟩

theorem startRound_refines {run : WorkflowRun} {t : WorkflowTemplate} {loop : Loop} {task : Task}
    {w w' : World} (hk : Keyed w) {unlocked : List UnlockedTask}
    (h : Returns (WorkflowEngine.startRound run t.toTemplateSpec loop task (w.tasksOf run.id))
      w unlocked w') :
    Keyed w' ∧ ∃ new again,
      Added t.toTemplateSpec (t.inside loop) (ofRun w.board.cards run.id) run.id w.board.cards new ∧
      again ∈ new ∧ again.name = loop.check ∧
      w'.board = ⟨w.board.cards.map (rewireCard run.id task.id again.id) ++ new, w.board.runs⟩ := by
  simp only [WorkflowEngine.startRound, returns_bind, returns_orRaise, returns_get,
    returns_pure] at h
  obtain ⟨_, w₁, h₁, again, _, ⟨hagain, rfl⟩, _, w₂, h₂, _, w₃, h₃, _, _, ⟨rfl, rfl⟩, rfl, rfl⟩ := h
  obtain ⟨new, rfl, hround⟩ := addRound_refines hk h₁
  have hnew := hround.added
  obtain ⟨c, hc, hcname, hcid⟩ := lookup_names hagain
  have hnd : ((waitingFor (w.tasksOf run.id) task).map (·.id)).Nodup :=
    (List.filter_sublist.map _).nodup (nodup_tasksOf hk run.id)
  obtain ⟨hkept₂, hboard₂⟩ := rewiring_refines hnd h₂
  have hq₃ := (emitWorkflowRun_logged _ _ _ _ _ h₃).quiet
  refine ⟨hq₃.kept.keyed (hkept₂.keyed hround.keyed), new, c, hnew, hc, hcname, ?_⟩
  rw [hq₃.board, hboard₂, hround.board, hcid]
  refine congrArg₂ Board.mk ?_ rfl
  rw [List.map_append]
  congr 1
  · refine List.map_congr_left fun d hd => ?_
    unfold rewiredTo rewireCard
    by_cases hw : d.run = run.id ∧ task.id ∈ d.deps
    · rw [if_pos hw, if_pos ((mem_waiting hk hd).mpr hw)]
      rfl
    · rw [if_neg hw, if_neg fun hh => hw ((mem_waiting hk hd).mp hh)]
  · refine (List.map_congr_left fun d hd => if_neg fun hin => ?_).trans (List.map_id _)
    obtain ⟨x, hx, hxd⟩ := List.mem_map.mp hin
    obtain ⟨hxs, _⟩ := List.mem_filter.mp hx
    obtain ⟨hxt, hxr⟩ := mem_tasksOf.mp hxs
    have hxcard : x.card? = some ⟨x.id, run.id, x.name, x.dependsOn, x.state⟩ := by
      simp [Task.card?, hxr]
    exact hnew.ne_of_mem hd (mem_board.mpr ⟨x, hxt, hxcard⟩) hxd.symm

/-! The hook for a finished task. -/

theorem stop_refines {e : WorkflowEngine} {tm : TaskManager} (htm : Cancels tm) {run : Id}
    {task : Task} {reason : String} {w w₁ w' : World} (hk : Keyed w) {u v : Unit}
    (h₁ : Returns (WorkflowEngine.cancelWaiting tm (waitingFor (w.tasksOf run) task) reason)
      w u w₁)
    (h₂ : Returns (e.closeIfDone run) w₁ v w') :
    Kept w w' ∧ Spreads task.id run w.board w'.board := by
  have hrows : RowsOf run (waitingFor (w.tasksOf run) task) w :=
    (rowsOf_tasksOf hk run).mono fun t ht => (List.mem_filter.mp ht).1
  obtain ⟨hcan, hended⟩ := cancelWaiting_refines htm hrows h₁
  have hclose := closeIfDone_refines (hcan.kept.keyed hk) h₂
  refine ⟨hcan.kept.trans hclose.kept, spreads_of_cancelling hcan (fun t ht hdep => ?_) hclose⟩
  exact hended t (List.mem_filter.mpr ⟨ht, by simpa using hdep⟩)

theorem halt_spec {e : WorkflowEngine} {tm : TaskManager} (htm : Cancels tm) {run : Id}
    {t : Task} {w w' : World} (hk : Keyed w) {b : Bool}
    (h : Returns (e.halt tm t run (w.tasksOf run)) w b w') :
    (b = false ∧ e.haltAt w t run = none ∧ w' = w) ∨ (b = true ∧ ∃ halt,
      e.haltAt w t run = some halt ∧ Keyed w' ∧ Spreads t.id run w.board w'.board) := by
  simp only [WorkflowEngine.halt, returns_bind (m := get), returns_get] at h
  obtain ⟨_, w, ⟨rfl, rfl⟩, h⟩ := h
  cases hat : e.haltAt w t run with
  | none =>
    unfold WorkflowEngine.haltAt at hat
    rw [hat] at h
    obtain ⟨rfl, rfl⟩ := returns_pure.mp h
    exact .inl ⟨rfl, rfl, rfl⟩
  | some halt =>
    unfold WorkflowEngine.haltAt at hat
    rw [hat] at h
    simp only [returns_bind, returns_pure] at h
    obtain ⟨_, w₁, h₁, _, w₂, h₂, _, w₃, h₃, rfl, rfl⟩ := h
    obtain rfl := format_spec h₁
    obtain ⟨hkept, hs⟩ := stop_refines htm hk h₂ h₃
    exact .inr ⟨rfl, halt, rfl, hkept.keyed hk, hs⟩

theorem loop_spec {e : WorkflowEngine} {tm : TaskManager} (htm : Cancels tm) {run : Id}
    {t : Task} {w w' : World} (hk : Keyed w) {o : Option (List UnlockedTask)}
    (h : Returns (e.loop tm t run (w.tasksOf run)) w o w') :
    (o = none ∧ e.loopAt w t run = none ∧ w' = w) ∨ (∃ unlocked, o = some unlocked ∧ ∃ r tp loop,
      e.loopAt w t run = some (r, tp, loop) ∧ Keyed w' ∧
        (if roundsOf (w.tasksOf run) loop.check ≥ loop.maxRounds then Verdict.exhausted loop
          else .again r tp loop).Effect t.id run w.board w'.board) := by
  simp only [WorkflowEngine.loop, returns_bind (m := get), returns_get] at h
  obtain ⟨_, w, ⟨rfl, rfl⟩, h⟩ := h
  cases hat : e.loopAt w t run with
  | none =>
    unfold WorkflowEngine.loopAt at hat
    rw [hat] at h
    obtain ⟨rfl, rfl⟩ := returns_pure.mp h
    exact .inl ⟨rfl, rfl, rfl⟩
  | some found =>
    obtain ⟨r, tp, loop⟩ := found
    have hfound := hat
    unfold WorkflowEngine.loopAt at hat
    rw [hat] at h
    rcases returns_ite.mp h with ⟨hmax, h⟩ | ⟨hmax, h⟩
    · simp only [returns_bind, returns_pure] at h
      obtain ⟨_, w₁, h₁, _, w₂, h₂, rfl, rfl⟩ := h
      obtain ⟨hkept, hs⟩ := stop_refines htm hk h₁ h₂
      refine .inr ⟨_, rfl, r, tp, loop, rfl, hkept.keyed hk, ?_⟩
      rw [if_pos hmax]
      exact hs
    · simp only [returns_bind, returns_pure] at h
      obtain ⟨unlocked, w₁, h₁, rfl, rfl⟩ := h
      have hmem : w.workflowRun? run = some r := by
        simp only [WorkflowEngine.loopAt, bind, Option.bind_eq_some_iff] at hfound
        obtain ⟨_, hr, _, _, _, _, hp⟩ := hfound
        injection hp with hp
        injection hp with hp
        exact hp ▸ hr
      obtain ⟨hrmem, hrid⟩ := w.mem_of_workflowRun? run hmem
      subst hrid
      obtain ⟨hk', new, again, hnew, hagain, hname, hboard⟩ := startRound_refines hk h₁
      refine .inr ⟨_, rfl, r, tp, loop, rfl, hk', ?_⟩
      rw [if_neg hmax]
      exact ⟨new, again, rfl, List.mem_map_of_mem hrmem, hnew, hagain, hname, hboard⟩

theorem onTaskFinished_refines {e : WorkflowEngine} {tm : TaskManager} (htm : Cancels tm)
    {id run : Id} {t : Task} {w w' : World} (hk : Keyed w) (ht : w.task? id = some t)
    (hr : t.workflowRunId = some run) {unlocked : List UnlockedTask}
    (h : Returns (e.onTaskFinished tm id) w unlocked w') :
    Keyed w' ∧ (e.verdict w t).Effect id run w.board w'.board := by
  have hid := (w.mem_of_task? id ht).2
  subst hid
  simp only [WorkflowEngine.onTaskFinished, returns_bind (m := theTask _), returns_theTask] at h
  obtain ⟨t', w, ⟨ht', rfl⟩, h⟩ := h
  rw [ht, Option.some.injEq] at ht'
  subst ht'
  rw [hr] at h
  simp only [tasksOf, returns_bind, returns_get, returns_pure] at h
  obtain ⟨_, w, ⟨_, _, ⟨rfl, rfl⟩, rfl, rfl⟩, halted, w₁, h₁, h₂⟩ := h
  unfold WorkflowEngine.verdict
  rw [hr]
  rcases halt_spec htm hk h₁ with ⟨rfl, hno, rfl⟩ | ⟨rfl, halt, hat, hk', hs⟩
  · simp only [hno]
    simp only [Bool.false_eq_true, if_false, returns_bind] at h₂
    obtain ⟨looped, w₂, h₂, h₃⟩ := h₂
    rcases loop_spec htm hk h₂ with ⟨rfl, hno, rfl⟩ | ⟨_, rfl, r, tp, loop, hat, hk', hs⟩
    · simp only [hno]
      simp only [returns_bind, returns_pure] at h₃
      obtain ⟨_, w₃, h₃, _, w₄, h₄, rfl, rfl⟩ := h₃
      obtain ⟨hkept, hb⟩ := unlock_refines hk h₃
      have hclose := closeIfDone_refines (hkept.keyed hk) h₄
      refine ⟨hclose.kept.keyed (hkept.keyed hk), ?_, ?_, hclose.completed⟩
      · rw [hclose.cards, hb]
      · have hc := hclose.closes
        rw [← hclose.cards, hb] at hc
        exact hc
    · obtain ⟨rfl, rfl⟩ := returns_pure.mp h₃
      simp only [hat]
      exact ⟨hk', hs⟩
  · simp only [if_true, returns_pure] at h₂
    obtain ⟨rfl, rfl⟩ := h₂
    simp only [hat]
    exact ⟨hk', hs⟩

/-! The whole step: the task moves to SUCCEEDED, and then the hook. -/

theorem loopAt_eq_some {e : WorkflowEngine} {w : World} {t : Task} {run : Id} {r : WorkflowRun}
    {tp : WorkflowTemplate} {loop : Loop} (h : e.loopAt w t run = some (r, tp, loop)) :
    w.workflowRun? run = some r ∧ e.templates.get r.templateName = some tp ∧ loop ∈ tp.loops ∧
      loop.check = t.name := by
  simp only [WorkflowEngine.loopAt, bind, Option.bind_eq_some_iff] at h
  obtain ⟨r', hr, tp', htp, loop', hloop, hp⟩ := h
  injection hp with hp
  injection hp with hp hp'
  injection hp' with hp' hp''
  subst hp hp' hp''
  have hcheck := List.find?_some hloop
  rw [Bool.and_eq_true, decide_eq_true_eq] at hcheck
  exact ⟨hr, htp, List.mem_of_find?_eq_some hloop, hcheck.1⟩

theorem roundsOf_eq (w : World) (run : Id) (name : String) : roundsOf (w.tasksOf run) name =
    ((ofRun w.board.cards run).countP (·.name = name) : Int) - 1 := by
  rw [ofRun_board, List.countP_map]
  rfl

theorem countP_setState (cards : List Card) (run id : Id) (s : TaskState) (name : String) :
    (ofRun (setState id s cards) run).countP (·.name = name) =
      (ofRun cards run).countP (·.name = name) := by
  have hkeys : ∀ d : Card, ((if d.id = id then d.moved s else d).name = name ∧
      (if d.id = id then d.moved s else d).run = run) ↔ d.name = name ∧ d.run = run := by
    intro d
    by_cases hd : d.id = id <;> simp [hd]
  unfold ofRun setState
  rw [List.countP_filter, List.countP_filter, List.countP_map]
  refine List.countP_congr fun d _ => ?_
  simpa using hkeys d

theorem Added.restated {t : TemplateSpec} {inside : String → Bool} {siblings cards cards' : List Card}
    {run : Id} {new : List Card} (h : Added t inside siblings run cards' new)
    (hids : cards'.map (·.id) = cards.map (·.id)) : Added t inside siblings run cards new := by
  refine ⟨h.names, h.inRun, ?_, h.deps, h.entry, h.later⟩
  have hf := h.fresh
  rw [List.map_append, hids] at hf
  rw [List.map_append]
  exact hf

theorem finish_refines {e : WorkflowEngine} {tm : TaskManager} (htm : Cancels tm) {id run : Id}
    {t t₁ : Task} {w₀ w w' : World} (hk : Keyed w₀) (ht : w₀.task? id = some t)
    (hr : t.workflowRunId = some run) (ha : t.state.active = true)
    (hm : Moves id .succeeded w₀ w) (ht₁ : w.task? id = some t₁) {unlocked : List UnlockedTask}
    (h : Returns (e.onTaskFinished tm id) w unlocked w') :
    Keyed w' ∧ BoardStep e.templates.get w₀.board ((e.verdict w t₁).event id) w'.board := by
  have hkw := hm.kept.keyed hk
  obtain ⟨t₁', ht₁', hrun⟩ := hm.kept.task? hk ht
  rw [ht₁, Option.some.injEq] at ht₁'
  subst ht₁'
  rw [hr] at hrun
  obtain ⟨hk', heff⟩ := onTaskFinished_refines htm hkw ht₁ hrun h
  refine ⟨hk', ?_⟩
  obtain ⟨c, hc, hcard, rfl, rfl⟩ := World.card_of_task? ht hr
  obtain ⟨_, _, hname, _, hstate⟩ := Task.card?_eq_some.mp hcard
  have hact : c.state.active = true := hstate ▸ ha
  have hcards : w.board.cards = setState c.id .succeeded w₀.board.cards :=
    congrArg Board.cards hm.board
  have hruns : w.board.runs = w₀.board.runs := by rw [hm.board]
  have hname₁ : t₁.name = c.name := by
    have hmem : c.moved .succeeded ∈ w.board.cards := hcards ▸ mem_setState_self hc _
    have hcard₁ := hkw.card_eq ht₁ hmem rfl
    exact (Task.card?_eq_some.mp hcard₁).2.2.1
  unfold WorkflowEngine.verdict at heff ⊢
  rw [hrun] at heff ⊢
  have hstop : Spreads c.id c.run w.board w'.board → Ends c .succeeded w₀.board w'.board := by
    rintro ⟨hcas, hst, hdone⟩
    rw [hm.board] at hcas
    exact ⟨hcas, hst, hdone⟩
  cases hhalt : e.haltAt w t₁ c.run with
  | some halt =>
    simp only [hhalt] at heff ⊢
    exact .stop hc hact (hstop heff)
  | none =>
    simp only [hhalt] at heff ⊢
    cases hloop : e.loopAt w t₁ c.run with
    | none =>
      simp only [hloop] at heff ⊢
      obtain ⟨hcs, hcl, hdone⟩ := heff
      refine .finish hc hact ?_ ?_ hdone
      · rw [hcs, hcards]
      · rw [← hruns]
        exact hcl
    | some found =>
      obtain ⟨r, tp, loop⟩ := found
      simp only [hloop] at heff ⊢
      by_cases hmax : roundsOf (w.tasksOf c.run) loop.check ≥ loop.maxRounds
      · rw [if_pos hmax] at heff ⊢
        exact .stop hc hact (hstop heff)
      · rw [if_neg hmax] at heff ⊢
        obtain ⟨new, again, hrid, hrmem, hnew, hagain, haname, hboard⟩ := heff
        obtain ⟨_, htp, hlmem, hlcheck⟩ := loopAt_eq_some hloop
        rw [hlcheck, hname₁] at haname
        rw [hlcheck, hname₁, roundsOf_eq, hcards, countP_setState] at hmax
        rw [hboard, hcards, hruns]
        refine .round (r := r.card) hc hact (hruns ▸ hrmem) hrid htp hlmem
          (hlcheck.trans hname₁) (by omega) ?_ hagain haname
        rw [← hcards]
        exact hnew.restated (hcards ▸ (restates_setState w₀.board c.id .succeeded).ids)

end Autora
