import Autora.Unlocks

/-! Adding tasks: one task, the tasks of a loop round, and the tasks of a new run. -/

namespace Autora

open Transactions

/-- The card a task is added with. -/
def TaskArgs.card (args : TaskArgs) (id run : Id) : Card where
  id := id
  run := run
  name := args.name
  deps := args.dependsOn
  state := if args.ready.getD args.dependsOn.isEmpty = true then .ready else .pending

structure AddsTask (args : TaskArgs) (id : Id) (w w' : World) : Prop where
  keyed : Keyed w'
  fresh : ∀ c ∈ w.board.cards, c.id ≠ id
  given : ∀ i, args.taskId = some i → id = i
  next : w.nextId ≤ w'.nextId
  board : w'.board = { w.board with
    cards := w.board.cards ++ (args.workflowRunId.map (args.card id)).toList }

theorem setState_append_fresh {cards : List Card} {id : Id} {c : Option Card} {s : TaskState}
    (h : ∀ d ∈ cards, d.id ≠ id) (hc : ∀ d ∈ c, d.id = id) :
    setState id s (cards ++ c.toList) = cards ++ (c.map (Card.moved s)).toList := by
  unfold setState
  rw [List.map_append]
  congr 1
  · exact (List.map_congr_left fun d hd => if_neg (h d hd)).trans (List.map_id _)
  · cases c with
    | none => rfl
    | some d => simp [hc d rfl]

/-- The row is inserted under a new id. -/
theorem flushTask_spec {task : Task} {w w' : World} {u : Unit}
    (h : Returns (TaskManager.flushTask task) w u w') :
    (∀ t ∈ w.tasks, t.id ≠ task.id) ∧ w' = { w with tasks := w.tasks ++ [task] } := by
  simp only [TaskManager.flushTask, returns_bind, returns_get, returns_require,
    returns_modify] at h
  obtain ⟨_, _, ⟨rfl, rfl⟩, _, _, ⟨hpk, rfl⟩, _, _, ⟨_, rfl⟩, _, _, ⟨_, rfl⟩, _, _, ⟨_, rfl⟩,
    _, w, ⟨_, rfl⟩, rfl⟩ := h
  refine ⟨fun t ht he => ?_, rfl⟩
  have hh := List.find?_eq_none.mp (Option.isNone_iff_eq_none.mp hpk) t ht
  simp [he] at hh

/-- The id of a new task is the one given, or the next one. -/
theorem newId_spec {args : TaskArgs} {id : Id} {w w' : World}
    (h : Returns (args.taskId.elim uuid7 pure) w id w') :
    (∀ i, args.taskId = some i → id = i) ∧ w'.tasks = w.tasks ∧ Quiet w w' := by
  cases hi : args.taskId with
  | none =>
    rw [hi] at h
    obtain ⟨rfl, rfl⟩ := returns_uuid7.mp h
    exact ⟨fun j hj => (by cases hj), rfl, ⟨rfl, rfl, Nat.le_succ _⟩, rfl⟩
  | some j =>
    rw [hi] at h
    obtain ⟨rfl, rfl⟩ := returns_pure.mp h
    exact ⟨fun k hk => (by simpa using hk), rfl, Quiet.refl _⟩

theorem addTask_refines {args : TaskArgs} {id : Id} {w w' : World} (hk : Keyed w)
    (h : Returns (TaskManager.addTask args) w id w') : AddsTask args id w w' := by
  simp only [TaskManager.addTask, returns_bind, returns_clock, returns_pure] at h
  obtain ⟨_, _, h₁, now, w₁, ⟨_, rfl⟩, _, w₂, h₂, _, w₃, h₃, _, _, h₄, rfl, rfl⟩ := h
  obtain ⟨hgiven, htasks, hq₁⟩ := newId_spec h₁
  obtain ⟨hfresh, rfl⟩ := flushTask_spec h₂
  have hq₃ := emitTask_quiet _ _ _ _ _ _ h₃
  generalize hnew : TaskManager.newTask args id now = task at hfresh h₃ h₄ hq₃
  have htid : task.id = id := by rw [← hnew]; rfl
  let start : Option Card := args.workflowRunId.map fun run =>
    { args.card id run with state := .pending }
  have hstart : task.card? = start := by
    rw [← hnew]
    rfl
  have hfresh' : ∀ c ∈ w.board.cards, c.id ≠ id := by
    intro c hc he
    obtain ⟨t, ht, hcard⟩ := mem_board.mp hc
    refine hfresh t (htasks ▸ ht) ?_
    rw [(Task.card?_eq_some.mp hcard).2.1, he, htid]
  have hadded : w₃.board = ⟨w.board.cards ++ start.toList, w.board.runs⟩ := by
    rw [hq₃.board]
    have hc : w₁.board.cards = w.board.cards := by rw [hq₁.board]
    have hr : w₁.board.runs = w.board.runs := by rw [hq₁.board]
    refine congrArg₂ Board.mk ?_ hr
    rw [← hc, ← hstart]
    simp only [World.board, List.filterMap_append]
    rfl
  have hk₂ : Keyed { w₁ with tasks := w₁.tasks ++ [task] } := by
    have hk₁ := hq₁.kept.keyed hk
    refine ⟨?_, hk₁.runs, hk₁.next⟩
    rw [List.map_append, List.nodup_append]
    refine ⟨hk₁.tasks, by simp, ?_⟩
    intro i hi j hj he
    obtain ⟨t, ht, rfl⟩ := List.mem_map.mp hi
    simp only [List.map_cons, List.map_nil, List.mem_singleton] at hj
    exact hfresh t ht (he.trans hj)
  have hlast : Kept w₃ w' ∧ w'.board =
      ⟨w.board.cards ++ (args.workflowRunId.map (args.card id)).toList, w.board.runs⟩ := by
    rcases returns_ite.mp h₄ with ⟨hready, h₄⟩ | ⟨hready, h₄⟩
    · have hm := markReady_moves h₄
      refine ⟨hm.kept, ?_⟩
      rw [hm.board, hadded]
      refine congrArg₂ Board.mk ?_ rfl
      rw [setState_append_fresh hfresh']
      · congr 1
        cases hr : args.workflowRunId with
        | none => simp [start, hr]
        | some run =>
          simp only [start, hr, Option.map_some, TaskArgs.card, if_pos hready]
          rfl
      · intro d hd
        obtain ⟨run, _, rfl⟩ := Option.map_eq_some_iff.mp hd
        rfl
    · have hl := markIdleAgentsWaiting_logged _ _ _ _ h₄
      refine ⟨hl.quiet.kept, ?_⟩
      rw [hl.quiet.board, hadded]
      refine congrArg₂ Board.mk ?_ rfl
      congr 1
      cases hr : args.workflowRunId with
      | none => simp [start, hr]
      | some run => simp only [start, hr, Option.map_some, TaskArgs.card, if_neg hready]
  obtain ⟨hkept, hboard⟩ := hlast
  refine ⟨hkept.keyed (hq₃.kept.keyed hk₂), hfresh', hgiven, ?_, hboard⟩
  exact Nat.le_trans hq₁.kept.next (Nat.le_trans hq₃.kept.next hkept.next)

/-! The cards of a round, one node after the other. -/

/-- The cards added for the nodes `pre`, and the board they stand on. -/
structure RoundCards (t : TemplateSpec) (inside : String → Bool) (siblings : List Card)
    (run : Id) (b : Board) (pre : List NodeSpec) (new : List Card) (w : World) : Prop where
  keyed : Keyed w
  board : w.board = ⟨b.cards ++ new, b.runs⟩
  names : new.map (·.name) = pre.map (·.name)
  inRun : ∀ n ∈ new, n.run = run
  deps : ∀ n ∈ new, ∀ i ∈ n.deps, ∃ m, m.id = i ∧ m.name ∈ t.depsOf n.name ∧
    (inside m.name = true ∧ m ∈ new ∨
      inside m.name = false ∧ latestCard siblings m.name = some m)
  entry : ∀ n ∈ new, (∀ d ∈ t.depsOf n.name, inside d = false) → n.state = .ready
  later : ∀ n ∈ new, (∃ d ∈ t.depsOf n.name, inside d = true) →
    n.state = .pending ∧ ∃ m ∈ new, m.id ∈ n.deps

section RoundCards

variable {t : WorkflowTemplate} {inside : String → Bool} {siblings : List Card} {run : Id}
  {b : Board} {pre : List NodeSpec} {new : List Card} {w w' : World}

theorem RoundCards.added (h : RoundCards t.toTemplateSpec inside siblings run b
    (t.order.filter fun n => inside n.name) new w) :
    Added t.toTemplateSpec inside siblings run b.cards new := by
  refine ⟨h.names, h.inRun, ?_, h.deps, h.entry, h.later⟩
  have hn := board_nodup h.keyed
  rw [h.board] at hn
  exact hn

/-- One more node: its task waits for cards that are there. -/
theorem RoundCards.add (h : RoundCards t.toTemplateSpec inside siblings run b pre new w)
    {node : NodeSpec} (hnode : node ∈ t.order) {args : TaskArgs} {id : Id}
    (hadd : AddsTask args id w w') (hrun : args.workflowRunId = some run)
    (hname : args.name = node.name)
    (hdeps : ∀ i ∈ args.dependsOn, ∃ m, m.id = i ∧ m.name ∈ node.dependsOn ∧
      (inside m.name = true ∧ m ∈ new ∨
        inside m.name = false ∧ latestCard siblings m.name = some m))
    (hready : args.ready.getD args.dependsOn.isEmpty = true ↔
      ∀ d ∈ node.dependsOn, inside d = false)
    (hlater : (∃ d ∈ node.dependsOn, inside d = true) → ∃ m ∈ new, m.id ∈ args.dependsOn) :
    RoundCards t.toTemplateSpec inside siblings run b (pre ++ [node])
      (new ++ [args.card id run]) w' := by
  have hd : t.depsOf (args.card id run).name = node.dependsOn := by
    rw [show (args.card id run).name = args.name from rfl, hname, t.depsOf_order hnode]
  refine ⟨hadd.keyed, ?_, ?_, ?_, ?_, ?_, ?_⟩
  · rw [hadd.board, h.board, hrun]
    simp
  · rw [List.map_append, List.map_append, h.names]
    simp only [List.map_cons, List.map_nil, ← hname]
    rfl
  · intro n hn
    rcases List.mem_append.mp hn with hn | hn
    · exact h.inRun n hn
    · rw [List.mem_singleton.mp hn]
      rfl
  · intro n hn i hi
    have hmono : ∀ m : Card, (inside m.name = true ∧ m ∈ new ∨
        inside m.name = false ∧ latestCard siblings m.name = some m) →
        (inside m.name = true ∧ m ∈ new ++ [args.card id run] ∨
          inside m.name = false ∧ latestCard siblings m.name = some m) := by
      rintro m (⟨h₁, h₂⟩ | hm)
      · exact .inl ⟨h₁, List.mem_append_left _ h₂⟩
      · exact .inr hm
    rcases List.mem_append.mp hn with hn | hn
    · obtain ⟨m, hmi, hmn, hm⟩ := h.deps n hn i hi
      exact ⟨m, hmi, hmn, hmono m hm⟩
    · rw [List.mem_singleton] at hn
      subst hn
      obtain ⟨m, hmi, hmn, hm⟩ := hdeps i hi
      exact ⟨m, hmi, hd ▸ hmn, hmono m hm⟩
  · intro n hn hall
    rcases List.mem_append.mp hn with hn | hn
    · exact h.entry n hn hall
    · rw [List.mem_singleton] at hn
      subst hn
      rw [hd] at hall
      exact if_pos (hready.mpr hall)
  · intro n hn hex
    rcases List.mem_append.mp hn with hn | hn
    · obtain ⟨hp, m, hm, hmd⟩ := h.later n hn hex
      exact ⟨hp, m, List.mem_append_left _ hm, hmd⟩
    · rw [List.mem_singleton] at hn
      subst hn
      rw [hd] at hex
      obtain ⟨m, hm, hmd⟩ := hlater hex
      obtain ⟨d, hdd, hdi⟩ := hex
      refine ⟨if_neg fun hr => ?_, m, List.mem_append_left _ hm, hmd⟩
      rw [hready.mp hr d hdd] at hdi
      cases hdi

end RoundCards

/-- In a part of the order a node comes after its dependencies in that part. -/
theorem body_before {t : WorkflowTemplate} {inside : String → Bool} {pre post : List NodeSpec}
    {node : NodeSpec} (h : (t.order.filter fun n => inside n.name) = pre ++ node :: post)
    {d : String} (hd : d ∈ node.dependsOn) (hin : inside d = true) :
    d ∈ pre.map (·.name) := by
  obtain ⟨xs, ys, hxy, hpre, hys⟩ := List.filter_eq_append_iff.mp h
  obtain ⟨zs, us, hzu, hzs, hin', hus⟩ := List.filter_eq_cons_iff.mp hys
  have horder : t.order = (xs ++ zs) ++ node :: us := by
    rw [hxy, hzu]
    simp
  obtain ⟨n, hn, rfl⟩ := List.mem_map.mp (t.order_before horder hd)
  rw [← hpre]
  rcases List.mem_append.mp hn with hn | hn
  · exact List.mem_map.mpr ⟨n, List.mem_filter.mpr ⟨hn, hin⟩, rfl⟩
  · exact absurd hin (by simpa using hzs n hn)

theorem lookup_names {cards : List Card} {name : String} {id : Id}
    (h : (cards.map fun c => (c.name, c.id)).lookup name = some id) :
    ∃ c ∈ cards, c.name = name ∧ c.id = id := by
  induction cards with
  | nil => simp at h
  | cons c cards ih =>
    rw [List.map_cons, List.lookup_cons] at h
    by_cases hc : name = c.name
    · subst hc
      simp only [BEq.rfl, Option.some.injEq] at h
      exact ⟨c, by simp, rfl, h⟩
    · have hne : (name == c.name) = false := by simpa using hc
      rw [hne] at h
      obtain ⟨d, hd, hh⟩ := ih h
      exact ⟨d, List.mem_cons_of_mem _ hd, hh⟩

theorem lookup_isSome {cards : List Card} {name : String} (h : name ∈ cards.map (·.name)) :
    ∃ id, (cards.map fun c => (c.name, c.id)).lookup name = some id := by
  induction cards with
  | nil => simp at h
  | cons c cards ih =>
    rw [List.map_cons, List.lookup_cons]
    by_cases hc : name = c.name
    · subst hc
      exact ⟨c.id, by simp⟩
    · have hne : (name == c.name) = false := by simpa using hc
      rw [hne]
      rw [List.map_cons, List.mem_cons] at h
      exact ih (h.resolve_left hc)

/-- The cards of a run are its tasks. -/
theorem ofRun_board (w : World) (run : Id) : ofRun w.board.cards run = (w.tasksOf run).map fun t =>
    ⟨t.id, run, t.name, t.dependsOn, t.state⟩ := by
  simp only [World.board, ofRun, World.tasksOf, List.filter_filterMap, ← List.filterMap_eq_map,
    List.filterMap_filter]
  refine List.filterMap_congr fun t _ => ?_
  unfold Task.card?
  cases hr : t.workflowRunId with
  | none => simp
  | some r =>
    by_cases hrr : r = run
    · subst hrr
      simp
    · simp [hrr]

/-- The latest task of a name, as a card. -/
theorem latest_card {w : World} {run : Id} {name : String} {m : Task}
    (h : latest (w.tasksOf run) name = some m) :
    ∃ c, c.id = m.id ∧ c.name = name ∧ latestCard (ofRun w.board.cards run) name = some c := by
  refine ⟨⟨m.id, run, m.name, m.dependsOn, m.state⟩, rfl, ?_, ?_⟩
  · simpa using List.find?_some h
  · unfold latestCard
    unfold latest at h
    rw [ofRun_board, ← List.map_reverse, List.find?_map]
    simp only [Function.comp_def]
    rw [h]
    rfl

/-! A loop round. -/

theorem render_spec {t : TemplateSpec} {node : NodeSpec} {params : Dict} {w w' : World}
    {text : String} (h : Returns (render t node params) w text w') : w' = w := by
  unfold render at h
  split at h
  · exact (returns_pure.mp h).2
  · exact (returns_throw h).elim

theorem format_spec {r : Except String String} {w w' : World} {text : String}
    (h : Returns (format r) w text w') : w' = w := by
  unfold format at h
  split at h
  · exact (returns_pure.mp h).2
  · exact (returns_throw h).elim

theorem mem_roundDeps {inside : String → Bool} {cards : List Card} {w : World} {run : Id}
    {node : NodeSpec} {i : Id} (h : i ∈ roundDeps inside (cards.map fun c => (c.name, c.id))
      (w.tasksOf run) node) :
    ∃ m : Card, m.id = i ∧ m.name ∈ node.dependsOn ∧ (inside m.name = true ∧ m ∈ cards ∨
      inside m.name = false ∧ latestCard (ofRun w.board.cards run) m.name = some m) := by
  obtain ⟨d, hd, hi⟩ := List.mem_filterMap.mp h
  by_cases hin : inside d = true
  · rw [if_pos hin] at hi
    obtain ⟨c, hc, rfl, hci⟩ := lookup_names hi
    exact ⟨c, hci, hd, .inl ⟨hin, hc⟩⟩
  · rw [if_neg hin] at hi
    obtain ⟨m, hm, rfl⟩ := Option.map_eq_some_iff.mp hi
    obtain ⟨c, hci, rfl, hc⟩ := latest_card hm
    exact ⟨c, hci, hd, .inr ⟨by simpa using hin, hc⟩⟩

theorem addRound_refines {run : WorkflowRun} {t : WorkflowTemplate} {loop : Loop} {task : Task}
    {w w' : World} (hk : Keyed w) {new : List (String × Id)}
    (h : Returns (WorkflowEngine.addRound run t.toTemplateSpec loop task (w.tasksOf run.id))
      w new w') :
    ∃ cards, new = cards.map (fun c => (c.name, c.id)) ∧
      RoundCards t.toTemplateSpec (t.inside loop) (ofRun w.board.cards run.id) run.id w.board
        (t.loopBody loop) cards w' := by
  refine foldEach_prefix (I := fun pre new s => ∃ cards, new = cards.map (fun c => (c.name, c.id)) ∧
    RoundCards t.toTemplateSpec (t.inside loop) (ofRun w.board.cards run.id) run.id w.board
      pre cards s) (fun pre node post he new s new' s' hI hs => ?_) ⟨[], rfl, ?_⟩ h
  · obtain ⟨cards, rfl, hcards⟩ := hI
    simp only [returns_bind, returns_pure] at hs
    obtain ⟨_, s₁, h₁, _, s₂, h₂, id, s₃, h₃, rfl, rfl⟩ := hs
    rw [render_spec h₁] at h₂
    rw [format_spec h₂] at h₃
    have hnode : node ∈ t.order := by
      have hmem : node ∈ t.loopBody loop := by
        rw [he]
        simp
      exact (List.mem_filter.mp hmem).1
    refine ⟨cards ++ [_], ?_, hcards.add hnode (addTask_refines hcards.keyed h₃) rfl rfl
      (fun i hi => mem_roundDeps hi) ?_ ?_⟩
    · simp [TaskArgs.card]
    · simp
    · rintro ⟨d, hd, hin⟩
      have hbefore := body_before he hd hin
      rw [← hcards.names] at hbefore
      obtain ⟨i, hi⟩ := lookup_isSome hbefore
      obtain ⟨c, hc, _, hci⟩ := lookup_names hi
      refine ⟨c, hc, List.mem_filterMap.mpr ⟨d, hd, ?_⟩⟩
      rw [if_pos hin, hci]
      exact hi
  · refine ⟨hk, by simp, rfl, ?_, ?_, ?_, ?_⟩ <;> simp

end Autora
