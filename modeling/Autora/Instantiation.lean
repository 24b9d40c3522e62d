import Autora.Finishing

/-! A run starts with one task per node of its template. -/

namespace Autora

open Transactions

theorem uuid7_quiet : Keeps Quiet uuid7 := by
  intro w id w' h
  obtain ⟨rfl, rfl⟩ := returns_uuid7.mp h
  exact ⟨⟨rfl, rfl, Nat.le_succ _⟩, rfl⟩

theorem render_quiet (t : TemplateSpec) (node : NodeSpec) (params : Dict) :
    Keeps Quiet (render t node params) := by
  intro w text w' h
  rw [render_spec h]
  exact Quiet.refl w

/-- The run's row is new: its id is the next one. -/
theorem insertRun_refines {w : World} (hk : Keyed w) {run : WorkflowRun}
    (hid : run.id = w.nextId) :
    Keyed { w with nextId := w.nextId + 1, workflowRuns := w.workflowRuns ++ [run] } := by
  refine ⟨hk.tasks, ?_, ?_⟩
  · rw [List.map_append, List.nodup_append]
    refine ⟨hk.runs, by simp, ?_⟩
    intro i hi j hj he
    obtain ⟨r, hr, rfl⟩ := List.mem_map.mp hi
    have hlt := hk.next r hr
    simp only [List.map_cons, List.map_nil, List.mem_singleton] at hj
    rw [he, hj, hid] at hlt
    exact absurd hlt (Nat.lt_irrefl _)
  · intro r hr
    rcases List.mem_append.mp hr with hr | hr
    · exact Nat.lt_succ_of_lt (hk.next r hr)
    · rw [List.mem_singleton.mp hr, hid]
      exact Nat.lt_succ_self _

/-- The cards of a new run: the ids were drawn before, one for each node. -/
structure StartCards (t : WorkflowTemplate) (ids : List (String × Id)) (run : Id) (b : Board)
    (pre : List NodeSpec) (w : World) (cards : List Card) : Prop where
  round : RoundCards t.toTemplateSpec (fun _ => true) [] run b pre cards w
  ids : ∀ c ∈ cards, ids.lookup c.name = some c.id

theorem StartCards.add {t : WorkflowTemplate} {ids : List (String × Id)} {run : Id} {b : Board}
    {pre post : List NodeSpec} {node : NodeSpec} {w w' : World} {cards : List Card}
    (h : StartCards t ids run b pre w cards) (horder : t.order = pre ++ node :: post)
    {id i : Id} (hid : ids.lookup node.name = some id) {args : TaskArgs}
    (hadd : AddsTask args i w w') (htask : args.taskId = some id)
    (hrun : args.workflowRunId = some run) (hname : args.name = node.name)
    (hdeps : args.dependsOn = node.dependsOn.filterMap fun d => ids.lookup d)
    (hready : args.ready = none) :
    StartCards t ids run b (pre ++ [node]) w' (cards ++ [args.card i run]) := by
  have hi : i = id := hadd.given id htask
  have hbefore : ∀ d ∈ node.dependsOn, ∃ c ∈ cards, c.name = d ∧ ids.lookup d = some c.id := by
    intro d hd
    have hmem := t.order_before horder hd
    rw [← h.round.names] at hmem
    obtain ⟨c, hc, rfl⟩ := List.mem_map.mp hmem
    exact ⟨c, hc, rfl, h.ids c hc⟩
  have hnode : node ∈ t.order := by
    rw [horder]
    simp
  refine ⟨h.round.add hnode hadd hrun hname (fun j hj => ?_) ?_ ?_, fun c hc => ?_⟩
  · rw [hdeps] at hj
    obtain ⟨d, hd, hj⟩ := List.mem_filterMap.mp hj
    obtain ⟨c, hc, rfl, hcid⟩ := hbefore d hd
    rw [hcid, Option.some.injEq] at hj
    exact ⟨c, hj, hd, .inl ⟨rfl, hc⟩⟩
  · rw [hready, hdeps, Option.getD_none, List.isEmpty_iff, List.filterMap_eq_nil_iff]
    constructor
    · intro hnone d hd
      obtain ⟨c, _, _, hcid⟩ := hbefore d hd
      rw [hnone d hd] at hcid
      cases hcid
    · intro hall d hd
      exact absurd (hall d hd) (by decide)
  · rintro ⟨d, hd, _⟩
    obtain ⟨c, hc, rfl, hcid⟩ := hbefore d hd
    refine ⟨c, hc, ?_⟩
    rw [hdeps]
    exact List.mem_filterMap.mpr ⟨c.name, hd, hcid⟩
  · rcases List.mem_append.mp hc with hc | hc
    · exact h.ids c hc
    · rw [List.mem_singleton.mp hc]
      show ids.lookup args.name = some i
      rw [hname, hi]
      exact hid

theorem instantiate_refines {e : WorkflowEngine} {templateName : String}
    {companyId projectId run : Id} {params : Dict} {cycleId : Option Id} {w w' : World}
    (hk : Keyed w)
    (h : Returns (e.instantiate templateName companyId projectId params cycleId) w run w') :
    Keyed w' ∧ BoardStep e.templates.get w.board (.start run) w'.board := by
  simp only [WorkflowEngine.instantiate, returns_bind, returns_orRaise, returns_uuid7,
    returns_clock, returns_modify, returns_pure] at h
  obtain ⟨t, w, ⟨ht, rfl⟩, ids, w₁, h₁, display, w₂, h₂, _, _, ⟨rfl, rfl⟩, now, _, ⟨_, rfl⟩,
    _, _, rfl, _, w₃, h₃, _, w', h₄, rfl, rfl⟩ := h
  have hq₁ : Quiet w w₁ :=
    Keeps.foldEach _ _ (fun _ _ _ => uuid7_quiet.bind fun _ => Keeps.pure _) _ _ _ h₁
  have hq₂ : Quiet w₁ w₂ :=
    Keeps.foldEach _ _ (fun _ _ _ => (render_quiet _ _ _).bind fun _ => Keeps.pure _) _ _ _ h₂
  have hq := hq₁.trans hq₂
  have hk₂ := hq.kept.keyed hk
  have hq₃ := (emitWorkflowRun_logged _ _ _ _ _ h₃).quiet
  have hb : w₃.board = ⟨w.board.cards, w.board.runs ++ [⟨w₂.nextId, t.name, .running⟩]⟩ := by
    rw [hq₃.board]
    have hboard := hq.board
    refine congrArg₂ Board.mk (congrArg Board.cards hboard) ?_
    rw [← hboard]
    simp only [World.board, List.map_append]
    rfl
  have hk₃ : Keyed w₃ := hq₃.kept.keyed (insertRun_refines hk₂ rfl)
  have hcards : ∃ cards, StartCards t ids w₂.nextId w₃.board t.order w' cards := by
    refine forEach_prefix (I := fun pre s => ∃ cards, StartCards t ids w₂.nextId w₃.board pre s cards)
      (fun pre node post he s u s' hI hs => ?_) ⟨[], ⟨hk₃, by simp, rfl, ?_, ?_, ?_, ?_⟩, ?_⟩ h₄
    · obtain ⟨cards, hcards⟩ := hI
      simp only [returns_bind, returns_orRaise, returns_pure] at hs
      obtain ⟨id, s, ⟨hid, rfl⟩, _, s, ⟨_, rfl⟩, i, s₁, hadd, _, rfl⟩ := hs
      exact ⟨_, hcards.add he hid (addTask_refines hcards.round.keyed hadd) rfl rfl rfl rfl rfl⟩
    all_goals simp
  obtain ⟨cards, hround, _⟩ := hcards
  refine ⟨hround.keyed, ?_⟩
  rw [hround.board, hb]
  have hname : t.name = templateName := by
    simpa using List.find?_some ht
  have horder : t.order = t.order.filter fun _ => true := (List.filter_true _).symm
  rw [horder] at hround
  have hadded := hround.added
  rw [hb] at hadded
  refine .start (r := ⟨w₂.nextId, t.name, .running⟩) (fun x hx => ?_) rfl ?_ hadded
  · rw [← hq.board] at hx
    obtain ⟨r, hr, rfl⟩ := List.mem_map.mp hx
    exact Nat.ne_of_lt (hk₂.next r hr)
  · rw [hname]
    exact ht

end Autora
