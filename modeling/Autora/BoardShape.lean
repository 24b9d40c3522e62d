import Autora.BoardSteps

/-! Every step of the board keeps its shape, one lemma for each kind of step. -/

namespace Autora

open Systems

variable {reg : String → Option WorkflowTemplate} {b b' : Board}

theorem Ends.onlyIn (hn : (b.cards.map (·.id)).Nodup) {c : Card} (hc : c ∈ b.cards)
    {s : TaskState} (h : Ends c s b b') : OnlyIn c.run b.cards b'.cards :=
  (onlyIn_setState hn hc s).trans h.cascade.onlyIn

theorem shape_ends (h : Shape reg b) {c : Card} (hc : c ∈ b.cards)
    (hu : c.state.final = false) {s : TaskState} (he : Ends c s b b') : Shape reg b' := by
  refine h.restated he.restates ?_
  obtain ⟨doomed, hs⟩ := he.cascade
  exact settled_of_closes h.settled (he.onlyIn h.ids hc) (h.running hc hu) hs.closes he.completed

theorem onlyIn_unlock (run id : Id) (cards all : List Card) :
    OnlyIn run cards (cards.map (unlockCard run id all)) := by
  refine onlyIn_map (fun d => ?_) fun d _ hne => ?_
  · unfold unlockCard
    split <;> rfl
  · exact if_neg fun hh => hne hh.1

theorem shape_finish (h : Shape reg b) {c : Card} (hc : c ∈ b.cards)
    (ha : c.state.active = true)
    (hcards : b'.cards = (setState c.id .succeeded b.cards).map
      (unlockCard c.run c.id (setState c.id .succeeded b.cards)))
    (hcloses : Closes c.run b'.cards b.runs b'.runs) (hdone : Completed c.run b') :
    Shape reg b' := by
  refine h.restated (restates_finish hcards hcloses) ?_
  have honly : OnlyIn c.run b.cards b'.cards := by
    rw [hcards]
    exact (onlyIn_setState h.ids hc _).trans (onlyIn_unlock _ _ _ _)
  have hrun := h.running hc (TaskState.final_of_active ha)
  exact settled_of_closes h.settled honly hrun hcloses hdone

theorem mem_setState_self {cards : List Card} {c : Card} (hc : c ∈ cards) (s : TaskState) :
    c.moved s ∈ setState c.id s cards :=
  mem_setState.mpr ⟨c, hc, if_pos rfl⟩

theorem shape_move (h : Shape reg b) {c : Card} (hc : c ∈ b.cards)
    (ha : c.state.active = true) {s : TaskState} (hs : s.active = true) :
    Shape reg { b with cards := setState c.id s b.cards } := by
  refine h.restated (restates_setState b c.id s) fun r hr => ?_
  by_cases hid : r.id = c.run
  · have hrun := h.running hc (TaskState.final_of_active ha) r hr hid
    refine .inl ⟨hrun, c.moved s, mem_setState_self hc s, hid.symm, ?_⟩
    exact TaskState.final_of_active hs
  · exact settled_congr (onlyIn_setState h.ids hc s r.id hid) (h.settled r hr)

/-! Cards that are added. -/

theorem rewireCard_id (run old new : Id) (d : Card) : (rewireCard run old new d).id = d.id := by
  unfold rewireCard
  split <;> rfl

theorem rewireCard_run (run old new : Id) (d : Card) : (rewireCard run old new d).run = d.run := by
  unfold rewireCard
  split <;> rfl

theorem rewireCard_name (run old new : Id) (d : Card) :
    (rewireCard run old new d).name = d.name := by
  unfold rewireCard
  split <;> rfl

theorem rewireCard_state (run old new : Id) (d : Card) :
    (rewireCard run old new d).state = d.state := by
  unfold rewireCard
  split <;> rfl

theorem mem_latestCard {siblings : List Card} {name : String} {m : Card}
    (h : latestCard siblings name = some m) : m ∈ siblings ∧ m.name = name :=
  ⟨List.mem_reverse.mp (List.mem_of_find?_eq_some h), by simpa using List.find?_some h⟩

section Added

variable {t : WorkflowTemplate} {inside : String → Bool} {siblings cards new : List Card}
  {run : Id} (h : Added t.toTemplateSpec inside siblings run cards new)

include h

theorem Added.unfinished {n : Card} (hn : n ∈ new) : n.state = .ready ∨ n.state = .pending := by
  by_cases hd : ∀ d ∈ t.depsOf n.name, inside d = false
  · exact .inl (h.entry n hn hd)
  · simp only [not_forall, Bool.not_eq_false] at hd
    obtain ⟨d, hmem, hin⟩ := hd
    exact .inr (h.later n hn ⟨d, hmem, hin⟩).1

theorem Added.name_mem {n : Card} (hn : n ∈ new) : n.name ∈ t.names ∧ inside n.name = true := by
  have hm : n.name ∈ new.map (·.name) := List.mem_map_of_mem hn
  rw [h.names, List.mem_map] at hm
  obtain ⟨node, hnode, he⟩ := hm
  obtain ⟨ho, hi⟩ := List.mem_filter.mp hnode
  rw [← he]
  exact ⟨TemplateSpec.mem_names (t.mem_order.mp ho), hi⟩

theorem Added.onlyIn (cards₀ : List Card) : OnlyIn run cards₀ (cards₀ ++ new) := by
  intro x hx
  have hnil : ofRun new x = [] := by
    rw [ofRun, List.filter_eq_nil_iff]
    intro n hn he
    exact hx (by rw [← h.inRun n hn]; exact (of_decide_eq_true he).symm)
  rw [ofRun, List.filter_append]
  exact (congrArg _ hnil).trans (List.append_nil _)

theorem Added.ne_of_mem {n c : Card} (hn : n ∈ new) (hc : c ∈ cards) : n.id ≠ c.id := by
  intro he
  have hh := h.fresh
  rw [List.map_append, List.nodup_append] at hh
  exact hh.2.2 _ (List.mem_map_of_mem hc) _ (List.mem_map_of_mem hn) he.symm

end Added

theorem onlyIn_rewire (run old new : Id) (cards : List Card) :
    OnlyIn run cards (cards.map (rewireCard run old new)) :=
  onlyIn_map (rewireCard_run run old new) fun _ _ hne => if_neg fun hh => hne hh.1

theorem shape_round (h : Shape reg b) {c again : Card} {r : RunCard} {t : WorkflowTemplate}
    {loop : Loop} {new : List Card} (hc : c ∈ b.cards) (ha : c.state.active = true)
    (hr : r ∈ b.runs) (hrun : r.id = c.run) (ht : reg r.template = some t)
    (hnew : Added t.toTemplateSpec (t.inside loop)
      (ofRun (setState c.id .succeeded b.cards) c.run) c.run b.cards new)
    (hagain : again ∈ new) (hname : again.name = c.name) :
    Shape reg ⟨(setState c.id .succeeded b.cards).map (rewireCard c.run c.id again.id) ++ new,
      b.runs⟩ := by
  -- the card a card of `b` becomes
  have hkeep : ∀ d ∈ b.cards, ∃ d' ∈ (setState c.id .succeeded b.cards).map
      (rewireCard c.run c.id again.id), d'.id = d.id ∧ d'.run = d.run ∧ d'.name = d.name := by
    intro d hd
    obtain ⟨s, hs⟩ := (restates_setState b c.id .succeeded).new hd
    refine ⟨_, List.mem_map_of_mem hs, ?_, ?_, ?_⟩
    · exact rewireCard_id _ _ _ _
    · exact rewireCard_run _ _ _ _
    · exact rewireCard_name _ _ _ _
  refine ⟨?_, h.runIds, ?_, ?_⟩
  · have hids : ((setState c.id .succeeded b.cards).map (rewireCard c.run c.id again.id)).map
        (·.id) = b.cards.map (·.id) := by
      rw [← (restates_setState b c.id .succeeded).ids, List.map_map]
      exact List.map_congr_left fun d _ => rewireCard_id _ _ _ _
    have hfresh := hnew.fresh
    rw [List.map_append] at hfresh ⊢
    rw [hids]
    exact hfresh
  · intro c' hc'
    rcases List.mem_append.mp hc' with hc' | hc'
    · obtain ⟨e, he, rfl⟩ := List.mem_map.mp hc'
      obtain ⟨d, hd, heq⟩ := (restates_setState b c.id .succeeded).old he
      obtain ⟨x, hx, hxr, u, hu, hun, hdeps⟩ := h.follows d hd
      rw [rewireCard_run, rewireCard_name, heq]
      refine ⟨x, hx, hxr, u, hu, hun, fun i hi => ?_⟩
      by_cases hw : e.run = c.run ∧ c.id ∈ e.deps
      · -- rewired: the finished check becomes its new copy
        rw [rewireCard, ← heq, if_pos hw] at hi
        obtain ⟨j, hj, rfl⟩ := List.mem_map.mp hi
        rw [heq] at hj
        obtain ⟨y, hy, hyr, hyi, hyn⟩ := hdeps j hj
        by_cases hjc : j = c.id
        · have hyc : y = c := eq_of_id h.ids hy hc (hyi.trans hjc)
          rw [if_pos hjc]
          refine ⟨again, List.mem_append_right _ hagain, ?_, rfl, ?_⟩
          · rw [hnew.inRun again hagain, ← hyc]
            exact hyr
          · rw [hname, ← hyc]
            exact hyn
        · rw [if_neg hjc]
          obtain ⟨y', hy', hi', hr', hn'⟩ := hkeep y hy
          exact ⟨y', List.mem_append_left _ hy', hr'.trans hyr, hi'.trans hyi, hn' ▸ hyn⟩
      · rw [rewireCard, ← heq, if_neg hw, heq] at hi
        obtain ⟨y, hy, hyr, hyi, hyn⟩ := hdeps i hi
        obtain ⟨y', hy', hi', hr', hn'⟩ := hkeep y hy
        exact ⟨y', List.mem_append_left _ hy', hr'.trans hyr, hi'.trans hyi, hn' ▸ hyn⟩
    · refine ⟨r, hr, by rw [hnew.inRun c' hc', hrun], t, ht, (hnew.name_mem hc').1,
        fun i hi => ?_⟩
      obtain ⟨m, hmi, hmn, hm⟩ := hnew.deps c' hc' i hi
      rcases hm with ⟨_, hm⟩ | ⟨_, hm⟩
      · refine ⟨m, List.mem_append_right _ hm, ?_, hmi, hmn⟩
        rw [hnew.inRun m hm, hnew.inRun c' hc']
      · obtain ⟨hmem, hmr⟩ := mem_ofRun.mp (mem_latestCard hm).1
        obtain ⟨d, hd, heq⟩ := (restates_setState b c.id .succeeded).old hmem
        obtain ⟨y', hy', hi', hr', hn'⟩ := hkeep d hd
        rw [heq] at hmi hmr hmn
        refine ⟨y', List.mem_append_left _ hy', ?_, hi'.trans hmi, hn' ▸ hmn⟩
        rw [hr', hnew.inRun c' hc']
        exact hmr
  · intro x hx
    by_cases hid : x.id = c.run
    · refine .inl ⟨h.running hc (TaskState.final_of_active ha) x hx hid, again,
        List.mem_append_right _ hagain, by rw [hnew.inRun again hagain, hid], ?_⟩
      rcases hnew.unfinished hagain with hs | hs <;> rw [hs] <;> rfl
    · refine settled_congr ?_ (h.settled x hx)
      have honly := ((onlyIn_setState h.ids hc .succeeded).trans
        (onlyIn_rewire c.run c.id again.id _)).trans (hnew.onlyIn _)
      exact honly x.id hid

theorem Shape.fresh_run (h : Shape reg b) {run : Id} (hfresh : ∀ x ∈ b.runs, x.id ≠ run) :
    ∀ c ∈ b.cards, c.run ≠ run := by
  intro c hc he
  obtain ⟨r, hr, hrc, _⟩ := h.follows c hc
  exact hfresh r hr (hrc.trans he)

theorem shape_start (h : Shape reg b) {r : RunCard} {t : WorkflowTemplate} {new : List Card}
    (hfresh : ∀ x ∈ b.runs, x.id ≠ r.id) (hstate : r.state = .running)
    (ht : reg r.template = some t)
    (hnew : Added t.toTemplateSpec (fun _ => true) [] r.id b.cards new) :
    Shape reg ⟨b.cards ++ new, b.runs ++ [r]⟩ := by
  refine ⟨hnew.fresh, ?_, ?_, ?_⟩
  · rw [List.map_append, List.nodup_append]
    refine ⟨h.runIds, by simp, ?_⟩
    intro i hi j hj he
    obtain ⟨x, hx, rfl⟩ := List.mem_map.mp hi
    simp only [List.map_cons, List.map_nil, List.mem_singleton] at hj
    exact hfresh x hx (he.trans hj)
  · intro c' hc'
    rcases List.mem_append.mp hc' with hc' | hc'
    · obtain ⟨x, hx, hxr, u, hu, hun, hdeps⟩ := h.follows c' hc'
      refine ⟨x, List.mem_append_left _ hx, hxr, u, hu, hun, fun i hi => ?_⟩
      obtain ⟨y, hy, hh⟩ := hdeps i hi
      exact ⟨y, List.mem_append_left _ hy, hh⟩
    · refine ⟨r, by simp, (hnew.inRun c' hc').symm, t, ht, (hnew.name_mem hc').1, fun i hi => ?_⟩
      obtain ⟨m, hmi, hmn, hm⟩ := hnew.deps c' hc' i hi
      rcases hm with ⟨_, hm⟩ | ⟨hf, _⟩
      · refine ⟨m, List.mem_append_right _ hm, ?_, hmi, hmn⟩
        rw [hnew.inRun m hm, hnew.inRun c' hc']
      · cases hf
  · intro x hx
    rcases List.mem_append.mp hx with hx | hx
    · exact settled_congr (hnew.onlyIn _ x.id (hfresh x hx)) (h.settled x hx)
    · rw [List.mem_singleton] at hx
      subst hx
      obtain ⟨n, hn⟩ : ∃ n, n ∈ new := by
        have hlen : new.length = t.nodes.length := by
          have hl := congrArg List.length hnew.names
          simpa [t.order_length] using hl
        have hpos := List.length_pos_iff.mpr t.nodes_ne_nil
        exact List.exists_mem_of_length_pos (by omega)
      refine .inl ⟨hstate, n, List.mem_append_right _ hn, hnew.inRun n hn, ?_⟩
      rcases hnew.unfinished hn with hs | hs <;> rw [hs] <;> rfl

theorem BoardStep.shape {e : Event} (h : Shape reg b) (hs : BoardStep reg b e b') :
    Shape reg b' := by
  cases hs with
  | move hc ha hs => exact shape_move h hc ha hs
  | die hc hu _ he => exact shape_ends h hc hu he
  | stop hc ha he => exact shape_ends h hc (TaskState.final_of_active ha) he
  | finish hc ha hcards hcloses hdone => exact shape_finish h hc ha hcards hcloses hdone
  | round hc ha hr hrun ht _ _ _ hnew hagain hname =>
    exact shape_round h hc ha hr hrun ht hnew hagain hname
  | start hfresh hstate ht hnew => exact shape_start h hfresh hstate ht hnew

end Autora
