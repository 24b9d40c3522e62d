import Autora.BoardLaws

/-! A PENDING task waits for something, and for nothing dead: every step of the
board keeps this, a round when its body finds nothing dead outside. -/

namespace Autora

open Systems

variable {reg : String → Option WorkflowTemplate} {b b' : Board}

theorem waiting_move (h : Shape reg b) (hw : Waiting b.cards) {c : Card} (hc : c ∈ b.cards)
    {s : TaskState} (hs : s.active = true) : Waiting (setState c.id s b.cards) := by
  have hself : s.dead = false ∧ s ≠ .succeeded ∧ s ≠ .pending := by
    cases s <;> first | (cases hs; done) | exact ⟨rfl, by simp, by simp⟩
  intro d hd hp
  rcases setState_cases h.ids hc hd with rfl | ⟨hd, _⟩
  · exact absurd hp hself.2.2
  · obtain ⟨halive, x, hx, hxr, hxd, hxs⟩ := hw d hd hp
    refine ⟨fun y hy hyr hyd => ?_, ?_⟩
    · rcases setState_cases h.ids hc hy with rfl | ⟨hy, _⟩
      · exact hself.1
      · exact halive y hy hyr hyd
    · by_cases hid : x.id = c.id
      · have hxc := eq_of_id h.ids hx hc hid
        subst hxc
        exact ⟨x.moved s, mem_setState_self hx s, hxr, hxd, hself.2.1⟩
      · exact ⟨x, mem_setState_other hx hid, hxr, hxd, hxs⟩

theorem waiting_ends (h : Shape reg b) (hw : Waiting b.cards) {c : Card} (hc : c ∈ b.cards)
    {s : TaskState} (hs : s.final = true) (he : Ends c s b b') : Waiting b'.cards := by
  intro d' hd' hp
  have hd : d' ∈ b.cards := by
    rcases he.cases h.ids hc hs hd' with rfl | ⟨hd, _⟩ | ⟨d, _, _, _, rfl, _, _⟩
    · rw [Card.moved_state] at hp
      rw [hp] at hs
      cases hs
    · exact hd
    · cases hp
  have hstopped : ∀ run id, Stopped id run b' → d'.run = run → id ∉ d'.deps := by
    intro run id hst hr hdep
    have hf := hst d' hd' hr hdep
    rw [hp] at hf
    cases hf
  obtain ⟨halive, x, hx, hxr, hxd, hxs⟩ := hw d' hd hp
  refine ⟨fun y hy hyr hyd => ?_, ?_⟩
  · rcases he.cases h.ids hc hs hy with rfl | ⟨hy, _⟩ | ⟨z, _, _, _, rfl, hzr, hst⟩
    · exact absurd hyd (hstopped c.run c.id he.stopped hyr.symm)
    · exact halive y hy hyr hyd
    · exact absurd hyd (hstopped c.run z.id hst (hyr.symm.trans hzr))
  · by_cases hid : x.id = c.id
    · rw [eq_of_id h.ids hx hc hid] at hxd hxr
      exact absurd hxd (hstopped c.run c.id he.stopped hxr.symm)
    · rcases he.image hx hid with hh | hh
      · exact ⟨x, hh, hxr, hxd, hxs⟩
      · exact ⟨_, hh, hxr, hxd, by simp⟩

theorem waiting_finish (h : Shape reg b) (hw : Waiting b.cards) {c : Card} (hc : c ∈ b.cards)
    (hcards : b'.cards = (setState c.id .succeeded b.cards).map
      (unlockCard c.run c.id (setState c.id .succeeded b.cards))) : Waiting b'.cards := by
  -- what a card of before becomes is alive, and not succeeded if it is not `c`
  have hold : ∀ y ∈ b'.cards, y.state.dead = false ∨ y ∈ b.cards := by
    intro y hy
    rw [hcards] at hy
    obtain ⟨e, he, rfl⟩ := List.mem_map.mp hy
    unfold unlockCard
    split
    · exact .inl rfl
    · rcases setState_cases h.ids hc he with rfl | ⟨he, _⟩
      · exact .inl rfl
      · exact .inr he
  have hkeep : ∀ x ∈ b.cards, x.id ≠ c.id → x.state ≠ .succeeded →
      ∃ y ∈ b'.cards, y.run = x.run ∧ y.id = x.id ∧ y.state ≠ .succeeded := by
    intro x hx hne hxs
    refine ⟨unlockCard c.run c.id (setState c.id .succeeded b.cards) x, ?_, ?_⟩
    · rw [hcards]
      exact List.mem_map_of_mem (mem_setState_other hx hne)
    · unfold unlockCard
      split
      · exact ⟨rfl, rfl, by simp⟩
      · exact ⟨rfl, rfl, hxs⟩
  intro d' hd' hp
  rw [hcards] at hd'
  obtain ⟨e, he, rfl⟩ := List.mem_map.mp hd'
  by_cases hun : e.run = c.run ∧ c.id ∈ e.deps ∧ e.state = .pending ∧
      ∀ i ∈ e.deps, ∃ x ∈ setState c.id .succeeded b.cards,
        x.run = c.run ∧ x.id = i ∧ x.state = .succeeded
  · rw [unlockCard, if_pos hun] at hp
    cases hp
  · rw [unlockCard, if_neg hun] at hp ⊢
    rcases setState_cases h.ids hc he with rfl | ⟨hmem, _⟩
    · cases hp
    obtain ⟨halive, x, hx, hxr, hxd, hxs⟩ := hw e hmem hp
    refine ⟨fun y hy hyr hyd => ?_, ?_⟩
    · rcases hold y hy with hh | hh
      · exact hh
      · exact halive y hh hyr hyd
    · by_cases hid : x.id = c.id
      · -- the check finished and the task was not unlocked: it waits for another one
        have hxc := eq_of_id h.ids hx hc hid
        subst hxc
        have hnall : ∃ i ∈ e.deps, ∀ z ∈ setState x.id .succeeded b.cards,
            z.run = x.run → z.id = i → z.state ≠ .succeeded := by
          by_contra hcon
          push Not at hcon
          exact hun ⟨hxr.symm, hxd, hp, hcon⟩
        obtain ⟨i, hi, hnone⟩ := hnall
        obtain ⟨y, hy, hyr, hyi⟩ := h.dep_old hmem hi
        have hyne : y.id ≠ x.id := by
          intro hyx
          have hyc := eq_of_id h.ids hy hc hyx
          rw [hyc] at hyi
          exact hnone _ (mem_setState_self hc .succeeded) rfl hyi rfl
        have hys : y.state ≠ .succeeded :=
          hnone y (mem_setState_other hy hyne) (hyr.trans hxr.symm) hyi
        obtain ⟨z, hz, hzr, hzi, hzs⟩ := hkeep y hy hyne hys
        exact ⟨z, hz, hzr.trans hyr, by rw [hzi, hyi]; exact hi, hzs⟩
      · obtain ⟨z, hz, hzr, hzi, hzs⟩ := hkeep x hx hid hxs
        exact ⟨z, hz, hzr.trans hxr, by rw [hzi]; exact hxd, hzs⟩

theorem waiting_round (h : Shape reg b) (hw : Waiting b.cards) {c again : Card} {r : RunCard}
    {t : WorkflowTemplate} {loop : Loop} {new : List Card} (hc : c ∈ b.cards) (hr : r ∈ b.runs)
    (hrun : r.id = c.run) (ht : reg r.template = some t) (hl : loop ∈ t.loops)
    (hcheck : loop.check = c.name)
    (hnew : Added t.toTemplateSpec (t.inside loop)
      (ofRun (setState c.id .succeeded b.cards) c.run) c.run b.cards new)
    (hagain : again ∈ new) (hok : BodyAlive reg b (.round c.id loop)) :
    Waiting ((setState c.id .succeeded b.cards).map (rewireCard c.run c.id again.id) ++ new) := by
  have hnewAlive : ∀ n ∈ new, n.state.dead = false ∧ n.state ≠ .succeeded := by
    intro n hn
    rcases hnew.unfinished hn with hs | hs <;> rw [hs] <;> exact ⟨rfl, by simp⟩
  -- a card of after the round that a card of before it depends on
  have hold : ∀ y ∈ (setState c.id .succeeded b.cards).map (rewireCard c.run c.id again.id) ++ new,
      (∃ x ∈ b.cards, x.id = y.id) → y.state.dead = false ∨
        ∃ x ∈ b.cards, x.id = y.id ∧ x.run = y.run ∧ x.state = y.state := by
    rintro y hy ⟨x, hx, hxy⟩
    rcases List.mem_append.mp hy with hy | hy
    · obtain ⟨e, he, rfl⟩ := List.mem_map.mp hy
      rw [rewireCard_id, rewireCard_run, rewireCard_state]
      rcases setState_cases h.ids hc he with rfl | ⟨he, _⟩
      · exact .inl rfl
      · exact .inr ⟨e, he, rfl, rfl, rfl⟩
    · exact absurd hxy.symm (hnew.ne_of_mem hy hx)
  have hkeep : ∀ x ∈ b.cards, x.id ≠ c.id → x.state ≠ .succeeded →
      ∃ y ∈ (setState c.id .succeeded b.cards).map (rewireCard c.run c.id again.id) ++ new,
        y.run = x.run ∧ y.id = x.id ∧ y.state ≠ .succeeded := by
    intro x hx hne hxs
    refine ⟨_, List.mem_append_left _ (List.mem_map_of_mem (mem_setState_other hx hne)), ?_, ?_, ?_⟩
    · exact rewireCard_run _ _ _ _
    · exact rewireCard_id _ _ _ _
    · rw [rewireCard_state]
      exact hxs
  intro d' hd' hp
  rcases List.mem_append.mp hd' with hd' | hd'
  · obtain ⟨e, he, rfl⟩ := List.mem_map.mp hd'
    rw [rewireCard_state] at hp
    rcases setState_cases h.ids hc he with rfl | ⟨hmem, _⟩
    · cases hp
    obtain ⟨halive, x, hx, hxr, hxd, hxs⟩ := hw e hmem hp
    by_cases hre : e.run = c.run ∧ c.id ∈ e.deps
    · -- what waited for the check waits for its new copy
      rw [rewireCard, if_pos hre]
      refine ⟨fun y hy hyr hyd => ?_, again, List.mem_append_right _ hagain, ?_, ?_, ?_⟩
      · obtain ⟨j, hj, hji⟩ := List.mem_map.mp hyd
        by_cases hjc : j = c.id
        · rw [if_pos hjc] at hji
          rcases List.mem_append.mp hy with hy' | hy'
          · obtain ⟨z, hz, rfl⟩ := List.mem_map.mp hy'
            rw [rewireCard_id] at hji
            obtain ⟨z₀, hz₀, heq⟩ := (restates_setState b c.id .succeeded).old hz
            rw [heq, Card.moved_id] at hji
            exact absurd hji (hnew.ne_of_mem hagain hz₀)
          · exact (hnewAlive y hy').1
        · rw [if_neg hjc] at hji
          obtain ⟨z, hz, hzr, hzi⟩ := h.dep_old hmem hj
          rcases hold y hy ⟨z, hz, hzi.trans hji⟩ with hh | ⟨x', hx', hxi', hxr', hxs'⟩
          · exact hh
          · rw [← hxs']
            exact halive x' hx' (hxr'.trans hyr) (by rw [hxi', ← hji]; exact hj)
      · rw [hnew.inRun again hagain]
        exact hre.1.symm
      · exact List.mem_map.mpr ⟨c.id, hre.2, if_pos rfl⟩
      · exact (hnewAlive again hagain).2
    · rw [rewireCard, if_neg hre]
      have hxc : x.id ≠ c.id := by
        intro hid
        have hxeq := eq_of_id h.ids hx hc hid
        rw [hxeq] at hxr hxd
        exact hre ⟨hxr.symm, hxd⟩
      refine ⟨fun y hy hyr hyd => ?_, ?_⟩
      · obtain ⟨z, hz, _, hzi⟩ := h.dep_old hmem hyd
        rcases hold y hy ⟨z, hz, hzi⟩ with hh | ⟨x', hx', hxi', hxr', hxs'⟩
        · exact hh
        · rw [← hxs']
          exact halive x' hx' (hxr'.trans hyr) (by rw [hxi']; exact hyd)
      · obtain ⟨y, hy, hyr, hyi, hys⟩ := hkeep x hx hxc hxs
        exact ⟨y, hy, hyr.trans hxr, by rw [hyi]; exact hxd, hys⟩
  · -- a new PENDING task waits for a new one, and for nothing dead outside
    have hname : d'.name ≠ loop.backTo := by
      intro he
      have hentry := (t.entry_iff hl (hnew.name_mem hd').2).mpr he
      have hready := hnew.entry d' hd' hentry
      rw [hp] at hready
      cases hready
    have hlater : ∃ m ∈ new, m.id ∈ d'.deps := by
      have hin : ∃ d ∈ t.depsOf d'.name, t.inside loop d = true := by
        by_contra hnone
        push Not at hnone
        have hready := hnew.entry d' hd' fun d hd => by simpa using hnone d hd
        rw [hp] at hready
        cases hready
      exact (hnew.later d' hd' hin).2
    refine ⟨fun y hy hyr hyd => ?_, ?_⟩
    · obtain ⟨m, hmi, hmn, hm⟩ := hnew.deps d' hd' y.id hyd
      rcases hm with ⟨_, hm⟩ | ⟨hin, hm⟩
      · rcases List.mem_append.mp hy with hy | hy
        · obtain ⟨e, he, rfl⟩ := List.mem_map.mp hy
          obtain ⟨z, hz, heq⟩ := (restates_setState b c.id .succeeded).old he
          rw [rewireCard_id, heq, Card.moved_id] at hmi
          exact absurd hmi (hnew.ne_of_mem hm hz)
        · exact (hnewAlive y hy).1
      · obtain ⟨hlast, hmem, hne⟩ := outside_of_round h hc hcheck hin hm
        rcases hold y hy ⟨m, hmem, hmi⟩ with hh | ⟨x', hx', hxi', _, hxs'⟩
        · exact hh
        · have hxm : x' = m := eq_of_id h.ids hx' hmem (hxi'.trans hmi.symm)
          rw [← hxs', hxm]
          exact hok c hc rfl r hr hrun t ht d'.name (hnew.name_mem hd').1 (hnew.name_mem hd').2 m.name hmn hin m
            hlast hname
    · obtain ⟨m, hm, hmd⟩ := hlater
      refine ⟨m, List.mem_append_right _ hm, ?_, hmd, (hnewAlive m hm).2⟩
      rw [hnew.inRun m hm, hnew.inRun d' hd']

theorem waiting_start (h : Shape reg b) (hw : Waiting b.cards) {run : Id} {t : WorkflowTemplate}
    {new : List Card} (hnew : Added t.toTemplateSpec (fun _ => true) [] run b.cards new) :
    Waiting (b.cards ++ new) := by
  intro d' hd' hp
  rcases List.mem_append.mp hd' with hd' | hd'
  · obtain ⟨halive, x, hx, hh⟩ := hw d' hd' hp
    refine ⟨fun y hy hyr hyd => ?_, x, List.mem_append_left _ hx, hh⟩
    rcases List.mem_append.mp hy with hy | hy
    · exact halive y hy hyr hyd
    · obtain ⟨z, hz, _, hzi⟩ := h.dep_old hd' hyd
      exact absurd hzi.symm (hnew.ne_of_mem hy hz)
  · have hlater : ∃ m ∈ new, m.id ∈ d'.deps := by
      have hin : ∃ d ∈ t.depsOf d'.name, (fun _ : String => true) d = true := by
        by_contra hnone
        push Not at hnone
        have hready := hnew.entry d' hd' fun d hd => absurd rfl (hnone d hd)
        rw [hp] at hready
        cases hready
      exact (hnew.later d' hd' hin).2
    obtain ⟨m, hm, hmd⟩ := hlater
    refine ⟨fun y hy hyr hyd => ?_, m, List.mem_append_right _ hm, ?_, hmd, ?_⟩
    · obtain ⟨x, hxi, _, hx⟩ := hnew.deps d' hd' y.id hyd
      rcases List.mem_append.mp hy with hy | hy
      · rcases hx with ⟨_, hx⟩ | ⟨hf, _⟩
        · exact absurd hxi (hnew.ne_of_mem hx hy)
        · cases hf
      · rcases hnew.unfinished hy with hs | hs <;> rw [hs] <;> rfl
    · rw [hnew.inRun m hm, hnew.inRun d' hd']
    · rcases hnew.unfinished hm with hs | hs <;> rw [hs] <;> simp

theorem waiting_step {e : Event} (h : Shape reg b) (hw : Waiting b.cards)
    (hok : BodyAlive reg b e) (hs : BoardStep reg b e b') : Waiting b'.cards := by
  cases hs with
  | move hc _ hs => exact waiting_move h hw hc hs
  | die hc _ hs he =>
    rcases hs with rfl | ⟨rfl, _⟩
    · exact waiting_ends h hw hc rfl he
    · exact waiting_ends h hw hc rfl he
  | stop hc _ he => exact waiting_ends h hw hc rfl he
  | finish hc _ hcards _ _ => exact waiting_finish h hw hc hcards
  | round hc _ hr hrun ht hl hcheck _ hnew hagain _ =>
    exact waiting_round h hw hc hr hrun ht hl hcheck hnew hagain hok
  | start _ _ _ hnew => exact waiting_start h hw hnew

end Autora
