import Autora.BoardLaws

/-! A task is unlocked only when all it depends on succeeded: every step of the
board keeps this, a round when its entry finds what it waits for outside done. -/

namespace Autora

open Systems

variable {reg : String → Option WorkflowTemplate} {b b' : Board}

theorem unlocked_move (h : Shape reg b) (hu : Unlocked b.cards) {c : Card} (hc : c ∈ b.cards)
    (ha : c.state.active = true) {s : TaskState} : Unlocked (setState c.id s b.cards) := by
  intro d' hd' hp hcan i hi
  have hd : ∃ d ∈ b.cards, d.state ≠ .pending ∧ d.state ≠ .cancelled ∧ d.run = d'.run ∧
      i ∈ d.deps := by
    rcases setState_cases h.ids hc hd' with rfl | ⟨hd, _⟩
    · refine ⟨c, hc, ?_, ?_, rfl, hi⟩ <;> intro he <;> rw [he] at ha <;> cases ha
    · exact ⟨d', hd, hp, hcan, rfl, hi⟩
  obtain ⟨d, hd, hp', hcan', hr, hi'⟩ := hd
  obtain ⟨x, hx, hxr, hxi, hxs⟩ := hu d hd hp' hcan' i hi'
  have hne : x.id ≠ c.id := by
    intro he
    rw [eq_of_id h.ids hx hc he] at hxs
    rw [hxs] at ha
    cases ha
  exact ⟨x, mem_setState_other hx hne, hxr.trans hr, hxi, hxs⟩

theorem unlocked_ends (h : Shape reg b) (hu : Unlocked b.cards) {c : Card} (hc : c ∈ b.cards)
    (hnf : c.state.final = false) {s : TaskState} (hs : s.final = true)
    (ha : s = .cancelled ∨ c.state.active = true) (he : Ends c s b b') :
    Unlocked b'.cards := by
  intro d' hd' hp hcan i hi
  have hd : ∃ d ∈ b.cards, d.state ≠ .pending ∧ d.state ≠ .cancelled ∧ d.run = d'.run ∧
      i ∈ d.deps := by
    rcases he.cases h.ids hc hs hd' with rfl | ⟨hd, _⟩ | ⟨d, _, _, _, rfl, _, _⟩
    · have hact : c.state.active = true := ha.resolve_left hcan
      refine ⟨c, hc, ?_, ?_, rfl, hi⟩ <;> intro hst <;> rw [hst] at hact <;> cases hact
    · exact ⟨d', hd, hp, hcan, rfl, hi⟩
    · exact absurd rfl hcan
  obtain ⟨d, hd, hp', hcan', hr, hi'⟩ := hd
  obtain ⟨x, hx, hxr, hxi, hxs⟩ := hu d hd hp' hcan' i hi'
  have hne : x.id ≠ c.id := by
    intro hid
    rw [eq_of_id h.ids hx hc hid] at hxs
    rw [hxs] at hnf
    cases hnf
  exact ⟨x, he.keeps hx hne (by rw [hxs]; rfl), hxr.trans hr, hxi, hxs⟩

theorem unlocked_finish (h : Shape reg b) (hu : Unlocked b.cards) {c : Card} (hc : c ∈ b.cards)
    (ha : c.state.active = true) (hcards : b'.cards = (setState c.id .succeeded b.cards).map
      (unlockCard c.run c.id (setState c.id .succeeded b.cards))) : Unlocked b'.cards := by
  have hset := unlocked_move (s := .succeeded) h hu hc ha
  have hkeep : ∀ x ∈ setState c.id .succeeded b.cards, x.state = .succeeded → x ∈ b'.cards := by
    intro x hx hxs
    rw [hcards]
    refine List.mem_map.mpr ⟨x, hx, unlockCard_of_ne ?_⟩
    rw [hxs]
    simp
  intro d' hd' hp hcan i hi
  rw [hcards] at hd'
  obtain ⟨e, he, rfl⟩ := List.mem_map.mp hd'
  unfold unlockCard at hp hcan hi ⊢
  split at hi
  · next hh =>
    rw [if_pos hh]
    obtain ⟨x, hx, hxr, hxi, hxs⟩ := hh.2.2.2 i hi
    exact ⟨x, hkeep x hx hxs, hxr.trans hh.1.symm, hxi, hxs⟩
  · next hh =>
    rw [if_neg hh] at hp hcan ⊢
    obtain ⟨x, hx, hxr, hxi, hxs⟩ := hset e he hp hcan i hi
    exact ⟨x, hkeep x hx hxs, hxr, hxi, hxs⟩

theorem unlocked_round (h : Shape reg b) (hu : Unlocked b.cards) {c again : Card} {r : RunCard}
    {t : WorkflowTemplate} {loop : Loop} {new : List Card} (hc : c ∈ b.cards)
    (ha : c.state.active = true) (hr : r ∈ b.runs) (hrun : r.id = c.run)
    (ht : reg r.template = some t) (hl : loop ∈ t.loops) (hcheck : loop.check = c.name)
    (hnew : Added t.toTemplateSpec (t.inside loop)
      (ofRun (setState c.id .succeeded b.cards) c.run) c.run b.cards new)
    (hok : EntryReady reg b (.round c.id loop)) :
    Unlocked ((setState c.id .succeeded b.cards).map (rewireCard c.run c.id again.id) ++ new) := by
  have hset := unlocked_move (s := .succeeded) h hu hc ha
  have hkeep : ∀ x ∈ setState c.id .succeeded b.cards, x.state = .succeeded →
      ∃ y ∈ (setState c.id .succeeded b.cards).map (rewireCard c.run c.id again.id) ++ new,
        y.run = x.run ∧ y.id = x.id ∧ y.state = .succeeded := by
    intro x hx hxs
    refine ⟨_, List.mem_append_left _ (List.mem_map_of_mem hx), ?_, ?_, ?_⟩
    · exact rewireCard_run _ _ _ _
    · exact rewireCard_id _ _ _ _
    · rw [rewireCard_state, hxs]
  intro d' hd' hp hcan i hi
  rcases List.mem_append.mp hd' with hd' | hd'
  · obtain ⟨e, he, rfl⟩ := List.mem_map.mp hd'
    rw [rewireCard_state] at hp hcan
    rw [rewireCard_run]
    -- an unlocked task does not wait for the check, so it is not rewired
    have hnot : c.id ∉ e.deps := by
      intro hdep
      have hold : ∃ d ∈ b.cards, d.state ≠ .pending ∧ d.state ≠ .cancelled ∧ d.deps = e.deps := by
        rcases setState_cases h.ids hc he with rfl | ⟨hd, _⟩
        · refine ⟨c, hc, ?_, ?_, rfl⟩ <;> intro hst <;> rw [hst] at ha <;> cases ha
        · exact ⟨e, hd, hp, hcan, rfl⟩
      obtain ⟨d, hd, hp', hcan', hdd⟩ := hold
      obtain ⟨x, hx, _, hxi, hxs⟩ := hu d hd hp' hcan' c.id (hdd ▸ hdep)
      rw [eq_of_id h.ids hx hc hxi] at hxs
      rw [hxs] at ha
      cases ha
    rw [rewireCard_of_not hnot] at hi
    obtain ⟨x, hx, hxr, hxi, hxs⟩ := hset e he hp hcan i hi
    obtain ⟨y, hy, hyr, hyi, hys⟩ := hkeep x hx hxs
    exact ⟨y, hy, hyr.trans hxr, hyi.trans hxi, hys⟩
  · -- a new task that is not PENDING is the entry of the body
    have hentry : ∀ d ∈ t.depsOf d'.name, t.inside loop d = false := by
      intro d hd
      by_contra hin
      rw [Bool.not_eq_false] at hin
      exact hp (hnew.later d' hd' ⟨d, hd, hin⟩).1
    have hname := (t.entry_iff hl (hnew.name_mem hd').2).mp hentry
    obtain ⟨m, hmi, hmn, hm⟩ := hnew.deps d' hd' i hi
    have hin := hentry m.name hmn
    rcases hm with ⟨hin', _⟩ | ⟨_, hm⟩
    · rw [hin] at hin'
      cases hin'
    · obtain ⟨hlast, hmem, hne⟩ := outside_of_round h hc hcheck hin hm
      have hms := hok c hc rfl r hr hrun t ht d'.name (hnew.name_mem hd').1 (hnew.name_mem hd').2 m.name hmn hin m
        hlast hname
      obtain ⟨y, hy, hyr, hyi, hys⟩ := hkeep m (mem_setState_other hmem hne) hms
      refine ⟨y, hy, ?_, hyi.trans hmi, hys⟩
      rw [hyr, hnew.inRun d' hd']
      exact (mem_ofRun.mp (mem_latestCard hlast).1).2

theorem unlocked_start (hu : Unlocked b.cards) {run : Id} {t : WorkflowTemplate}
    {new : List Card} (hnew : Added t.toTemplateSpec (fun _ => true) [] run b.cards new) :
    Unlocked (b.cards ++ new) := by
  intro d' hd' hp hcan i hi
  rcases List.mem_append.mp hd' with hd' | hd'
  · obtain ⟨x, hx, hh⟩ := hu d' hd' hp hcan i hi
    exact ⟨x, List.mem_append_left _ hx, hh⟩
  · obtain ⟨m, _, hmn, _⟩ := hnew.deps d' hd' i hi
    exact absurd (hnew.later d' hd' ⟨m.name, hmn, rfl⟩).1 hp

theorem unlocked_step {e : Event} (h : Shape reg b) (hu : Unlocked b.cards)
    (hok : EntryReady reg b e) (hs : BoardStep reg b e b') : Unlocked b'.cards := by
  cases hs with
  | move hc ha _ => exact unlocked_move h hu hc ha
  | die hc hnf hs he =>
    rcases hs with rfl | ⟨rfl, ha⟩
    · exact unlocked_ends h hu hc hnf rfl (.inl rfl) he
    · exact unlocked_ends h hu hc hnf rfl (.inr ha) he
  | stop hc ha he =>
    exact unlocked_ends h hu hc (TaskState.final_of_active ha) rfl (.inr ha) he
  | finish hc ha hcards _ _ => exact unlocked_finish h hu hc ha hcards
  | round hc ha hr hrun ht hl hcheck _ hnew _ _ =>
    exact unlocked_round h hu hc ha hr hrun ht hl hcheck hnew hok
  | start _ _ _ hnew => exact unlocked_start hu hnew

end Autora
