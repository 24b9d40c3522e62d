import Autora.BoardUnlocking
import Autora.BoardWaiting

/-! What the laws of the board say about a run: it never deadlocks, what depends
on a dead task is cancelled, and what is final or closed stays so. -/

namespace Autora

open Systems Prerequisites

variable {reg : String → Option WorkflowTemplate} {b b' : Board}

/-! Runs of the board. -/

theorem boards_shape {ok : Board → Event → Prop} (h : (boards reg).Reach ok b) :
    Shape reg b := by
  have hinit : ∀ b, (boards reg).init b → Shape reg b := by
    rintro b ⟨hc, hr⟩
    refine ⟨by simp [hc], by simp [hr], fun c hmem => ?_, fun r hmem => ?_⟩
    · simp [hc] at hmem
    · simp [hr] at hmem
  have hstep : ∀ b e b', Shape reg b → ok b e → (boards reg).step b e b' → Shape reg b' :=
    fun _ _ _ hs _ hstep => BoardStep.shape hs hstep
  exact System.Reach.invariant hinit hstep h

theorem boards_unlocked (h : (boards reg).Reach (EntryReady reg) b) : Unlocked b.cards := by
  have hinit : ∀ b, (boards reg).init b → Shape reg b ∧ Unlocked b.cards := by
    intro b hb
    refine ⟨boards_shape (.init hb : (boards reg).Reach anyStep b), fun d hd => ?_⟩
    simp [hb.1] at hd
  have hstep : ∀ b e b', Shape reg b ∧ Unlocked b.cards → EntryReady reg b e →
      (boards reg).step b e b' → Shape reg b' ∧ Unlocked b'.cards :=
    fun _ _ _ hs hok hstep => ⟨BoardStep.shape hs.1 hstep, unlocked_step hs.1 hs.2 hok hstep⟩
  exact (System.Reach.invariant hinit hstep h).2

theorem boards_waiting (h : (boards reg).Reach (BodyAlive reg) b) : Waiting b.cards := by
  have hinit : ∀ b, (boards reg).init b → Shape reg b ∧ Waiting b.cards := by
    intro b hb
    refine ⟨boards_shape (.init hb : (boards reg).Reach anyStep b), fun d hd => ?_⟩
    simp [hb.1] at hd
  have hstep : ∀ b e b', Shape reg b ∧ Waiting b.cards → BodyAlive reg b e →
      (boards reg).step b e b' → Shape reg b' ∧ Waiting b'.cards :=
    fun _ _ _ hs hok hstep => ⟨BoardStep.shape hs.1 hstep, waiting_step hs.1 hs.2 hok hstep⟩
  exact (System.Reach.invariant hinit hstep h).2

/-! No deadlock. -/

/-- A direct prerequisite on the board. -/
def Prerequisite (cards : List Card) (run : Id) (c d : Card) : Prop :=
  c ∈ cards ∧ d ∈ cards ∧ c.run = run ∧ d.run = run ∧ d.id ∈ c.deps

theorem prerequisite_rank (h : Shape reg b) {r : RunCard} (hr : r ∈ b.runs) :
    ∃ rank : Card → Nat, ∀ c d, Prerequisite b.cards r.id c d → rank d < rank c := by
  by_cases hc : ∃ c ∈ b.cards, c.run = r.id
  · obtain ⟨c, hc, hcr⟩ := hc
    obtain ⟨r', hr', hid, t, ht, _⟩ := h.follows c hc
    have hrr : r' = r := List.inj_on_of_nodup_map h.runIds hr' hr (hid.trans hcr)
    refine ⟨fun c => t.rank c.name, ?_⟩
    rintro x y ⟨hx, hy, hxr, hyr, hdep⟩
    obtain ⟨r₂, hr₂, hid₂, t₂, ht₂, _, hdeps⟩ := h.follows x hx
    have hrr₂ : r₂ = r := List.inj_on_of_nodup_map h.runIds hr₂ hr (hid₂.trans hxr)
    have htt : t₂ = t := by
      rw [hrr₂] at ht₂
      rw [hrr] at ht
      exact Option.some.inj (ht₂.symm.trans ht)
    obtain ⟨z, hz, _, hzi, hzn⟩ := hdeps y.id hdep
    have hzy : z = y := eq_of_id h.ids hz hy hzi
    rw [htt, hzy] at hzn
    exact t.rank_lt hzn
  · refine ⟨fun _ => 0, ?_⟩
    rintro x y ⟨hx, _, hxr, _⟩
    exact absurd ⟨x, hx, hxr⟩ hc

/-- While a run is RUNNING some task of it is unlocked and not ended. -/
theorem exists_active (h : Shape reg b) (hw : Waiting b.cards) {r : RunCard} (hr : r ∈ b.runs)
    (hrun : r.state = .running) : ∃ c ∈ b.cards, c.run = r.id ∧ c.state.active = true := by
  obtain ⟨c, hc, hcr, hcf⟩ : ∃ c ∈ b.cards, c.run = r.id ∧ c.state.final = false := by
    rcases h.settled r hr with ⟨_, hh⟩ | ⟨_, ho⟩
    · exact hh
    · rw [ho] at hrun
      exact absurd hrun (outcome_ne_running _)
  by_cases hp : c.state = .pending
  · obtain ⟨rank, hrank⟩ := prerequisite_rank h hr
    have hneeds : ∀ x, (x ∈ b.cards ∧ x.run = r.id ∧ x.state = .pending) →
        ∃ y, Prerequisite b.cards r.id x y ∧
          ((y ∈ b.cards ∧ y.run = r.id ∧ y.state = .pending) ∨
            (y ∈ b.cards ∧ y.run = r.id ∧ y.state.active = true)) := by
      rintro x ⟨hx, hxr, hxp⟩
      obtain ⟨halive, y, hy, hyr, hyd, hys⟩ := hw x hx hxp
      have hdead := halive y hy hyr hyd
      have hyr' := hyr.trans hxr
      refine ⟨y, ⟨hx, hy, hxr, hyr', hyd⟩, ?_⟩
      by_cases hyp : y.state = .pending
      · exact .inl ⟨hy, hyr', hyp⟩
      · refine .inr ⟨hy, hyr', ?_⟩
        revert hdead hys hyp
        cases y.state <;> decide
    obtain ⟨y, ⟨hy, hyr, hya⟩, _⟩ := exists_live hrank hneeds ⟨hc, hcr, hp⟩
    exact ⟨y, hy, hyr, hya⟩
  · refine ⟨c, hc, hcr, ?_⟩
    revert hcf hp
    cases c.state <;> decide

/-! Death spreads. -/

theorem cancelled_of_dead (h : Shape reg b) (hu : Unlocked b.cards) (hw : Waiting b.cards)
    {run : Id} {c d : Card} (hcd : Relation.TransGen (Prerequisite b.cards run) c d)
    (hd : d.state.dead = true) : c.state = .cancelled := by
  have hstep : ∀ x y, Prerequisite b.cards run x y → y.state.dead = true →
      x.state = .cancelled := by
    rintro x y ⟨hx, hy, hxr, hyr, hdep⟩ hyd
    by_contra hcan
    by_cases hp : x.state = .pending
    · have hh := (hw x hx hp).alive y hy (hyr.trans hxr.symm) hdep
      rw [hyd] at hh
      cases hh
    · obtain ⟨z, hz, _, hzi, hzs⟩ := hu x hx hp hcan y.id hdep
      rw [eq_of_id h.ids hz hy hzi] at hzs
      rw [hzs] at hyd
      cases hyd
  have hspread : ∀ x y, Prerequisite b.cards run x y → y.state.dead = true →
      x.state.dead = true := by
    intro x y hxy hyd
    rw [hstep x y hxy hyd]
    rfl
  obtain ⟨e, hce, hr⟩ := Relation.TransGen.head'_iff.mp hcd
  refine hstep c e hce ?_
  rcases Relation.reflTransGen_iff_eq_or_transGen.mp hr with rfl | hr
  · exact hd
  · exact spreads hspread hr hd

/-! What is final stays. -/

theorem mem_map_of_fixed {cards : List Card} {f : Card → Card} {x : Card} (hx : x ∈ cards)
    (hf : f x = x) : x ∈ cards.map f :=
  hf ▸ List.mem_map_of_mem hx

/-- A final task keeps its state for good; only its dependencies may be rewired. -/
theorem final_persists {e : Event} (h : Shape reg b) (hs : BoardStep reg b e b') {x : Card}
    (hx : x ∈ b.cards) (hf : x.state.final = true) :
    ∃ y ∈ b'.cards, y.id = x.id ∧ y.run = x.run ∧ y.name = x.name ∧ y.state = x.state := by
  have hne : ∀ c ∈ b.cards, c.state.final = false → x.id ≠ c.id := by
    intro c hc hcf he
    rw [eq_of_id h.ids hx hc he, hcf] at hf
    cases hf
  cases hs with
  | move hc ha _ =>
    exact ⟨x, mem_setState_other hx (hne _ hc (TaskState.final_of_active ha)), rfl, rfl, rfl, rfl⟩
  | die hc hu _ he => exact ⟨x, he.keeps hx (hne _ hc hu) hf, rfl, rfl, rfl, rfl⟩
  | stop hc ha he =>
    exact ⟨x, he.keeps hx (hne _ hc (TaskState.final_of_active ha)) hf, rfl, rfl, rfl, rfl⟩
  | finish hc ha hcards _ _ =>
    have hmem := mem_setState_other (s := .succeeded) hx (hne _ hc (TaskState.final_of_active ha))
    have hp : x.state ≠ .pending := by
      intro hp
      rw [hp] at hf
      cases hf
    rw [hcards]
    exact ⟨x, mem_map_of_fixed hmem (unlockCard_of_ne hp), rfl, rfl, rfl, rfl⟩
  | round hc ha _ _ _ _ _ _ _ _ _ =>
    have hmem := mem_setState_other (s := .succeeded) hx (hne _ hc (TaskState.final_of_active ha))
    refine ⟨_, List.mem_append_left _ (List.mem_map_of_mem hmem), ?_, ?_, ?_, ?_⟩
    · exact rewireCard_id _ _ _ _
    · exact rewireCard_run _ _ _ _
    · exact rewireCard_name _ _ _ _
    · exact rewireCard_state _ _ _ _
  | start _ _ _ _ => exact ⟨x, List.mem_append_left _ hx, rfl, rfl, rfl, rfl⟩

theorem Closes.keeps {run : Id} {cards : List Card} {runs runs' : List RunCard}
    (h : Closes run cards runs runs') {r : RunCard} (hr : r ∈ runs) (hne : r.id ≠ run) :
    r ∈ runs' := by
  rcases h with rfl | ⟨_, _, rfl⟩
  · exact hr
  · exact List.mem_map.mpr ⟨r, hr, if_neg hne⟩

/-- A run that has closed is never touched again. -/
theorem closed_persists {e : Event} (h : Shape reg b) (hs : BoardStep reg b e b') {r : RunCard}
    (hr : r ∈ b.runs) (hclosed : r.state ≠ .running) : r ∈ b'.runs := by
  have hne : ∀ c ∈ b.cards, c.state.final = false → r.id ≠ c.run := by
    intro c hc hcf he
    exact hclosed (h.running hc hcf r hr he)
  cases hs with
  | move _ _ _ => exact hr
  | die hc hu _ he =>
    obtain ⟨_, hsp⟩ := he.cascade
    exact hsp.closes.keeps hr (hne _ hc hu)
  | stop hc ha he =>
    obtain ⟨_, hsp⟩ := he.cascade
    exact hsp.closes.keeps hr (hne _ hc (TaskState.final_of_active ha))
  | finish hc ha _ hcloses _ => exact hcloses.keeps hr (hne _ hc (TaskState.final_of_active ha))
  | round _ _ _ _ _ _ _ _ _ _ _ => exact hr
  | start _ _ _ _ => exact List.mem_append_left _ hr

end Autora
