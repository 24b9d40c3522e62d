import Autora.BoardShape

/-! The laws of the board: when a task is unlocked, why a PENDING task still
waits for something alive, and what has ended for good. A loop round keeps them
when the tasks it waits for outside its body are in order. -/

namespace Autora

open Systems

variable {reg : String → Option WorkflowTemplate} {b b' : Board}

/-- A task that was unlocked and not cancelled had all it depends on succeed. -/
def Unlocked (cards : List Card) : Prop :=
  ∀ d ∈ cards, d.state ≠ .pending → d.state ≠ .cancelled →
    ∀ i ∈ d.deps, ∃ x ∈ cards, x.run = d.run ∧ x.id = i ∧ x.state = .succeeded

/-- A PENDING task waits for something, and for nothing that is dead. -/
structure Waits (cards : List Card) (d : Card) : Prop where
  alive : ∀ x ∈ cards, x.run = d.run → x.id ∈ d.deps → x.state.dead = false
  some : ∃ x ∈ cards, x.run = d.run ∧ x.id ∈ d.deps ∧ x.state ≠ .succeeded

def Waiting (cards : List Card) : Prop := ∀ d ∈ cards, d.state = .pending → Waits cards d

/-- In a round on the task `id`, the latest tasks outside the body that its nodes
depend on. -/
def OutsideDeps (reg : String → Option WorkflowTemplate) (b : Board) (id : Id) (loop : Loop)
    (P : String → TaskState → Prop) : Prop :=
  ∀ c ∈ b.cards, c.id = id → ∀ r ∈ b.runs, r.id = c.run → ∀ t ∈ reg r.template,
    ∀ name ∈ t.names, t.inside loop name = true → ∀ d ∈ t.depsOf name, t.inside loop d = false →
      ∀ m ∈ latestCard (ofRun b.cards c.run) d, P name m.state

/-- A round starts only when what its entry waits for has succeeded. -/
def EntryReady (reg : String → Option WorkflowTemplate) (b : Board) : Event → Prop
  | .round id loop => OutsideDeps reg b id loop fun name s => name = loop.backTo → s = .succeeded
  | _ => True

/-- A round starts only when nothing its other nodes wait for is dead. -/
def BodyAlive (reg : String → Option WorkflowTemplate) (b : Board) : Event → Prop
  | .round id loop => OutsideDeps reg b id loop fun name s => name ≠ loop.backTo → s.dead = false
  | _ => True

instance (b : Board) (id : Id) (loop : Loop) (P : String → TaskState → Prop)
    [∀ name, DecidablePred (P name)] : Decidable (OutsideDeps reg b id loop P) := by
  unfold OutsideDeps
  infer_instance

instance (b : Board) : DecidablePred (EntryReady reg b)
  | .round id loop => inferInstanceAs (Decidable (OutsideDeps reg b id loop fun name s =>
      name = loop.backTo → s = .succeeded))
  | .move _ _ | .die _ _ | .stop _ | .finish _ | .start _ => isTrue trivial

instance (b : Board) : DecidablePred (BodyAlive reg b)
  | .round id loop => inferInstanceAs (Decidable (OutsideDeps reg b id loop fun name s =>
      name ≠ loop.backTo → s.dead = false))
  | .move _ _ | .die _ _ | .stop _ | .finish _ | .start _ => isTrue trivial

/-! What becomes of a card. -/

theorem mem_setState_other {cards : List Card} {id : Id} {s : TaskState} {x : Card}
    (hx : x ∈ cards) (hne : x.id ≠ id) : x ∈ setState id s cards :=
  mem_setState.mpr ⟨x, hx, if_neg hne⟩

theorem setState_cases {cards : List Card} (hn : (cards.map (·.id)).Nodup) {c : Card}
    (hc : c ∈ cards) {s : TaskState} {e : Card} (he : e ∈ setState c.id s cards) :
    e = c.moved s ∨ e ∈ cards ∧ e.id ≠ c.id := by
  obtain ⟨d, hd, rfl⟩ := mem_setState.mp he
  by_cases hid : d.id = c.id
  · rw [if_pos hid, eq_of_id hn hd hc hid]
    exact .inl rfl
  · rw [if_neg hid]
    exact .inr ⟨hd, hid⟩

section Ends

variable {c : Card} {s : TaskState} (h : Ends c s b b') (hn : (b.cards.map (·.id)).Nodup)
  (hc : c ∈ b.cards) (hs : s.final = true)

include h hn hc hs

/-- After a task ended each card is that task, untouched, or cancelled with
everything that depends on it. -/
theorem Ends.cases {d' : Card} (hd : d' ∈ b'.cards) :
    d' = c.moved s ∨ (d' ∈ b.cards ∧ d'.id ≠ c.id) ∨
      ∃ d ∈ b.cards, d.id ≠ c.id ∧ d.state.final = false ∧ d' = d.moved .cancelled ∧
        d.run = c.run ∧ Stopped d.id c.run b' := by
  obtain ⟨doomed, hsp⟩ := h.cascade
  rw [hsp.cards, mem_doom] at hd
  obtain ⟨e, he, heq⟩ := hd
  have hcases := setState_cases hn hc he
  by_cases hin : e.id ∈ doomed
  · rw [if_pos hin] at heq
    have hu := hsp.unfinished e he hin
    rcases hcases with rfl | ⟨hmem, hne⟩
    · rw [Card.moved_state, hs] at hu
      cases hu
    · refine .inr (.inr ⟨e, hmem, hne, hu, heq.symm, hsp.inRun e he hin, ?_⟩)
      intro x' hx' hxr hdep
      rw [hsp.cards, mem_doom] at hx'
      obtain ⟨x, hx, rfl⟩ := hx'
      by_cases hxin : x.id ∈ doomed
      · rw [if_pos hxin]
        rfl
      · rw [if_neg hxin] at hxr hdep ⊢
        exact (hsp.downstream e he hin x hx hxr hdep).resolve_right hxin
  · rw [if_neg hin] at heq
    subst heq
    rcases hcases with h | h
    · exact .inl h
    · exact .inr (.inl h)

omit hn in
theorem Ends.self : c.moved s ∈ b'.cards := by
  obtain ⟨doomed, hsp⟩ := h.cascade
  exact hsp.final (mem_setState_self hc s) hs

omit hn hc hs in
theorem Ends.keeps {x : Card} (hx : x ∈ b.cards) (hne : x.id ≠ c.id)
    (hf : x.state.final = true) : x ∈ b'.cards := by
  obtain ⟨doomed, hsp⟩ := h.cascade
  exact hsp.final (mem_setState_other hx hne) hf

omit hn hc hs in
/-- What was not succeeded is not succeeded afterwards, but for the task itself. -/
theorem Ends.image {x : Card} (hx : x ∈ b.cards) (hne : x.id ≠ c.id) :
    x ∈ b'.cards ∨ x.moved .cancelled ∈ b'.cards := by
  obtain ⟨doomed, hsp⟩ := h.cascade
  rw [hsp.cards]
  by_cases hin : x.id ∈ doomed
  · exact .inr (mem_doom.mpr ⟨x, mem_setState_other hx hne, if_pos hin⟩)
  · exact .inl (mem_doom.mpr ⟨x, mem_setState_other hx hne, if_neg hin⟩)

end Ends

theorem unlockCard_of_ne {run id : Id} {cards : List Card} {d : Card} (h : d.state ≠ .pending) :
    unlockCard run id cards d = d :=
  if_neg fun hh => h hh.2.2.1

/-- In a round the outside dependencies of a new card are the latest cards of
before the round: the finished check is inside. -/
theorem latest_outside (h : Shape reg b) {c : Card} (hc : c ∈ b.cards) {name : String}
    (hne : name ≠ c.name) {s : TaskState} {m : Card}
    (hm : latestCard (ofRun (setState c.id s b.cards) c.run) name = some m) :
    latestCard (ofRun b.cards c.run) name = some m ∧ m ∈ b.cards ∧ m.id ≠ c.id := by
  have hmap : ofRun (setState c.id s b.cards) c.run =
      (ofRun b.cards c.run).map fun d => if d.id = c.id then d.moved s else d := by
    simp only [ofRun, setState, List.filter_map]
    congr 1
    refine List.filter_congr fun d _ => ?_
    by_cases hd : d.id = c.id <;> simp [hd]
  have hpred : (fun d : Card => decide ((if d.id = c.id then d.moved s else d).name = name)) =
      fun d => decide (d.name = name) := by
    funext d
    by_cases hd : d.id = c.id <;> simp [hd]
  unfold latestCard at hm ⊢
  rw [hmap, ← List.map_reverse, List.find?_map] at hm
  simp only [Function.comp_def, hpred] at hm
  cases hf : (ofRun b.cards c.run).reverse.find? fun d => decide (d.name = name) with
  | none =>
    rw [hf] at hm
    cases hm
  | some d =>
    rw [hf] at hm
    have hdn : d.name = name := by simpa using List.find?_some hf
    have hd : d ∈ b.cards := (mem_ofRun.mp (List.mem_reverse.mp (List.mem_of_find?_eq_some hf))).1
    have hid : d.id ≠ c.id := fun e => hne (by rw [← hdn, eq_of_id h.ids hd hc e])
    simp only [Option.map_some, hid, if_false, Option.some.injEq] at hm
    subst hm
    exact ⟨rfl, hd, hid⟩

theorem outside_of_round (h : Shape reg b) {c : Card} {t : WorkflowTemplate} {loop : Loop}
    (hc : c ∈ b.cards) (hcheck : loop.check = c.name) {name : String}
    (hin : t.inside loop name = false) {m : Card}
    (hm : latestCard (ofRun (setState c.id .succeeded b.cards) c.run) name = some m) :
    latestCard (ofRun b.cards c.run) name = some m ∧ m ∈ b.cards ∧ m.id ≠ c.id := by
  refine latest_outside h hc (fun he => ?_) hm
  rw [he, ← hcheck, t.inside_check loop] at hin
  cases hin

theorem rewireCard_of_not {run old new : Id} {d : Card} (h : old ∉ d.deps) :
    rewireCard run old new d = d :=
  if_neg fun hh => h hh.2

/-- A dependency of a card that was there before is not a card added now. -/
theorem Shape.dep_old (h : Shape reg b) {d : Card} (hd : d ∈ b.cards) {i : Id} (hi : i ∈ d.deps) :
    ∃ y ∈ b.cards, y.run = d.run ∧ y.id = i := by
  obtain ⟨_, _, _, _, _, _, hdeps⟩ := h.follows d hd
  obtain ⟨y, hy, hyr, hyi, _⟩ := hdeps i hi
  exact ⟨y, hy, hyr, hyi⟩

end Autora
