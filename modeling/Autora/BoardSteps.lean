import Autora.Lib.Systems
import Autora.Board
import Autora.TemplateFacts

/-! The steps of the board: a task moves or ends, its end spreads, unlocks what
waits or starts another round, and a run starts. Every step keeps the board in
shape: ids are distinct, dependencies follow the template, and a run is RUNNING
as long as something of it is unfinished. -/

namespace Autora

open Systems

inductive Event where
  | move (id : Id) (s : TaskState)
  | die (id : Id) (s : TaskState)
  | stop (id : Id)
  | finish (id : Id)
  | round (id : Id) (loop : Loop)
  | start (run : Id)

/-- PENDING tasks that wait for `id` are ready when all they wait for succeeded. -/
def unlockCard (run id : Id) (cards : List Card) (d : Card) : Card :=
  if d.run = run ∧ id ∈ d.deps ∧ d.state = .pending ∧
      ∀ i ∈ d.deps, ∃ c ∈ cards, c.run = run ∧ c.id = i ∧ c.state = .succeeded then
    d.moved .ready
  else d

def rewireCard (run old new : Id) (d : Card) : Card :=
  if d.run = run ∧ old ∈ d.deps then
    { d with deps := d.deps.map fun i => if i = old then new else i }
  else d

/-- In creation order the last card of a name wins. -/
def latestCard (siblings : List Card) (name : String) : Option Card :=
  siblings.reverse.find? (·.name = name)

/-- The cards of a round (or of a new run, which has no siblings yet): they wait
for each other inside, and for the latest card of a name outside. -/
structure Added (t : TemplateSpec) (inside : String → Bool) (siblings : List Card) (run : Id)
    (cards new : List Card) : Prop where
  names : new.map (·.name) = (t.order.filter fun n => inside n.name).map (·.name)
  inRun : ∀ n ∈ new, n.run = run
  fresh : ((cards ++ new).map (·.id)).Nodup
  deps : ∀ n ∈ new, ∀ i ∈ n.deps, ∃ m, m.id = i ∧ m.name ∈ t.depsOf n.name ∧
    (inside m.name = true ∧ m ∈ new ∨
      inside m.name = false ∧ latestCard siblings m.name = some m)
  entry : ∀ n ∈ new, (∀ d ∈ t.depsOf n.name, inside d = false) → n.state = .ready
  later : ∀ n ∈ new, (∃ d ∈ t.depsOf n.name, inside d = true) →
    n.state = .pending ∧ ∃ m ∈ new, m.id ∈ n.deps

/-- A task ends in `s`, and what depended on it is cancelled. -/
structure Ends (c : Card) (s : TaskState) (b b' : Board) : Prop where
  cascade : Cascade c.run { b with cards := setState c.id s b.cards } b'
  stopped : Stopped c.id c.run b'
  completed : Completed c.run b'

inductive BoardStep (reg : String → Option WorkflowTemplate) : Board → Event → Board → Prop
  | move {b : Board} {c : Card} {s : TaskState} (hc : c ∈ b.cards)
      (ha : c.state.active = true) (hs : s.active = true) :
      BoardStep reg b (.move c.id s) { b with cards := setState c.id s b.cards }
  | die {b b' : Board} {c : Card} {s : TaskState} (hc : c ∈ b.cards)
      (hu : c.state.final = false) (hs : s = .cancelled ∨ s = .failed ∧ c.state.active = true)
      (he : Ends c s b b') : BoardStep reg b (.die c.id s) b'
  | stop {b b' : Board} {c : Card} (hc : c ∈ b.cards) (ha : c.state.active = true)
      (he : Ends c .succeeded b b') : BoardStep reg b (.stop c.id) b'
  | finish {b b' : Board} {c : Card} (hc : c ∈ b.cards) (ha : c.state.active = true)
      (hcards : b'.cards = (setState c.id .succeeded b.cards).map
        (unlockCard c.run c.id (setState c.id .succeeded b.cards)))
      (hcloses : Closes c.run b'.cards b.runs b'.runs) (hdone : Completed c.run b') :
      BoardStep reg b (.finish c.id) b'
  | round {b : Board} {c again : Card} {r : RunCard} {t : WorkflowTemplate} {loop : Loop}
      {new : List Card} (hc : c ∈ b.cards) (ha : c.state.active = true) (hr : r ∈ b.runs)
      (hrun : r.id = c.run) (ht : reg r.template = some t) (hl : loop ∈ t.loops)
      (hcheck : loop.check = c.name)
      (hrounds : ((ofRun b.cards c.run).countP (·.name = c.name) : Int) - 1 < loop.maxRounds)
      (hnew : Added t.toTemplateSpec (t.inside loop)
        (ofRun (setState c.id .succeeded b.cards) c.run) c.run b.cards new)
      (hagain : again ∈ new) (hname : again.name = c.name) :
      BoardStep reg b (.round c.id loop)
        ⟨(setState c.id .succeeded b.cards).map (rewireCard c.run c.id again.id) ++ new, b.runs⟩
  | start {b : Board} {r : RunCard} {t : WorkflowTemplate} {new : List Card}
      (hfresh : ∀ x ∈ b.runs, x.id ≠ r.id) (hstate : r.state = .running)
      (ht : reg r.template = some t)
      (hnew : Added t.toTemplateSpec (fun _ => true) [] r.id b.cards new) :
      BoardStep reg b (.start r.id) ⟨b.cards ++ new, b.runs ++ [r]⟩

def boards (reg : String → Option WorkflowTemplate) : System Board Event where
  init b := b.cards = [] ∧ b.runs = []
  step := BoardStep reg

/-! The shape of the board. -/

/-- A run is RUNNING while a task of it is unfinished, and closes with the
outcome its tasks have. -/
def Settled (cards : List Card) (r : RunCard) : Prop :=
  (r.state = .running ∧ ∃ c ∈ cards, c.run = r.id ∧ c.state.final = false) ∨
    (AllFinal cards r.id ∧ r.state = outcome (ofRun cards r.id))

/-- Dependencies are tasks of the same run, along an edge of its template. -/
def FollowsTemplate (reg : String → Option WorkflowTemplate) (b : Board) : Prop :=
  ∀ c ∈ b.cards, ∃ r ∈ b.runs, r.id = c.run ∧ ∃ t, reg r.template = some t ∧
    c.name ∈ t.names ∧
    ∀ i ∈ c.deps, ∃ d ∈ b.cards, d.run = c.run ∧ d.id = i ∧ d.name ∈ t.depsOf c.name

structure Shape (reg : String → Option WorkflowTemplate) (b : Board) : Prop where
  ids : (b.cards.map (·.id)).Nodup
  runIds : (b.runs.map (·.id)).Nodup
  follows : FollowsTemplate reg b
  settled : ∀ r ∈ b.runs, Settled b.cards r

theorem eq_of_id {cards : List Card} (hn : (cards.map (·.id)).Nodup) {c d : Card}
    (hc : c ∈ cards) (hd : d ∈ cards) (h : c.id = d.id) : c = d :=
  List.inj_on_of_nodup_map hn hc hd h

/-! Steps that only change states. -/

/-- `b'` has the cards and runs of `b`, in other states. -/
structure Restates (b b' : Board) : Prop where
  cards : ∃ f : Card → TaskState, b'.cards = b.cards.map fun c => c.moved (f c)
  runs : ∃ g : RunCard → WorkflowRunState, b'.runs = b.runs.map fun r => { r with state := g r }

theorem Restates.trans {b b' b'' : Board} (h : Restates b b') (h' : Restates b' b'') :
    Restates b b'' := by
  obtain ⟨⟨f, hf⟩, ⟨g, hg⟩⟩ := h
  obtain ⟨⟨f', hf'⟩, ⟨g', hg'⟩⟩ := h'
  refine ⟨⟨fun c => f' (c.moved (f c)), ?_⟩, ⟨fun r => g' { r with state := g r }, ?_⟩⟩
  · rw [hf', hf, List.map_map]
    rfl
  · rw [hg', hg, List.map_map]
    rfl

theorem map_moved_eq {cards : List Card} {f : Card → Card} {s : Card → TaskState}
    (h : ∀ c, f c = c.moved (s c)) : cards.map f = cards.map fun c => c.moved (s c) :=
  List.map_congr_left fun c _ => h c

theorem restates_setState (b : Board) (id : Id) (s : TaskState) :
    Restates b { b with cards := setState id s b.cards } := by
  refine ⟨⟨fun c => if c.id = id then s else c.state, map_moved_eq fun c => ?_⟩,
    ⟨fun r => r.state, (List.map_id _).symm⟩⟩
  by_cases h : c.id = id <;> simp [h, Card.moved]

theorem restates_runs {run : Id} {b : Board} {cards : List Card} {runs : List RunCard}
    (h : Closes run cards b.runs runs) :
    ∃ g : RunCard → WorkflowRunState, runs = b.runs.map fun r => { r with state := g r } := by
  rcases h with rfl | ⟨_, _, rfl⟩
  · exact ⟨fun r => r.state, (List.map_id _).symm⟩
  · refine ⟨fun r => if r.id = run then outcome (ofRun cards r.id) else r.state,
      List.map_congr_left fun r _ => ?_⟩
    by_cases hr : r.id = run <;> simp [hr, closeRun]

theorem Cascade.restates {run : Id} {b b' : Board} (h : Cascade run b b') : Restates b b' := by
  obtain ⟨doomed, hs⟩ := h
  refine ⟨⟨fun c => if c.id ∈ doomed then .cancelled else c.state, ?_⟩, restates_runs hs.closes⟩
  rw [hs.cards]
  refine map_moved_eq fun c => ?_
  by_cases hin : c.id ∈ doomed <;> simp [hin, Card.moved]

theorem Ends.restates {c : Card} {s : TaskState} {b b' : Board} (h : Ends c s b b') :
    Restates b b' :=
  (restates_setState b c.id s).trans h.cascade.restates

theorem restates_finish {b b' : Board} {c : Card}
    (hcards : b'.cards = (setState c.id .succeeded b.cards).map
      (unlockCard c.run c.id (setState c.id .succeeded b.cards)))
    (hcloses : Closes c.run b'.cards b.runs b'.runs) : Restates b b' := by
  refine (restates_setState b c.id .succeeded).trans ⟨?_, restates_runs hcloses⟩
  refine ⟨fun d => (unlockCard c.run c.id (setState c.id .succeeded b.cards) d).state, ?_⟩
  rw [hcards]
  refine map_moved_eq fun d => ?_
  unfold unlockCard
  split <;> rfl

section Restates

variable {b b' : Board} (h : Restates b b')

include h

theorem Restates.ids : b'.cards.map (·.id) = b.cards.map (·.id) := by
  obtain ⟨f, hf⟩ := h.cards
  rw [hf, List.map_map]
  rfl

theorem Restates.runIds : b'.runs.map (·.id) = b.runs.map (·.id) := by
  obtain ⟨g, hg⟩ := h.runs
  rw [hg, List.map_map]
  rfl

theorem Restates.old {c' : Card} (hc : c' ∈ b'.cards) : ∃ c ∈ b.cards, c' = c.moved c'.state := by
  obtain ⟨f, hf⟩ := h.cards
  rw [hf] at hc
  obtain ⟨d, hd, rfl⟩ := List.mem_map.mp hc
  exact ⟨d, hd, rfl⟩

theorem Restates.new {c : Card} (hc : c ∈ b.cards) : ∃ s, c.moved s ∈ b'.cards := by
  obtain ⟨f, hf⟩ := h.cards
  exact ⟨f c, hf ▸ List.mem_map_of_mem hc⟩

theorem Restates.newRun {r : RunCard} (hr : r ∈ b.runs) :
    ∃ s, { r with state := s } ∈ b'.runs := by
  obtain ⟨g, hg⟩ := h.runs
  exact ⟨g r, hg ▸ List.mem_map_of_mem hr⟩

theorem Restates.follows {reg : String → Option WorkflowTemplate} (hf : FollowsTemplate reg b) :
    FollowsTemplate reg b' := by
  intro c' hc'
  obtain ⟨c, hc, he⟩ := h.old hc'
  obtain ⟨r, hr, hrc, t, ht, hname, hdeps⟩ := hf c hc
  obtain ⟨s, hs⟩ := h.newRun hr
  rw [he]
  refine ⟨_, hs, hrc, t, ht, hname, fun i hi => ?_⟩
  obtain ⟨d, hd, hdr, hdi, hdn⟩ := hdeps i hi
  obtain ⟨s', hs'⟩ := h.new hd
  exact ⟨_, hs', hdr, hdi, hdn⟩

end Restates

/-! Which runs a step touches. -/

def OnlyIn (run : Id) (cards cards' : List Card) : Prop :=
  ∀ x, x ≠ run → ofRun cards' x = ofRun cards x

theorem onlyIn_map {run : Id} {cards : List Card} {f : Card → Card}
    (hrun : ∀ c, (f c).run = c.run) (h : ∀ c ∈ cards, c.run ≠ run → f c = c) :
    OnlyIn run cards (cards.map f) := by
  intro x hx
  induction cards with
  | nil => rfl
  | cons c cards ih =>
    have hh := ih fun d hd => h d (by simp [hd])
    simp only [ofRun, List.map_cons, List.filter_cons, hrun] at hh ⊢
    by_cases hc : c.run = x
    · have he := h c (by simp) (by rw [hc]; exact hx)
      simp only [hc, decide_true, if_true, he, hh]
    · simp only [hc, decide_false, Bool.false_eq_true, if_false, hh]

theorem onlyIn_setState {cards : List Card} (hn : (cards.map (·.id)).Nodup) {c : Card}
    (hc : c ∈ cards) (s : TaskState) : OnlyIn c.run cards (setState c.id s cards) := by
  refine onlyIn_map (fun d => ?_) fun d hd hne => ?_
  · split <;> rfl
  · refine if_neg fun he => hne ?_
    rw [eq_of_id hn hd hc he]

theorem OnlyIn.trans {run : Id} {xs ys zs : List Card} (h : OnlyIn run xs ys)
    (h' : OnlyIn run ys zs) : OnlyIn run xs zs :=
  fun x hx => (h' x hx).trans (h x hx)

theorem Cascade.onlyIn {run : Id} {b b' : Board} (h : Cascade run b b') :
    OnlyIn run b.cards b'.cards := by
  obtain ⟨doomed, hs⟩ := h
  rw [hs.cards]
  refine onlyIn_map (fun d => ?_) fun d hd hne => ?_
  · split <;> rfl
  · exact if_neg fun hin => hne (hs.inRun d hd hin)

theorem Closes.other {run : Id} {cards : List Card} {runs runs' : List RunCard}
    (h : Closes run cards runs runs') {r : RunCard} (hr : r ∈ runs') (hne : r.id ≠ run) :
    r ∈ runs := by
  rcases h with rfl | ⟨_, _, rfl⟩
  · exact hr
  · obtain ⟨x, hx, rfl⟩ := List.mem_map.mp hr
    by_cases hid : x.id = run
    · rw [if_pos hid] at hne
      exact absurd hid hne
    · rw [if_neg hid]
      exact hx

theorem settled_congr {cards cards' : List Card} {r : RunCard}
    (h : ofRun cards' r.id = ofRun cards r.id) (hs : Settled cards r) : Settled cards' r := by
  have hmem : ∀ c, c ∈ cards' ∧ c.run = r.id ↔ c ∈ cards ∧ c.run = r.id := by
    intro c
    rw [← mem_ofRun, h, mem_ofRun]
  rcases hs with ⟨hr, c, hc, hcr, hf⟩ | ⟨hf, ho⟩
  · have hm := (hmem c).mpr ⟨hc, hcr⟩
    exact .inl ⟨hr, c, hm.1, hcr, hf⟩
  · refine .inr ⟨fun c hc hcr => ?_, by rw [h]; exact ho⟩
    exact hf c ((hmem c).mp ⟨hc, hcr⟩).1 hcr

/-- A run that was RUNNING is settled again once it had the chance to close. -/
theorem settled_of_closes {run : Id} {b b' : Board} (hb : ∀ r ∈ b.runs, Settled b.cards r)
    (honly : OnlyIn run b.cards b'.cards)
    (hrun : ∀ r ∈ b.runs, r.id = run → r.state = .running)
    (hcloses : Closes run b'.cards b.runs b'.runs) (hdone : Completed run b') :
    ∀ r ∈ b'.runs, Settled b'.cards r := by
  intro r hr
  by_cases hid : r.id = run
  · by_cases hf : AllFinal b'.cards run
    · refine .inr ⟨by rw [hid]; exact hf, ?_⟩
      have hne := hdone hf r hr hid
      rcases hcloses with heq | ⟨_, _, heq⟩
      · rw [heq] at hr
        exact absurd (hrun r hr hid) hne
      · rw [heq] at hr
        obtain ⟨x, hx, rfl⟩ := List.mem_map.mp hr
        by_cases hx' : x.id = run
        · rw [if_pos hx']
          rfl
        · rw [if_neg hx'] at hid
          exact absurd hid hx'
    · left
      rcases hcloses with heq | ⟨hf', _, _⟩
      · rw [heq] at hr
        refine ⟨hrun r hr hid, ?_⟩
        by_contra hno
        refine hf fun c hc hcr => ?_
        by_contra hcf
        exact hno ⟨c, hc, by rw [hid]; exact hcr, by simpa using hcf⟩
      · exact absurd hf' hf
  · exact settled_congr (honly r.id hid) (hb r (hcloses.other hr hid))

/-- A run with an unfinished task is RUNNING. -/
theorem Shape.running {reg : String → Option WorkflowTemplate} {b : Board} (h : Shape reg b)
    {c : Card} (hc : c ∈ b.cards) (hu : c.state.final = false) :
    ∀ r ∈ b.runs, r.id = c.run → r.state = .running := by
  intro r hr hid
  rcases h.settled r hr with ⟨hs, _⟩ | ⟨hf, _⟩
  · exact hs
  · have hh := hf c hc hid.symm
    rw [hu] at hh
    cases hh

theorem Shape.restated {reg : String → Option WorkflowTemplate} {b b' : Board}
    (h : Shape reg b) (hr : Restates b b') (hs : ∀ r ∈ b'.runs, Settled b'.cards r) :
    Shape reg b' where
  ids := by
    rw [hr.ids]
    exact h.ids
  runIds := by
    rw [hr.runIds]
    exact h.runIds
  follows := hr.follows h.follows
  settled := hs

end Autora
