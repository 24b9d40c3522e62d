import Mathlib.Logic.Function.Basic
import Autora.Fsm
import Autora.Lib.Walks

/-! The search for a path between two states finds a shortest one, and moving along it leaves a
chain of legal steps behind. -/

namespace Autora

namespace StateMachine

open Walks

variable {S : Type} [DecidableEq S] {m : StateMachine S} {start goal current x y : S}
  {previous : List (S × S)} {todo frontier : List S} {level : S → Nat}

/-- A declared transition. -/
def Step (m : StateMachine S) (a b : S) : Prop := b ∈ m.allowedFrom a

def Seen (start : S) (previous : List (S × S)) (x : S) : Prop :=
  x = start ∨ (previous.lookup x).isSome = true

instance (start : S) (previous : List (S × S)) : DecidablePred (Seen start previous) :=
  fun _ => inferInstanceAs (Decidable (_ ∨ _))

/-- What the search knows while `todo` is still to be looked at: how far every state seen is from
the start, and that the states to look at come in that order. -/
structure Explored (m : StateMachine S) (start : S) (level : S → Nat) (previous : List (S × S))
    (todo : List S) : Prop where
  start_level : level start = 0
  parent : ∀ x p, previous.lookup x = some p →
    x ≠ start ∧ Seen start previous p ∧ m.Step p x ∧ level x = level p + 1
  least : ∀ x, Seen start previous x → ∀ n, Walk m.Step start n x → level x ≤ n
  level_le : ∀ x, Seen start previous x → level x ≤ previous.length
  todo_seen : ∀ x ∈ todo, Seen start previous x
  sorted : todo.Pairwise fun x y => level x ≤ level y
  span : ∀ x ∈ todo, ∀ y ∈ todo, level y ≤ level x + 1
  closed : ∀ x, Seen start previous x → x ∉ todo → ∀ y, m.Step x y → Seen start previous y

theorem explored_start (m : StateMachine S) (start : S) :
    Explored m start (fun _ => 0) [] [start] where
  start_level := rfl
  parent x p h := by cases h
  least x _ n _ := Nat.zero_le n
  level_le x _ := Nat.le_refl 0
  todo_seen x hx := Or.inl (List.mem_singleton.mp hx)
  sorted := List.pairwise_singleton _ _
  span x _ y _ := Nat.zero_le _
  closed x hx hnot := by
    rcases hx with rfl | hx
    · exact absurd (List.mem_singleton_self x) hnot
    · cases hx

theorem Seen.cons {z p : S} (h : Seen start previous x) : Seen start ((z, p) :: previous) x := by
  rcases h with rfl | h
  · exact Or.inl rfl
  · refine Or.inr ?_
    rw [List.lookup_cons]
    split
    · rfl
    · exact h

theorem seen_cons {z p : S} : Seen start ((z, p) :: previous) x ↔ x = z ∨ Seen start previous x := by
  constructor
  · rintro (rfl | h)
    · exact Or.inr (Or.inl rfl)
    · rw [List.lookup_cons] at h
      split at h
      · next hx => exact Or.inl (beq_iff_eq.mp hx)
      · exact Or.inr (Or.inr h)
  · rintro (rfl | h)
    · exact Or.inr (by rw [List.lookup_cons_self]; rfl)
    · exact h.cons

/-- Every way to a state that is not seen yet is longer than the way to the current one. -/
theorem Explored.lt_of_walk (h : Explored m start level previous (current :: frontier)) {n : Nat}
    (hw : Walk m.Step start n x) : Seen start previous x ∨ level current + 1 ≤ n := by
  induction hw with
  | start => exact Or.inl (Or.inl rfl)
  | @step n b c hw hr ih =>
    rcases ih with hb | hn
    · by_cases htodo : b ∈ current :: frontier
      · -- the walk goes through a state that waits: it is no nearer than the current one
        right
        have hleast := h.least b hb n hw
        rcases List.mem_cons.mp htodo with rfl | hin
        · omega
        · have hle := List.rel_of_pairwise_cons h.sorted hin
          omega
      · exact Or.inl (h.closed b hb htodo c hr)
    · exact Or.inr (by omega)

/-- A new state goes to the end of the frontier. -/
theorem Explored.visit (h : Explored m start level previous (current :: frontier))
    (hstep : m.Step current y) (hnew : ¬ Seen start previous y) :
    Explored m start (Function.update level y (level current + 1)) ((y, current) :: previous)
      (current :: (frontier ++ [y])) := by
  have hold : ∀ x, Seen start previous x →
      Function.update level y (level current + 1) x = level x := by
    intro x hx
    apply Function.update_of_ne
    rintro rfl
    exact hnew hx
  have hself : Function.update level y (level current + 1) y = level current + 1 :=
    Function.update_self y _ _
  have hcurrent := h.todo_seen current List.mem_cons_self
  have hseen : ∀ x, Seen start ((y, current) :: previous) x ↔ x = y ∨ Seen start previous x :=
    fun x => seen_cons
  have htodo : ∀ x ∈ current :: (frontier ++ [y]), x = y ∨ x ∈ current :: frontier := by
    intro x hx
    rw [← List.cons_append, List.mem_append, List.mem_singleton] at hx
    exact hx.symm
  constructor
  · rw [hold start (Or.inl rfl)]
    exact h.start_level
  · intro x p hp
    rw [List.lookup_cons] at hp
    split at hp
    · next hx =>
      cases hp
      rw [beq_iff_eq.mp hx, hself, hold current hcurrent]
      exact ⟨fun hs => hnew (Or.inl hs), hcurrent.cons, hstep, rfl⟩
    · obtain ⟨hne, hseenp, hr, hlevel⟩ := h.parent x p hp
      have hx : Seen start previous x := Or.inr (by rw [hp]; rfl)
      rw [hold x hx, hold p hseenp]
      exact ⟨hne, hseenp.cons, hr, hlevel⟩
  · intro x hx n hw
    rcases (hseen x).mp hx with rfl | hx
    · rw [hself]
      exact (h.lt_of_walk hw).resolve_left hnew
    · rw [hold x hx]
      exact h.least x hx n hw
  · intro x hx
    rw [List.length_cons]
    rcases (hseen x).mp hx with rfl | hx
    · have hle := h.level_le current hcurrent
      rw [hself]
      omega
    · have hle := h.level_le x hx
      rw [hold x hx]
      omega
  · intro x hx
    rcases htodo x hx with rfl | hx
    · exact (hseen x).mpr (Or.inl rfl)
    · exact (h.todo_seen x hx).cons
  · rw [← List.cons_append, List.pairwise_append]
    refine ⟨?_, List.pairwise_singleton _ _, ?_⟩
    · refine List.Pairwise.imp_of_mem (fun {a b} ha hb hab => ?_) h.sorted
      rw [hold a (h.todo_seen a ha), hold b (h.todo_seen b hb)]
      exact hab
    · intro x hx z hz
      rw [List.mem_singleton.mp hz, hself, hold x (h.todo_seen x hx)]
      exact h.span current List.mem_cons_self x hx
  · intro a ha b hb
    have hfirst : ∀ x ∈ current :: frontier, level current ≤ level x := by
      intro x hx
      rcases List.mem_cons.mp hx with rfl | hx
      · exact Nat.le_refl _
      · exact List.rel_of_pairwise_cons h.sorted hx
    rcases htodo a ha with rfl | hola
    · rw [hself]
      rcases htodo b hb with rfl | hb
      · rw [hself]
        omega
      · have hspan := h.span current List.mem_cons_self b hb
        rw [hold b (h.todo_seen b hb)]
        omega
    · rw [hold a (h.todo_seen a hola)]
      rcases htodo b hb with rfl | holb
      · have hle := hfirst a hola
        rw [hself]
        omega
      · rw [hold b (h.todo_seen b holb)]
        exact h.span a hola b holb
  · intro x hx hnot z hr
    rcases (hseen x).mp hx with rfl | hx
    · refine absurd ?_ hnot
      rw [← List.cons_append]
      exact List.mem_append_right _ (List.mem_singleton_self x)
    · refine (h.closed x hx (fun hin => hnot ?_) z hr).cons
      rw [← List.cons_append]
      exact List.mem_append_left _ hin

/-- A state whose moves have all been tried is left behind. -/
theorem Explored.pop (h : Explored m start level previous (current :: frontier))
    (hall : ∀ y, m.Step current y → Seen start previous y) :
    Explored m start level previous frontier where
  start_level := h.start_level
  parent := h.parent
  least := h.least
  level_le := h.level_le
  todo_seen x hx := h.todo_seen x (List.mem_cons_of_mem _ hx)
  sorted := h.sorted.of_cons
  span x hx y hy := h.span x (List.mem_cons_of_mem _ hx) y (List.mem_cons_of_mem _ hy)
  closed x hx hnot y hr := by
    by_cases hxc : x = current
    · exact hall y (hxc ▸ hr)
    · exact h.closed x hx (fun hin => (List.mem_cons.mp hin).elim hxc hnot) y hr

/-- The states not seen yet. -/
def unseen (states : List S) (start : S) (previous : List (S × S)) : Nat :=
  (states.filter fun s => ¬ Seen start previous s).length

theorem unseen_visit {states : List S} (hy : y ∈ states) (hnew : ¬ Seen start previous y) :
    unseen states start ((y, current) :: previous) < unseen states start previous := by
  have hsub : (states.filter fun s => ¬ Seen start ((y, current) :: previous) s).Sublist
      (states.filter fun s => ¬ Seen start previous s) := by
    refine List.monotone_filter_right states fun s hs => ?_
    rw [decide_eq_true_eq] at hs ⊢
    exact fun h => hs h.cons
  refine lt_of_le_of_ne hsub.length_le fun heq => ?_
  have hmem : y ∈ states.filter fun s => ¬ Seen start previous s :=
    List.mem_filter.mpr ⟨hy, decide_eq_true hnew⟩
  rw [← hsub.eq_of_length heq] at hmem
  exact of_decide_eq_true (List.mem_filter.mp hmem).2 (seen_cons.mpr (Or.inl rfl))

/-- What is left when the moves of the current state have been tried: the goal was not among them
and they are all seen, or the goal is a new state next to the current one. -/
inductive Expanded (m : StateMachine S) (states : List S) (start goal current : S)
    (fuel : Nat) (nexts : List S) : List (S × S) × List S × Bool → Prop
  | missed {level : S → Nat} {previous : List (S × S)} {frontier : List S} :
    Explored m start level previous (current :: frontier) → ¬ Seen start previous goal →
    (∀ y ∈ nexts, Seen start previous y) →
    frontier.length + unseen states start previous ≤ fuel →
    Expanded m states start goal current fuel nexts (previous, frontier, false)
  | found {level : S → Nat} {previous : List (S × S)} {frontier : List S} :
    Explored m start level previous (current :: frontier) → ¬ Seen start previous goal →
    m.Step current goal →
    Expanded m states start goal current fuel nexts ((goal, current) :: previous, frontier, true)

theorem expand_spec {states : List S} (hall : ∀ s, s ∈ states) {fuel : Nat} {nexts : List S} :
    ∀ {level : S → Nat} {previous : List (S × S)} {frontier : List S} (done : List S),
      Explored m start level previous (current :: frontier) → ¬ Seen start previous goal →
      (∀ y ∈ nexts, m.Step current y) → (∀ y ∈ done, Seen start previous y) →
      frontier.length + unseen states start previous ≤ fuel →
      Expanded m states start goal current fuel (done ++ nexts)
        (expand start goal current nexts previous frontier) := by
  induction nexts with
  | nil =>
    intro level previous frontier done h hgoal _ hdone hfuel
    rw [List.append_nil]
    exact Expanded.missed h hgoal hdone hfuel
  | cons nxt rest ih =>
    intro level previous frontier done h hgoal hsteps hdone hfuel
    have hrest : ∀ y ∈ rest, m.Step current y := fun y hy => hsteps y (List.mem_cons_of_mem _ hy)
    rw [List.append_cons done nxt rest, expand]
    by_cases hseen : Seen start previous nxt
    · rw [if_pos (by
        rcases hseen with rfl | hs
        · simp
        · simp [hs])]
      refine ih (done ++ [nxt]) h hgoal hrest (fun y hy => ?_) hfuel
      rcases List.mem_append.mp hy with hy | hy
      · exact hdone y hy
      · rw [List.mem_singleton.mp hy]
        exact hseen
    · have hstep := hsteps nxt List.mem_cons_self
      rw [if_neg (by
        rw [Bool.or_eq_true, decide_eq_true_eq]
        exact fun hor => hseen hor.symm)]
      by_cases hg : nxt = goal
      · rw [if_pos hg, hg]
        exact Expanded.found h hgoal (hg ▸ hstep)
      · rw [if_neg hg]
        have hlt := @unseen_visit _ _ _ current _ _ _ (hall nxt) hseen
        refine ih (done ++ [nxt]) (h.visit hstep hseen) (fun hs => ?_) hrest (fun y hy => ?_) ?_
        · rcases seen_cons.mp hs with hs | hs
          · exact hg hs.symm
          · exact hgoal hs
        · rcases List.mem_append.mp hy with hy | hy
          · exact (hdone y hy).cons
          · exact seen_cons.mpr (Or.inl (List.mem_singleton.mp hy))
        · rw [List.length_append, List.length_singleton]
          omega

/-- The way back from a state that was seen, turned round. -/
theorem trail_spec (hparent : ∀ x p, previous.lookup x = some p →
      x ≠ start ∧ Seen start previous p ∧ m.Step p x ∧ level x = level p + 1) {n : Nat} :
    ∀ {x : S}, Seen start previous x → level x ≤ n →
      ∃ path, (trail previous start n x).reverse = start :: path ∧ Route m.Step start path x ∧
        path.length ≤ level x := by
  induction n with
  | zero =>
    intro x hx hle
    rcases hx with rfl | hx
    · exact ⟨[], rfl, Route.nil, Nat.zero_le _⟩
    · obtain ⟨p, hp⟩ := Option.isSome_iff_exists.mp hx
      have hlevel := (hparent x p hp).2.2.2
      omega
  | succ n ih =>
    intro x hx hle
    unfold trail
    by_cases hs : x = start
    · rw [if_pos hs, hs]
      exact ⟨[], rfl, Route.nil, Nat.zero_le _⟩
    · obtain ⟨p, hp⟩ := Option.isSome_iff_exists.mp (hx.resolve_left hs)
      obtain ⟨-, hseen, hr, hlevel⟩ := hparent x p hp
      obtain ⟨path, hpath, hroute, hlen⟩ := ih hseen (by omega)
      rw [if_neg hs, hp]
      refine ⟨path ++ [x], ?_, hroute.snoc hr, ?_⟩
      · rw [List.reverse_cons, hpath, List.cons_append]
      · rw [List.length_append, List.length_singleton]
        omega

/-- What the search answers: a shortest path, or that there is none. -/
def Answered (m : StateMachine S) (start goal : S) : Option (List S) → Prop
  | some path => Shortest m.Step start path goal
  | none => ∀ n, ¬ Walk m.Step start n goal

theorem search_spec {states : List S} (hall : ∀ s, s ∈ states) {n : Nat} :
    ∀ {level : S → Nat} {previous : List (S × S)} {todo : List S},
      Explored m start level previous todo → ¬ Seen start previous goal →
      todo.length + unseen states start previous ≤ n →
      Answered m start goal (search m start goal n previous todo) := by
  induction n with
  | zero =>
    intro level previous todo h hgoal hn k hw
    have htodo : todo = [] := List.eq_nil_of_length_eq_zero (by omega)
    refine hgoal (hw.invariant (Or.inl rfl) fun x y hx hr => h.closed x hx ?_ y hr)
    rw [htodo]
    exact List.not_mem_nil
  | succ n ih =>
    intro level previous todo h hgoal hn
    cases todo with
    | nil =>
      intro k hw
      exact hgoal (hw.invariant (Or.inl rfl) fun x y hx hr => h.closed x hx List.not_mem_nil y hr)
    | cons current frontier =>
      have hmem : ∀ y, y ∈ (m.allowedFrom current).insertionSort
          (fun a b => m.value a ≤ m.value b) ↔ m.Step current y :=
        fun y => List.mem_insertionSort _
      rw [List.length_cons] at hn
      have hfuel : frontier.length + unseen states start previous ≤ n := by omega
      have hspec := expand_spec hall [] h hgoal (fun y hy => (hmem y).mp hy)
        (fun y hy => absurd hy List.not_mem_nil) hfuel
      rw [List.nil_append] at hspec
      rw [search]
      generalize expand start goal current _ previous frontier = result at hspec
      cases hspec with
      | missed h' hgoal' hseen hfuel =>
        exact ih (h'.pop fun y hr => hseen y ((hmem y).mpr hr)) hgoal' hfuel
      | @found level' previous' frontier' h' hgoal' hstep =>
        have hnew := h'.visit hstep hgoal'
        have hself : Function.update level' goal (level' current + 1) goal = level' current + 1 :=
          Function.update_self goal _ _
        have hle := h'.level_le current (h'.todo_seen current List.mem_cons_self)
        obtain ⟨path, hpath, hroute, hlen⟩ := trail_spec hnew.parent
          (n := ((goal, current) :: previous').length + 1) (seen_cons.mpr (Or.inl rfl))
          (by rw [hself, List.length_cons]; omega)
        rw [hself] at hlen
        show Shortest m.Step start (trail _ start _ goal).reverse.tail goal
        rw [hpath]
        refine Shortest.of_walks hroute fun k hw => ?_
        have hlt := (h'.lt_of_walk hw).resolve_left hgoal'
        exact Nat.le_trans hlen hlt

theorem shortestPath_cases {states : List S} (hall : ∀ s, s ∈ states) (start goal : S) :
    (∃ path, m.shortestPath states start goal = .ok path ∧ Shortest m.Step start path goal) ∨
      (m.shortestPath states start goal = .error (m.illegal start goal) ∧
        ∀ n, ¬ Walk m.Step start n goal) := by
  unfold shortestPath
  by_cases hs : start = goal
  · rw [if_pos hs, hs]
    exact Or.inl ⟨[], rfl, Route.nil, fun _ _ => Nat.zero_le _⟩
  · rw [if_neg hs]
    have hgoal : ¬ Seen start [] goal := by
      rintro (h | h)
      · exact hs h.symm
      · cases h
    have hfuel : [start].length + unseen states start [] ≤ states.length + 1 := by
      have hle := List.length_filter_le (fun s => decide (¬ Seen start [] s)) states
      rw [List.length_singleton, unseen]
      omega
    have hspec := search_spec hall (explored_start m start) hgoal hfuel
    cases hfound : m.search start goal (states.length + 1) [] [start] with
    | none =>
      rw [hfound] at hspec
      exact Or.inr ⟨rfl, hspec⟩
    | some path =>
      rw [hfound] at hspec
      exact Or.inl ⟨path, rfl, hspec⟩

end StateMachine

/-! Moving an entity along its lifecycle. -/

/-- An entity with what the guards may read of it besides its state. -/
structure Entity (S D : Type) where
  id : Nat
  companyId : Nat
  state : S
  data : D

/-- A row of the audit. -/
structure StateTransition (A : Type) where
  companyId : Nat
  entityType : String
  entityId : Nat
  from_ : String
  to_ : String
  reason : Option String
  actor : A
  deriving DecidableEq, Repr

inductive MoveError where
  | illegalTransition (e : FSMError)
  | guardRejected (entityType from_ to_ reason : String)
  deriving DecidableEq, Repr

/-- `fsm.StateMachine` with its guards and the members of its states. -/
structure GuardedMachine (S D : Type) extends StateMachine S where
  states : List S
  complete : ∀ s, s ∈ states
  guards : S → S → Option (Entity S D → Option String)

/-- The entity and the audit rows added for it. -/
structure Session (S D A : Type) where
  entity : Entity S D
  audit : List (StateTransition A)

namespace GuardedMachine

open Walks

variable {S D A : Type} [DecidableEq S] (g : GuardedMachine S D) (actor : A)
  (reason : Option String)

def check (e : Entity S D) (target : S) : Except MoveError Unit :=
  if g.can e.state target then
    match (g.guards e.state target).bind fun guard => guard e with
    | some why => .error (.guardRejected g.entityType (g.value e.state) (g.value target) why)
    | none => .ok ()
  else .error (.illegalTransition (g.illegal e.state target))

def record (e : Entity S D) (target : S) : StateTransition A where
  companyId := e.companyId
  entityType := g.entityType
  entityId := e.id
  from_ := g.value e.state
  to_ := g.value target
  reason := reason
  actor := actor

def transition (target : S) (s : Session S D A) :
    Except MoveError (StateTransition A) × Session S D A :=
  match g.check s.entity target with
  | .error e => (.error e, s)
  | .ok () =>
    let row := g.record actor reason s.entity target
    (.ok row, ⟨{ s.entity with state := target }, s.audit ++ [row]⟩)

def transitionAlong : List S → Session S D A →
    Except MoveError (List (StateTransition A)) × Session S D A
  | [], s => (.ok [], s)
  | hop :: hops, s => match g.transition actor reason hop s with
    | (.error e, s') => (.error e, s')
    | (.ok row, s') => match transitionAlong hops s' with
      | (.error e, s'') => (.error e, s'')
      | (.ok rows, s'') => (.ok (row :: rows), s'')

def transitionVia (target : S) (s : Session S D A) :
    Except MoveError (List (StateTransition A)) × Session S D A :=
  match g.shortestPath g.states s.entity.state target with
  | .error e => (.error (.illegalTransition e), s)
  | .ok path => g.transitionAlong actor reason path s

/-- No guard refuses the move, with the entity in the state it moves from. -/
def Allowed (e : Entity S D) (a b : S) : Prop :=
  (g.guards a b).bind (fun guard => guard { e with state := a }) = none

/-- The audit of a path: every row begins where the one before it ended. -/
def rowsAlong (e : Entity S D) : S → List S → List (StateTransition A)
  | _, [] => []
  | a, b :: rest => g.record actor reason { e with state := a } b :: rowsAlong e b rest

variable {g actor reason}

theorem check_cases (e : Entity S D) {target : S} (hstep : g.Step e.state target) :
    g.Allowed e e.state target ∧ g.check e target = .ok () ∨
      ¬ g.Allowed e e.state target ∧ ∃ err, g.check e target = .error err := by
  have hcan : g.can e.state target = true := decide_eq_true (p := target ∈ g.allowedFrom _) hstep
  rw [check, Allowed, if_pos hcan]
  cases h : (g.guards e.state target).bind fun guard => guard e with
  | none => exact Or.inl ⟨rfl, rfl⟩
  | some why => exact Or.inr ⟨nofun, _, rfl⟩

omit [DecidableEq S] in
theorem rowsAlong_state (e : Entity S D) (x : S) {path : List S} :
    ∀ a, g.rowsAlong actor reason { e with state := x } a path =
      g.rowsAlong actor reason e a path := by
  induction path with
  | nil => exact fun a => rfl
  | cons b rest ih =>
    intro a
    rw [rowsAlong, rowsAlong, ih b]

theorem transitionAlong_spec {path : List S} :
    ∀ {s : Session S D A}, (s.entity.state :: path).IsChain g.Step →
      ((s.entity.state :: path).IsChain (g.Allowed s.entity) ∧
        g.transitionAlong actor reason path s =
          (.ok (g.rowsAlong actor reason s.entity s.entity.state path),
            ⟨{ s.entity with state := path.getLastD s.entity.state },
              s.audit ++ g.rowsAlong actor reason s.entity s.entity.state path⟩)) ∨
      (¬ (s.entity.state :: path).IsChain (g.Allowed s.entity) ∧
        ∃ err s', g.transitionAlong actor reason path s = (.error err, s')) := by
  induction path with
  | nil =>
    intro s _
    refine Or.inl ⟨List.isChain_singleton _, ?_⟩
    rw [transitionAlong, rowsAlong, List.append_nil]
    rfl
  | cons hop hops ih =>
    intro s hchain
    rw [List.isChain_cons_cons] at hchain
    rw [List.isChain_cons_cons, transitionAlong, transition]
    rcases check_cases s.entity hchain.1 with ⟨hallowed, hcheck⟩ | ⟨hnot, err, hcheck⟩
    · rw [hcheck]
      have hrest := ih (s := ⟨{ s.entity with state := hop },
        s.audit ++ [g.record actor reason s.entity hop]⟩) hchain.2
      rcases hrest with ⟨hall, hrun⟩ | ⟨hnot, err, s', hrun⟩
      · refine Or.inl ⟨⟨hallowed, hall⟩, ?_⟩
        dsimp only
        rw [hrun, List.append_assoc, List.getLastD_cons, rowsAlong_state]
        rfl
      · refine Or.inr ⟨fun hall => hnot hall.2, err, s', ?_⟩
        dsimp only
        rw [hrun]
    · rw [hcheck]
      exact Or.inr ⟨fun hall => hnot hall.1, err, _, rfl⟩

/-- Every path the search finds is a shortest one, it raises when there is none, and a move along
it ends at the goal with a chain of rows unless a guard refuses one of the steps. -/
theorem walks_shortest (g : GuardedMachine S D) :
    (∀ start goal, (∃ path, g.shortestPath g.states start goal = .ok path ∧
          Shortest g.Step start path goal) ∨
        (g.shortestPath g.states start goal = .error (g.illegal start goal) ∧
          ∀ n, ¬ Walk g.Step start n goal)) ∧
      ∀ (actor : A) (reason : Option String) (goal : S) (s : Session S D A),
        (∃ path, Shortest g.Step s.entity.state path goal ∧
          (s.entity.state :: path).IsChain (g.Allowed s.entity) ∧
          g.transitionVia actor reason goal s =
            (.ok (g.rowsAlong actor reason s.entity s.entity.state path),
              ⟨{ s.entity with state := goal },
                s.audit ++ g.rowsAlong actor reason s.entity s.entity.state path⟩)) ∨
        ((∃ err s', g.transitionVia actor reason goal s = (.error err, s')) ∧
          ((∀ n, ¬ Walk g.Step s.entity.state n goal) ∨
            ∃ path, Shortest g.Step s.entity.state path goal ∧
              ¬ (s.entity.state :: path).IsChain (g.Allowed s.entity))) := by
  refine ⟨g.shortestPath_cases g.complete, fun actor reason goal s => ?_⟩
  rw [transitionVia]
  rcases g.shortestPath_cases g.complete s.entity.state goal with ⟨path, hpath, hs⟩ | ⟨herr, hno⟩
  · rw [hpath]
    have hgoal : path.getLastD s.entity.state = goal := by
      rw [List.getLastD_eq_getLast?, ← Option.some.injEq, ← hs.1.last, List.getLast?_cons]
    rcases transitionAlong_spec hs.1.chain with ⟨hall, hrun⟩ | ⟨hnot, hraise⟩
    · rw [hgoal] at hrun
      exact Or.inl ⟨path, hs, hall, hrun⟩
    · exact Or.inr ⟨hraise, Or.inr ⟨path, hs, hnot⟩⟩
  · rw [herr]
    exact Or.inr ⟨⟨_, s, rfl⟩, Or.inl hno⟩

end GuardedMachine

end Autora
