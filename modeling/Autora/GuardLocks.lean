import Autora.Standings
import Mathlib.Algebra.Order.BigOperators.Group.Finset
import Mathlib.Algebra.BigOperators.Group.Finset.Basic

/-! The guard's advisory locks: a company's is taken before the daily one, so whoever waits
waits for somebody who can go on. -/

namespace Autora.Models

open Systems
open scoped BigOperators

variable {g : ModelGateway} {keys : Keys} {guard : DbCostGuard} {s t : Traffic} {i j : Id}
  {c : Caller}

/-! ## Who holds the locks -/

/-- The keys a call holds at a stage. -/
def Caller.Owns (keys : Keys) (c : Caller) (k : Nat) : Stage → Prop
  | .locked | .listed _ => k = keys.company c.company
  | .checking _ | .summed _ _ _ => k = keys.company c.company ∨ k = keys.daily
  | _ => False

def Traffic.Owned (keys : Keys) (s : Traffic) : Prop :=
  ∀ k i, s.locks k = some i → ∃ c, s.callers i = some c ∧ c.Owns keys k c.stage

theorem Traffic.Owned.moved {s' : Traffic} {o : Option Caller} (h : s.Owned keys)
    (hcallers : s'.callers = Function.update s.callers i o)
    (hothers : ∀ k j, j ≠ i → s'.locks k = some j → s.locks k = some j)
    (hown : ∀ k, s'.locks k = some i → ∃ c, o = some c ∧ c.Owns keys k c.stage) :
    s'.Owned keys := by
  intro k j hlock
  by_cases hj : j = i
  · subst hj
    obtain ⟨c, hc, howns⟩ := hown k hlock
    refine ⟨c, ?_, howns⟩
    rw [hcallers, Function.update_self, hc]
  · obtain ⟨c, hc, howns⟩ := h k j (hothers k j hj hlock)
    refine ⟨c, ?_, howns⟩
    rw [hcallers, Function.update_of_ne hj, hc]

theorem Traffic.Owned.of_callers (h : s.Owned keys) (hc : s.callers i = some c) {k : Nat}
    (hlock : s.locks k = some i) : c.Owns keys k c.stage := by
  obtain ⟨c', hc', howns⟩ := h k i hlock
  rw [hc] at hc'
  cases hc'
  exact howns

-- the locks stay, and so does what the stage owns
theorem Traffic.Owned.put {c' : Caller} (h : s.Owned keys) (hc : s.callers i = some c)
    (howns : ∀ k, c.Owns keys k c.stage → c'.Owns keys k c'.stage) : (s.put i c').Owned keys :=
  h.moved rfl (fun _ _ _ hk => hk) fun k hk => ⟨c', rfl, howns k (h.of_callers hc hk)⟩

theorem Traffic.Owned.lock_put {k : Nat} {c' : Caller} (h : s.Owned keys)
    (hc : s.callers i = some c) (howns : ∀ k', c.Owns keys k' c.stage → c'.Owns keys k' c'.stage)
    (hnew : c'.Owns keys k c'.stage) : ((s.lock k i).put i c').Owned keys := by
  refine h.moved rfl (fun k' j hj hlock => ?_) fun k' hlock => ⟨c', rfl, ?_⟩
  · by_cases hk : k' = k
    · subst hk
      have hself : Function.update s.locks k' (some i) k' = some j := hlock
      rw [Function.update_self] at hself
      exact absurd (Option.some.inj hself).symm hj
    · exact (Function.update_of_ne hk _ _).symm.trans hlock
  · by_cases hk : k' = k
    · rw [hk]
      exact hnew
    · exact howns k' (h.of_callers hc ((Function.update_of_ne hk _ _).symm.trans hlock))

theorem unlock_none (k : Nat) : (s.unlock i).locks k ≠ some i := by
  by_cases hk : s.locks k = some i <;> simp [Traffic.unlock, hk]

theorem unlock_some {k : Nat} (h : (s.unlock i).locks k = some j) : s.locks k = some j := by
  by_cases hk : s.locks k = some i
  · simp [Traffic.unlock, hk] at h
  · simpa [Traffic.unlock, hk] using h

theorem Traffic.Owned.unlocked {s' : Traffic} {o : Option Caller} (h : s.Owned keys)
    (hcallers : s'.callers = Function.update s.callers i o)
    (hlocks : s'.locks = (s.unlock i).locks) :
    s'.Owned keys := by
  refine h.moved hcallers (fun k j _ hlock => ?_) fun k hlock => ?_
  · rw [hlocks] at hlock
    exact unlock_some hlock
  · rw [hlocks] at hlock
    exact absurd hlock (unlock_none k)

theorem Traffic.Owned.advance (h : s.Owned keys) (hc : s.callers i = some c)
    (hstep : s.advance g keys i c = some t) : t.Owned keys := by
  cases hs : c.stage with
  | asking =>
    simp only [Traffic.advance, hs, Option.some.injEq] at hstep
    subst hstep
    exact h.put hc fun k hk => by rw [hs] at hk; exact hk
  | waiting =>
    simp only [Traffic.advance, hs] at hstep
    split at hstep <;> cases hstep
    refine h.lock_put hc (fun k hk => ?_) rfl
    rw [hs] at hk
    cases hk
  | locked =>
    simp only [Traffic.advance, hs, Option.some.injEq] at hstep
    subst hstep
    exact h.put hc fun k hk => by rw [hs] at hk; exact hk
  | listed todo =>
    simp only [Traffic.advance, hs] at hstep
    split at hstep
    · split at hstep <;> cases hstep
      refine h.lock_put hc (fun k hk => ?_) (.inr rfl)
      rw [hs] at hk
      exact .inl hk
    · cases hstep
      refine h.put hc fun k hk => ?_
      rw [hs] at hk
      exact .inl hk
  | checking todo =>
    cases todo with
    | nil =>
      simp only [Traffic.advance, hs, Option.some.injEq] at hstep
      rw [← hstep, Traffic.commit]
      split
      · exact h.unlocked rfl rfl
      · exact h.unlocked rfl rfl
    | cons l todo =>
      simp only [Traffic.advance, hs, Option.some.injEq] at hstep
      subst hstep
      exact h.put hc fun k hk => by rw [hs] at hk; exact hk
  | summed l todo x =>
    simp only [Traffic.advance, hs] at hstep
    split at hstep <;> cases hstep
    · exact h.unlocked rfl rfl
    · exact h.put hc fun k hk => by rw [hs] at hk; exact hk
  | holding reservation =>
    simp only [Traffic.advance, hs] at hstep
    cases hstep
  | closing reservation reply =>
    simp only [Traffic.advance, hs, Option.some.injEq] at hstep
    subst hstep
    cases reply <;> simp only [Traffic.close] <;> split <;> exact h.unlocked rfl rfl

theorem Traffic.Owned.step {a : Act} (h : s.Owned keys) (hstep : s.step g keys a = some t) :
    t.Owned keys := by
  cases a with
  | tick now =>
    simp only [Traffic.step] at hstep
    split at hstep <;> cases hstep
    exact h
  | cycle company startedAt =>
    cases hstep
    exact h
  | ask i request alias_ binding latencyMs =>
    simp only [Traffic.step] at hstep
    split at hstep
    · next hnone =>
      cases hstep
      refine h.moved rfl (fun _ _ _ hk => hk) fun k hlock => ?_
      obtain ⟨c, hc, -⟩ := h k i hlock
      rw [hnone] at hc
      cases hc
    · cases hstep
  | next i =>
    obtain ⟨c, hc, hstep⟩ := Option.bind_eq_some_iff.mp hstep
    exact h.advance hc hstep
  | answered i reply =>
    obtain ⟨c, hc, hstep⟩ := Option.bind_eq_some_iff.mp hstep
    split at hstep
    · next reservation hs =>
      cases hstep
      exact h.put hc fun k hk => by rw [hs] at hk; exact hk
    · cases hstep
  | leave i =>
    obtain ⟨c, hc, rfl⟩ := Option.map_eq_some_iff.mp hstep
    exact h.unlocked rfl rfl

/-! ## Somebody can go on -/

/-- Whether the next statement is the call's own to make. -/
def Stage.underWay : Stage → Bool
  | .holding _ => false
  | _ => true

theorem free_of_none {k : Nat} (h : s.locks k = none) : s.free k i = true := by
  simp [Traffic.free, h]

theorem free_of_some {k : Nat} (h : s.locks k = some i) : s.free k i = true := by
  simp [Traffic.free, h]

/-- A call's next statement runs, unless it waits for a lock. -/
theorem advance_unless (hstage : c.stage.underWay = true) :
    (s.advance g keys i c).isSome = true ∨
      (c.stage = .waiting ∧ s.free (keys.company c.company) i = false) ∨
      ∃ todo, c.stage = .listed todo ∧ s.free keys.daily i = false := by
  cases hs : c.stage with
  | asking => simp [Traffic.advance, hs]
  | waiting =>
    cases hfree : s.free (keys.company c.company) i with
    | true => simp [Traffic.advance, hs, hfree]
    | false => exact .inr (.inl ⟨rfl, rfl⟩)
  | locked => simp [Traffic.advance, hs]
  | listed todo =>
    cases hfree : s.free keys.daily i with
    | true =>
      left
      simp only [Traffic.advance, hs, hfree, if_true]
      split <;> rfl
    | false => exact .inr (.inr ⟨todo, rfl, rfl⟩)
  | checking todo => cases todo <;> simp [Traffic.advance, hs]
  | summed l todo x =>
    left
    simp only [Traffic.advance, hs]
    split <;> rfl
  | holding reservation =>
    rw [hs] at hstage
    cases hstage
  | closing reservation reply => simp [Traffic.advance, hs]

theorem Caller.Owns.underWay {k : Nat} (h : c.Owns keys k c.stage) : c.stage.underWay = true := by
  cases hs : c.stage with
  | holding reservation =>
    rw [hs] at h
    cases h
  | _ => rfl

theorem not_free {k : Nat} (h : s.free k i = false) : ∃ j, s.locks k = some j := by
  cases hlock : s.locks k with
  | none =>
    rw [free_of_none hlock] at h
    cases h
  | some j => exact ⟨j, rfl⟩

/-- Who can go on: a call whose next statement runs. -/
def Ready (g : ModelGateway) (keys : Keys) (s : Traffic) (i : Id) : Prop :=
  ∃ c, s.callers i = some c ∧ (s.advance g keys i c).isSome = true

theorem ready_of_daily (h : s.Owned keys) (hlock : s.locks keys.daily = some j) :
    Ready g keys s j := by
  obtain ⟨d, hd, howns⟩ := h _ _ hlock
  rcases advance_unless (g := g) (s := s) (i := j) howns.underWay with
    hnext | ⟨hwaiting, -⟩ | ⟨todo, -, hfree⟩
  · exact ⟨d, hd, hnext⟩
  · rw [hwaiting] at howns
    cases howns
  · rw [free_of_some hlock] at hfree
    cases hfree

theorem ready_of_lock (h : s.Owned keys) {k : Nat} (hlock : s.locks k = some j) :
    ∃ j', Ready g keys s j' := by
  obtain ⟨d, hd, howns⟩ := h _ _ hlock
  rcases advance_unless (g := g) (s := s) (i := j) howns.underWay with
    hnext | ⟨hwaiting, -⟩ | ⟨todo, -, hfree⟩
  · exact ⟨j, d, hd, hnext⟩
  · rw [hwaiting] at howns
    cases howns
  · obtain ⟨j', hj'⟩ := not_free hfree
    exact ⟨j', ready_of_daily h hj'⟩

/-- While a call is under way, some call can go on. -/
theorem Traffic.Owned.ready (h : s.Owned keys) (hc : s.callers i = some c)
    (hstage : c.stage.underWay = true) : ∃ j, Ready g keys s j := by
  rcases advance_unless (g := g) (s := s) (i := i) hstage with
    hnext | ⟨-, hfree⟩ | ⟨todo, -, hfree⟩
  · exact ⟨i, c, hc, hnext⟩
  · obtain ⟨j, hj⟩ := not_free hfree
    exact ready_of_lock h hj
  · obtain ⟨j, hj⟩ := not_free hfree
    exact ⟨j, ready_of_daily h hj⟩

/-! ## Everybody gets through -/

/-- The statements before a call, where `n` limits bind it. -/
def Stage.left (n : Nat) : Stage → Nat
  | .asking => 2 * n + 5
  | .waiting => 2 * n + 4
  | .locked => 2 * n + 3
  | .listed todo => 2 * todo.length + 2
  | .checking todo => 2 * todo.length + 1
  | .summed _ todo _ => 2 * todo.length + 2
  | .holding _ => 0
  | .closing _ _ => 1

def Traffic.left (guard : DbCostGuard) (s : Traffic) (i : Id) : Nat :=
  (s.callers i).elim 0 fun c => c.stage.left (standing guard s.meter c.request.context).length

theorem left_eq (hc : s.callers i = some c) : s.left guard i =
    c.stage.left (standing guard s.meter c.request.context).length := by
  simp only [Traffic.left, hc, Option.elim_some]

-- a statement writes no limit
theorem advance_standing (hstep : s.advance g keys i c = some t) (ctx : CallContext) :
    standing guard t.meter ctx = standing guard s.meter ctx := by
  cases hs : c.stage with
  | asking =>
    simp only [Traffic.advance, hs, Option.some.injEq] at hstep
    rw [← hstep]
    rfl
  | waiting =>
    simp only [Traffic.advance, hs] at hstep
    split at hstep <;> cases hstep
    rfl
  | locked =>
    simp only [Traffic.advance, hs, Option.some.injEq] at hstep
    rw [← hstep]
    rfl
  | listed todo =>
    simp only [Traffic.advance, hs] at hstep
    split at hstep
    · split at hstep <;> cases hstep
      rfl
    · cases hstep
      rfl
  | checking todo =>
    cases todo with
    | nil =>
      simp only [Traffic.advance, hs, Option.some.injEq] at hstep
      rw [← hstep, Traffic.commit]
      split <;> rfl
    | cons l todo =>
      simp only [Traffic.advance, hs, Option.some.injEq] at hstep
      rw [← hstep]
      rfl
  | summed l todo x =>
    simp only [Traffic.advance, hs] at hstep
    split at hstep <;> cases hstep <;> rfl
  | holding reservation =>
    simp only [Traffic.advance, hs] at hstep
    cases hstep
  | closing reservation reply =>
    simp only [Traffic.advance, hs, Option.some.injEq] at hstep
    rw [← hstep]
    cases reply <;> simp only [Traffic.close] <;> split <;> cases reservation <;> rfl

/-- A statement brings its call nearer to the provider, or ends it. -/
theorem stage_advance (hstep : s.advance g keys i c = some t) :
    t.callers i = none ∨ ∃ c', t.callers i = some c' ∧ c'.request = c.request ∧
      c'.stage.left (standing g.costGuard s.meter c.request.context).length <
        c.stage.left (standing g.costGuard s.meter c.request.context).length := by
  cases hs : c.stage with
  | asking =>
    simp only [Traffic.advance, hs, Option.some.injEq] at hstep
    rw [← hstep]
    exact .inr ⟨_, Traffic.put_callers _, rfl, Nat.lt_succ_self _⟩
  | waiting =>
    simp only [Traffic.advance, hs] at hstep
    split at hstep <;> cases hstep
    exact .inr ⟨_, Traffic.put_callers _, rfl, Nat.lt_succ_self _⟩
  | locked =>
    simp only [Traffic.advance, hs, Option.some.injEq] at hstep
    rw [← hstep]
    refine .inr ⟨_, Traffic.put_callers _, rfl, ?_⟩
    have hlength : (limits g.costGuard { s.meter with now := c.began } c.request).length =
        (standing g.costGuard s.meter c.request.context).length := by
      rw [limits_eq, List.length_map]
      rfl
    simp only [Caller.at_, Stage.left, hlength]
    omega
  | listed todo =>
    simp only [Traffic.advance, hs] at hstep
    split at hstep
    · split at hstep <;> cases hstep
      exact .inr ⟨_, Traffic.put_callers _, rfl, Nat.lt_succ_self _⟩
    · cases hstep
      exact .inr ⟨_, Traffic.put_callers _, rfl, Nat.lt_succ_self _⟩
  | checking todo =>
    cases todo with
    | nil =>
      simp only [Traffic.advance, hs, Option.some.injEq] at hstep
      rw [← hstep, Traffic.commit]
      split
      · exact .inr ⟨_, Traffic.put_callers _, rfl, Nat.zero_lt_one⟩
      · exact .inr ⟨_, Traffic.put_callers _, rfl, Nat.zero_lt_one⟩
    | cons l todo =>
      simp only [Traffic.advance, hs, Option.some.injEq] at hstep
      rw [← hstep]
      refine .inr ⟨_, Traffic.put_callers _, rfl, ?_⟩
      simp only [Caller.at_, Stage.left, List.length_cons]
      omega
  | summed l todo x =>
    simp only [Traffic.advance, hs] at hstep
    split at hstep <;> cases hstep
    · exact .inl (Function.update_self _ _ _)
    · exact .inr ⟨_, Traffic.put_callers _, rfl, Nat.lt_succ_self _⟩
  | holding reservation =>
    simp only [Traffic.advance, hs] at hstep
    cases hstep
  | closing reservation reply =>
    simp only [Traffic.advance, hs, Option.some.injEq] at hstep
    rw [← hstep]
    left
    cases reply <;> simp only [Traffic.close] <;> split <;> exact Function.update_self _ _ _

/-- What a statement leaves to do: less for its call, the same for the others. -/
theorem left_advance (hc : s.callers i = some c) (hstep : s.advance g keys i c = some t) :
    t.left g.costGuard i < s.left g.costGuard i ∧
      ∀ j, j ≠ i → t.left g.costGuard j = s.left g.costGuard j := by
  constructor
  · rw [left_eq hc]
    rcases stage_advance hstep with hnone | ⟨c', hc', hrequest, hlt⟩
    · have hpos : 0 < c.stage.left (standing g.costGuard s.meter c.request.context).length := by
        cases hs : c.stage with
        | holding reservation =>
          simp only [Traffic.advance, hs] at hstep
          cases hstep
        | _ => simp [Stage.left]
      simpa only [Traffic.left, hnone, Option.elim_none] using hpos
    · rw [left_eq hc', advance_standing hstep, hrequest]
      exact hlt
  · intro j hj
    simp only [Traffic.left, advance_callers hj hstep, advance_standing hstep]

-- only finitely many call at once
theorem finite_step {a : Act} {F : Finset Id} (h : ∀ i, i ∉ F → s.callers i = none)
    (hstep : s.step g keys a = some t) : ∃ F' : Finset Id, ∀ i, i ∉ F' → t.callers i = none := by
  classical
  cases ha : a.caller with
  | none =>
    refine ⟨F, fun i hi => ?_⟩
    rw [step_callers (by rw [ha]; simp) hstep]
    exact h i hi
  | some j =>
    refine ⟨insert j F, fun i hi => ?_⟩
    rw [Finset.mem_insert, not_or] at hi
    have hne : a.caller ≠ some i := by
      rw [ha]
      exact fun heq => hi.1 (Option.some.inj heq).symm
    rw [step_callers hne hstep]
    exact h i hi.2

/-- Nobody calls, and no lock is held. -/
structure Idle (s : Traffic) : Prop where
  callers : ∀ i, s.callers i = none
  locks : ∀ k, s.locks k = none

/-- A call's own statement. -/
def IsNext (_ : Traffic) (a : Act) : Prop := ∃ i, a = .next i

-- one statement more, and less to do
theorem Traffic.Owned.onward {F : Finset Id} (h : s.Owned keys)
    (hF : ∀ i, i ∉ F → s.callers i = none) (hc : s.callers i = some c)
    (hstage : c.stage.underWay = true) :
    ∃ j t, s.step g keys (.next j) = some t ∧ (∀ i, i ∉ F → t.callers i = none) ∧
      ∑ i ∈ F, t.left g.costGuard i < ∑ i ∈ F, s.left g.costGuard i := by
  obtain ⟨j, d, hd, hnext⟩ := h.ready (g := g) hc hstage
  obtain ⟨t, ht⟩ := Option.isSome_iff_exists.mp hnext
  have hstep : s.step g keys (.next j) = some t := by
    show (s.callers j).bind (s.advance g keys j) = some t
    rw [hd]
    exact ht
  have hj : j ∈ F := by
    by_contra hj
    rw [hF j hj] at hd
    cases hd
  obtain ⟨hless, hothers⟩ := left_advance hd ht
  refine ⟨j, t, hstep, fun i hi => ?_, Finset.sum_lt_sum (fun i _ => ?_) ⟨j, hj, hless⟩⟩
  · have hij : i ≠ j := fun heq => hi (heq ▸ hj)
    rw [advance_callers hij ht]
    exact hF i hi
  · by_cases hij : i = j
    · rw [hij]
      exact hless.le
    · exact (hothers i hij).le

-- the calls under way go on until none is left
theorem Traffic.Owned.get_through {init : Traffic → Prop} {F : Finset Id} (n : Nat) :
    ∀ s : Traffic, s.Owned keys → (∀ i, i ∉ F → s.callers i = none) →
      ∑ i ∈ F, s.left g.costGuard i ≤ n →
      ∃ t, (traffic g keys init).Path IsNext s t ∧
        ∀ i c, t.callers i = some c → c.stage.underWay = false := by
  induction n with
  | zero =>
    intro s h hF hleft
    refine ⟨s, .refl, fun i c hc => ?_⟩
    by_contra hstage
    obtain ⟨j, t, -, -, hlt⟩ := h.onward (g := g) hF hc (by simpa using hstage)
    exact absurd (hlt.trans_le hleft) (Nat.not_lt_zero _)
  | succ n ih =>
    intro s h hF hleft
    by_cases hall : ∀ i c, s.callers i = some c → c.stage.underWay = false
    · exact ⟨s, .refl, hall⟩
    · simp only [not_forall] at hall
      obtain ⟨i, c, hc, hstage⟩ := hall
      obtain ⟨j, t, hstep, hFt, hlt⟩ := h.onward (g := g) hF hc (by simpa using hstage)
      obtain ⟨u, hpath, hu⟩ := ih t (h.step hstep) hFt (Nat.le_of_lt_succ (hlt.trans_le hleft))
      exact ⟨u, hpath.head ⟨.next j, ⟨j, rfl⟩, hstep⟩, hu⟩

/-- The guard's locks never block for good: whatever calls are under way, in whatever order they
came and whoever left meanwhile, their own statements bring each of them to its provider or
to its end. -/
theorem calls_get_through (hs : (traffic g keys Idle).Reach anyStep s) :
    ∃ t, (traffic g keys Idle).Path IsNext s t ∧
      ∀ i c, t.callers i = some c → ∃ reservation, c.stage = .holding reservation := by
  have hinit : ∀ s : Traffic, Idle s →
      s.Owned keys ∧ ∃ F : Finset Id, ∀ i, i ∉ F → s.callers i = none := by
    intro s hidle
    refine ⟨fun k i hlock => ?_, ∅, fun i _ => hidle.callers i⟩
    rw [hidle.locks k] at hlock
    cases hlock
  have hkept : s.Owned keys ∧ ∃ F : Finset Id, ∀ i, i ∉ F → s.callers i = none := by
    refine hs.invariant hinit fun s a t h _ hstep => ?_
    obtain ⟨howned, F, hF⟩ := h
    exact ⟨howned.step hstep, finite_step hF hstep⟩
  obtain ⟨howned, F, hF⟩ := hkept
  obtain ⟨t, hpath, hall⟩ := @Traffic.Owned.get_through g keys Idle F
    (∑ i ∈ F, s.left g.costGuard i) s howned hF le_rfl
  refine ⟨t, hpath, fun i c hc => ?_⟩
  have hstage := hall i c hc
  cases hcs : c.stage with
  | holding reservation => exact ⟨reservation, rfl⟩
  | _ =>
    rw [hcs] at hstage
    cases hstage

-- one call in its transaction, one behind it
def twoCalls : Option Traffic :=
  System.follow anyStep (fun s a => s.step soloGateway soloKeys a) budgeted
    [.ask 0 soloRequest "writer" soloBinding 0, .ask 1 soloRequest "writer" soloBinding 0,
      .next 0, .next 0, .next 1]

theorem calls_get_through_two : ∃ s t, twoCalls = some s ∧
    (traffic soloGateway soloKeys Idle).Path IsNext s t ∧
    ∀ i c, t.callers i = some c → ∃ reservation, c.stage = .holding reservation := by
  have hsome : twoCalls.isSome = true := by decide +kernel
  obtain ⟨s, hs⟩ := Option.isSome_iff_exists.mp hsome
  have hidle : Idle budgeted := ⟨fun _ => rfl, fun _ => rfl⟩
  have hreach : (traffic soloGateway soloKeys Idle).Reach anyStep s :=
    ⟨budgeted, hidle, System.follow_path (fun _ _ _ hstep => hstep) hs⟩
  obtain ⟨t, hpath, hall⟩ := calls_get_through hreach
  exact ⟨s, t, hs, hpath, hall⟩

end Autora.Models
