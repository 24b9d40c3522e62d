import Autora.Lib.Systems
import Autora.Lib.Totals
import Autora.Reservations
import Mathlib.Logic.Function.Basic

/-! Model calls at the cost guard, many at once. Every statement of a call's transactions is
a step of its own: an advisory lock is held until its transaction ends, and what a
transaction writes is seen once it commits. -/

namespace Autora.Models

open Transactions Refusals Systems

-- the two sums of `_spent`, which are two statements
def recorded (m : Meter) (company : Id) (l : Limit) : Usd :=
  Totals.total (fun c => c.status = .ok && l.scoped company c.context.companyId
    c.context.projectId c.context.taskId c.context.runId c.createdAt) (·.costUsd) m.calls

def inFlight (guard : DbCostGuard) (m : Meter) (now : Time) (company : Id) (l : Limit) : Usd :=
  Totals.total (fun r => r.isOpen && now ≤ r.createdAt + guard.reservationTtl &&
    l.scoped company r.companyId r.projectId r.taskId r.runId r.createdAt) (·.amount)
    m.reservations

theorem spent_eq (guard : DbCostGuard) (m : Meter) (company : Id) (l : Limit) :
    spent guard m company l = recorded m company l + inFlight guard m m.now company l := rfl

/-- How far a call has come. -/
inductive Stage where
  -- the clock is read, the transaction has not begun
  | asking
  -- before the company's lock
  | waiting
  | locked
  -- the limits are read; before the daily lock, where there is a daily cap
  | listed (limits : List Limit)
  | checking (todo : List Limit)
  -- between the two sums of the first limit
  | summed (l : Limit) (todo : List Limit) (recorded : Usd)
  -- before the provider
  | holding (reservation : Option Id)
  | closing (reservation : Option Id) (reply : Except ProviderError ProviderResponse)

structure Caller where
  request : ModelRequest
  alias_ : String
  binding : ModelBinding
  latencyMs : Nat
  /-- What the guard's clock said. -/
  began : Time
  /-- When its transaction began: the `created_at` of what it writes. -/
  opened : Time
  stage : Stage

abbrev Caller.company (c : Caller) : Id := c.request.context.companyId

def Caller.amount (c : Caller) : Usd := estimateCost c.request c.binding

def Caller.at_ (c : Caller) (stage : Stage) : Caller := { c with stage := stage }

structure Traffic where
  meter : Meter
  callers : Id → Option Caller
  /-- Who holds the advisory lock of a key. -/
  locks : Nat → Option Id

inductive Act where
  | tick (now : Time)
  | cycle (company : Id) (startedAt : Option Time)
  | ask (i : Id) (request : ModelRequest) (alias_ : String) (binding : ModelBinding)
      (latencyMs : Nat)
  -- the next statement of a call
  | next (i : Id)
  | answered (i : Id) (reply : Except ProviderError ProviderResponse)
  -- cancelled, or crashed: what its transaction wrote is rolled back
  | leave (i : Id)

namespace Traffic

def put (s : Traffic) (i : Id) (c : Caller) : Traffic :=
  { s with callers := Function.update s.callers i (some c) }

-- the transaction's locks go with it
def unlock (s : Traffic) (i : Id) : Traffic :=
  { s with locks := fun k => if s.locks k = some i then none else s.locks k }

def drop (s : Traffic) (i : Id) : Traffic :=
  { s.unlock i with callers := Function.update s.callers i none }

def free (s : Traffic) (k : Nat) (i : Id) : Bool :=
  s.locks k = none || s.locks k = some i

def lock (s : Traffic) (k : Nat) (i : Id) : Traffic :=
  { s with locks := Function.update s.locks k (some i) }

end Traffic

/-- The keys of the advisory locks: `hashtext` of the company, and of `*daily*`. -/
structure Keys where
  company : Id → Nat
  daily : Nat

def DbCostGuard.capped (guard : DbCostGuard) : Bool :=
  (guard.dailyCapUsd.filter (· ≠ 0)).isSome

-- the row the last statement of `reserve` adds
def Meter.reserved (m : Meter) (c : Caller) : Meter :=
  { m with
    nextId := m.nextId + 1
    reservations :=
      m.reservations ++ [newReservation { m with now := c.opened } c.request c.amount] }

section Steps

variable (g : ModelGateway) (keys : Keys)

/-- The transaction after the provider's answer; what its columns cannot hold is rolled
back. -/
def Traffic.close (s : Traffic) (i : Id) (c : Caller) (reservation : Option Id) :
    Except ProviderError ProviderResponse → Traffic
  | .ok r =>
    let cost := g.replyCost c.binding r
    if payable cost && r.recordable c.binding then
      { s.drop i with meter := (s.meter.called (okCall { s.meter with now := c.opened } c.request
          c.alias_ c.binding c.latencyMs cost r)).settled reservation cost s.meter.nextId }
    else s.drop i
  | .error e =>
    if e.recordable c.binding then
      { s.drop i with meter := (s.meter.called (failedCall { s.meter with now := c.opened }
          c.request c.alias_ c.binding c.latencyMs e)).released reservation }
    else s.drop i

-- a refusal is committed, although the call does not happen
def Traffic.refuse (s : Traffic) (i : Id) (c : Caller) (l : Limit) (used : Usd) : Traffic :=
  { s.drop i with meter := { s.meter with exhausted :=
      s.meter.exhausted ++ [⟨l.scope, c.request.context, l.amount, used, c.amount⟩] } }

def Traffic.commit (s : Traffic) (i : Id) (c : Caller) : Traffic :=
  if c.amount = 0 then (s.unlock i).put i (c.at_ (.holding none))
  else { (s.unlock i).put i (c.at_ (.holding (some s.meter.nextId))) with
    meter := s.meter.reserved c }

/-- The next statement of a call, if it need not wait. -/
def Traffic.advance (s : Traffic) (i : Id) (c : Caller) : Option Traffic :=
  match c.stage with
  | .asking => some (s.put i { c with opened := s.meter.now, stage := .waiting })
  | .waiting =>
    if s.free (keys.company c.company) i then
      some ((s.lock (keys.company c.company) i).put i (c.at_ .locked))
    else none
  | .locked =>
    some (s.put i (c.at_ (.listed (limits g.costGuard { s.meter with now := c.began } c.request))))
  | .listed todo =>
    if g.costGuard.capped then
      if s.free keys.daily i then some ((s.lock keys.daily i).put i (c.at_ (.checking todo)))
      else none
    else some (s.put i (c.at_ (.checking todo)))
  | .checking [] => some (s.commit i c)
  | .checking (l :: todo) =>
    some (s.put i (c.at_ (.summed l todo (recorded s.meter c.company l))))
  | .summed l todo x =>
    let used := x + inFlight g.costGuard s.meter c.began c.company l
    if l.amount < used + c.amount then some (s.refuse i c l used)
    else some (s.put i (c.at_ (.checking todo)))
  | .holding _ => none
  | .closing reservation reply => some (s.close g i c reservation reply)

def Traffic.step (s : Traffic) : Act → Option Traffic
  | .tick now =>
    if s.meter.now ≤ now then some { s with meter := { s.meter with now := now } } else none
  | .cycle company startedAt => some { s with meter := { s.meter with
      openCycle := Function.update s.meter.openCycle company startedAt } }
  | .ask i request alias_ binding latencyMs =>
    match s.callers i with
    | none => some (s.put i
        ⟨request, alias_, binding, latencyMs, s.meter.now, s.meter.now, .asking⟩)
    | some _ => none
  | .next i => (s.callers i).bind (s.advance g keys i)
  | .answered i reply => (s.callers i).bind fun c =>
      match c.stage with
      | .holding reservation =>
        some (s.put i { c with opened := s.meter.now, stage := .closing reservation reply })
      | _ => none
  | .leave i => (s.callers i).map fun _ => s.drop i

/-- The runs of the guard's callers. -/
def traffic (init : Traffic → Prop) : System Traffic Act where
  init := init
  step s a t := s.step g keys a = some t

end Steps

variable {g : ModelGateway} {keys : Keys} {s t : Traffic} {i j : Id} {c : Caller}

/-! ## Whose step it is -/

def Act.caller : Act → Option Id
  | .ask i _ _ _ _ | .next i | .answered i _ | .leave i => some i
  | .tick _ | .cycle _ _ => none

theorem advance_callers (hj : j ≠ i) (h : s.advance g keys i c = some t) :
    t.callers j = s.callers j := by
  have hput : ∀ (s : Traffic) (o : Option Caller), Function.update s.callers i o j = s.callers j :=
    fun s o => Function.update_of_ne hj _ _
  cases hs : c.stage with
  | asking =>
    simp only [Traffic.advance, hs, Option.some.injEq] at h
    rw [← h]
    exact hput _ _
  | waiting =>
    simp only [Traffic.advance, hs] at h
    split at h <;> cases h
    exact hput _ _
  | locked =>
    simp only [Traffic.advance, hs, Option.some.injEq] at h
    rw [← h]
    exact hput _ _
  | listed todo =>
    simp only [Traffic.advance, hs] at h
    split at h
    · split at h <;> cases h
      exact hput _ _
    · cases h
      exact hput _ _
  | checking todo =>
    cases todo with
    | nil =>
      simp only [Traffic.advance, hs, Option.some.injEq] at h
      rw [← h, Traffic.commit]
      split
      · exact hput _ _
      · exact hput _ _
    | cons l todo =>
      simp only [Traffic.advance, hs, Option.some.injEq] at h
      rw [← h]
      exact hput _ _
  | summed l todo x =>
    simp only [Traffic.advance, hs] at h
    split at h <;> cases h
    · exact hput _ _
    · exact hput _ _
  | holding reservation =>
    simp only [Traffic.advance, hs] at h
    cases h
  | closing reservation reply =>
    simp only [Traffic.advance, hs, Option.some.injEq] at h
    rw [← h]
    cases reply <;> simp only [Traffic.close] <;> split <;> exact hput _ _

theorem step_callers {a : Act} (hj : a.caller ≠ some j) (h : s.step g keys a = some t) :
    t.callers j = s.callers j := by
  cases a with
  | tick now =>
    simp only [Traffic.step] at h
    split at h <;> cases h
    rfl
  | cycle company startedAt =>
    cases h
    rfl
  | ask i request alias_ binding latencyMs =>
    have hne : j ≠ i := fun heq => hj (by rw [heq]; rfl)
    simp only [Traffic.step] at h
    split at h <;> cases h
    exact Function.update_of_ne hne _ _
  | next i =>
    have hne : j ≠ i := fun heq => hj (by rw [heq]; rfl)
    obtain ⟨c, -, h⟩ := Option.bind_eq_some_iff.mp h
    exact advance_callers hne h
  | answered i reply =>
    have hne : j ≠ i := fun heq => hj (by rw [heq]; rfl)
    obtain ⟨c, -, h⟩ := Option.bind_eq_some_iff.mp h
    split at h <;> cases h
    exact Function.update_of_ne hne _ _
  | leave i =>
    have hne : j ≠ i := fun heq => hj (by rw [heq]; rfl)
    obtain ⟨c, -, rfl⟩ := Option.map_eq_some_iff.mp h
    exact Function.update_of_ne hne _ _

/-! ## A call nobody disturbs -/

@[simp] theorem Traffic.put_put (c c' : Caller) : (s.put i c).put i c' = s.put i c' := by
  simp [Traffic.put]

@[simp] theorem Traffic.put_callers (c : Caller) : (s.put i c).callers i = some c :=
  Function.update_self _ _ _

theorem Traffic.put_drop (c : Caller) : (s.put i c).drop i = s.drop i := by
  simp only [Traffic.put, Traffic.drop, Traffic.unlock, Function.update_idem]
  rfl

section Alone

variable {init : Traffic → Prop}

/-- The steps of one call. -/
def By (i : Id) (_ : Traffic) (a : Act) : Prop := a.caller = some i

theorem path_next (h : s.callers i = some c) (hstep : s.advance g keys i c = some t) :
    (traffic g keys init).Path (By i) s t := by
  refine .single ⟨.next i, rfl, ?_⟩
  show (s.callers i).bind (s.advance g keys i) = some t
  rw [h]
  exact hstep

theorem path_callers (hp : (traffic g keys init).Path (By i) s t) (hj : j ≠ i) :
    t.callers j = s.callers j := by
  refine System.Path.invariant (I := fun u => u.callers j = s.callers j) ?_ hp rfl
  intro u a v hu ha hstep
  have hne : a.caller ≠ some j := by
    rw [show a.caller = some i from ha]
    exact fun heq => hj (Option.some.inj heq).symm
  exact (step_callers hne hstep).trans hu

-- both sums of one limit
theorem path_sums (l : Limit) (todo : List Limit) :
    (traffic g keys init).Path (By i) (s.put i (c.at_ (.checking (l :: todo))))
      (s.put i (c.at_ (.summed l todo (recorded s.meter c.company l)))) := by
  refine path_next (Traffic.put_callers _) ?_
  simp only [Traffic.advance, Caller.at_, Traffic.put_put]
  rfl

theorem path_room (hbegan : c.began = s.meter.now) {l : Limit} {todo : List Limit}
    (h : ¬ l.amount < spent g.costGuard s.meter c.company l + c.amount) :
    (traffic g keys init).Path (By i) (s.put i (c.at_ (.checking (l :: todo))))
      (s.put i (c.at_ (.checking todo))) := by
  refine (path_sums l todo).trans (path_next (Traffic.put_callers _) ?_)
  rw [spent_eq, ← hbegan] at h
  simp only [Traffic.advance, Caller.at_, Traffic.put_put]
  exact if_neg h

theorem path_refused (hbegan : c.began = s.meter.now) {l : Limit} {todo : List Limit}
    (h : l.amount < spent g.costGuard s.meter c.company l + c.amount) :
    (traffic g keys init).Path (By i) (s.put i (c.at_ (.checking (l :: todo))))
      (s.refuse i c l (spent g.costGuard s.meter c.company l)) := by
  refine (path_sums l todo).trans (path_next (Traffic.put_callers _) ?_)
  rw [spent_eq, ← hbegan] at h ⊢
  simp only [Traffic.advance, Caller.at_]
  refine (if_pos h).trans ?_
  simp only [Traffic.refuse, Traffic.put_drop]
  rfl

/-- No limit has to refuse the call. -/
theorem path_checked (hbegan : c.began = s.meter.now) {todo : List Limit}
    (h : (todo.find? fun l =>
      l.amount < spent g.costGuard s.meter c.company l + c.amount) = none) :
    (traffic g keys init).Path (By i) (s.put i (c.at_ (.checking todo)))
      (s.put i (c.at_ (.checking []))) := by
  induction todo with
  | nil => exact .refl
  | cons l todo ih =>
    rw [List.find?_eq_none] at h
    have hroom := h l (.head _)
    rw [decide_eq_true_eq] at hroom
    refine (path_room hbegan hroom).trans (ih ?_)
    rw [List.find?_eq_none]
    exact fun l' hl' => h l' (.tail _ hl')

/-- The first limit without room refuses it. -/
theorem path_exceeded (hbegan : c.began = s.meter.now) {l : Limit} {todo : List Limit}
    (h : (todo.find? fun l =>
      l.amount < spent g.costGuard s.meter c.company l + c.amount) = some l) :
    (traffic g keys init).Path (By i) (s.put i (c.at_ (.checking todo)))
      (s.refuse i c l (spent g.costGuard s.meter c.company l)) := by
  induction todo with
  | nil => cases h
  | cons l' todo ih =>
    by_cases hroom : l'.amount < spent g.costGuard s.meter c.company l' + c.amount
    · rw [List.find?_cons_of_pos (by simpa using hroom)] at h
      cases h
      exact path_refused hbegan hroom
    · rw [List.find?_cons_of_neg (by simpa using hroom)] at h
      exact (path_room hbegan hroom).trans (ih h)

theorem free_of (h : ∀ k, s.locks k = none ∨ s.locks k = some i) (k : Nat) : s.free k i = true := by
  simpa [Traffic.free] using h k

theorem lock_of (h : ∀ k, s.locks k = none ∨ s.locks k = some i) (k k' : Nat) :
    (s.lock k i).locks k' = none ∨ (s.lock k i).locks k' = some i := by
  by_cases hk : k' = k
  · subst hk
    exact .inr (Function.update_self _ _ _)
  · exact (h k').imp (fun hh => (Function.update_of_ne hk _ _).trans hh)
      fun hh => (Function.update_of_ne hk _ _).trans hh

theorem unlock_of (h : ∀ k, s.locks k = none ∨ s.locks k = some i) :
    (s.unlock i).locks = fun _ => none := by
  funext k
  rcases h k with hk | hk
  · simp [Traffic.unlock, hk]
  · simp [Traffic.unlock, hk]

-- the locks are free, and the limits are read as they are
theorem path_listed (hfree : ∀ k, s.locks k = none ∨ s.locks k = some i) (hi : s.callers i = none)
    (hc : c = ⟨c.request, c.alias_, c.binding, c.latencyMs, s.meter.now, s.meter.now, .asking⟩) :
    ∃ s' : Traffic, s'.meter = s.meter ∧ (∀ k, s'.locks k = none ∨ s'.locks k = some i) ∧
      (traffic g keys init).Path (By i) s
        (s'.put i (c.at_ (.checking (limits g.costGuard s.meter c.request)))) := by
  have hbegan : c.began = s.meter.now := by rw [hc]
  have hask : (traffic g keys init).Path (By i) s (s.put i c) := by
    refine .single ⟨.ask i c.request c.alias_ c.binding c.latencyMs, rfl, ?_⟩
    show s.step g keys _ = some _
    rw [Traffic.step, hi]
    exact congrArg (fun c => some (s.put i c)) hc.symm
  have hopen : (traffic g keys init).Path (By i) (s.put i c) (s.put i (c.at_ .waiting)) := by
    refine path_next (Traffic.put_callers _) ?_
    rw [hc]
    simp only [Traffic.advance, Traffic.put_put]
    rfl
  let s1 := s.lock (keys.company c.company) i
  have hlock : (traffic g keys init).Path (By i) (s.put i (c.at_ .waiting))
      (s1.put i (c.at_ .locked)) := by
    refine path_next (Traffic.put_callers _) ?_
    have hkey : (s.put i (c.at_ .waiting)).free (keys.company c.company) i = true :=
      free_of hfree _
    simp only [Traffic.advance, Caller.at_]
    refine (if_pos hkey).trans (congrArg some ?_)
    exact (s.lock (keys.company c.company) i).put_put (c.at_ .waiting) (c.at_ .locked)
  have hlist : (traffic g keys init).Path (By i) (s1.put i (c.at_ .locked))
      (s1.put i (c.at_ (.listed (limits g.costGuard s.meter c.request)))) := by
    refine path_next (Traffic.put_callers _) ?_
    simp only [Traffic.advance, Caller.at_, Traffic.put_put, hbegan]
    rfl
  have hbegun := ((hask.trans hopen).trans hlock).trans hlist
  by_cases hcap : g.costGuard.capped = true
  · refine ⟨s1.lock keys.daily i, rfl, lock_of (lock_of hfree _) _,
      hbegun.trans (path_next (Traffic.put_callers _) ?_)⟩
    have hkey : (s1.put i (c.at_ (.listed (limits g.costGuard s.meter c.request)))).free
        keys.daily i = true := free_of (lock_of hfree _) _
    simp only [Traffic.advance, Caller.at_]
    refine (if_pos hcap).trans ((if_pos hkey).trans (congrArg some ?_))
    exact (s1.lock keys.daily i).put_put (c.at_ (.listed (limits g.costGuard s.meter c.request)))
      (c.at_ (.checking (limits g.costGuard s.meter c.request)))
  · refine ⟨s1, rfl, lock_of hfree _, hbegun.trans (path_next (Traffic.put_callers _) ?_)⟩
    simp only [Traffic.advance, Caller.at_, Traffic.put_put]
    exact if_neg hcap

/-- A call's own transaction, from its first statement to the provider or to a refusal, does
what `reserve` does when nobody else is there. -/
theorem undisturbed_reserve (hfree : ∀ k, s.locks k = none) (hi : s.callers i = none)
    (request : ModelRequest) (alias_ : String) (binding : ModelBinding) (latencyMs : Nat) :
    ∃ t, (traffic g keys init).Path (By i) s t ∧ t.locks = s.locks ∧
      ((∃ reservation, Returns (reserve g.costGuard request binding) s.meter reservation t.meter ∧
          t.callers i = some ⟨request, alias_, binding, latencyMs, s.meter.now, s.meter.now,
            .holding reservation⟩) ∨
        ((∃ e, Raises (reserve g.costGuard request binding) s.meter e t.meter) ∧
          t.callers i = none)) := by
  let c : Caller := ⟨request, alias_, binding, latencyMs, s.meter.now, s.meter.now, .asking⟩
  obtain ⟨s', hmeter, hlocks, hpath⟩ :=
    @path_listed g keys s i c init (fun k => .inl (hfree k)) hi rfl
  have hnone : s.locks = fun _ => none := funext hfree
  have hbegan : c.began = s'.meter.now := by rw [hmeter]
  cases hfirst : firstExceeded g.costGuard s.meter request (estimateCost request binding) with
  | some l =>
    refine ⟨s'.refuse i c l (spent g.costGuard s'.meter c.company l),
      hpath.trans (path_exceeded hbegan ?_), ?_, .inr ⟨?_, Function.update_self _ _ _⟩⟩
    · rw [hmeter]
      exact hfirst
    · exact (unlock_of hlocks).trans hnone.symm
    · obtain ⟨e, he⟩ := reserve_refused hfirst
      refine ⟨e, ?_⟩
      simp only [Traffic.refuse, hmeter]
      exact he
  | none =>
    have hchecked : (traffic g keys init).Path (By i) s (s'.put i (c.at_ (.checking []))) := by
      refine hpath.trans (path_checked hbegan ?_)
      rw [hmeter]
      exact hfirst
    have hunlocked : ((s'.put i (c.at_ (.checking []))).unlock i).locks = s.locks :=
      (unlock_of hlocks).trans hnone.symm
    have hstep : (traffic g keys init).Path (By i) s
        ((s'.put i (c.at_ (.checking []))).commit i (c.at_ (.checking []))) :=
      hchecked.trans (path_next (Traffic.put_callers _) rfl)
    refine ⟨_, hstep, ?_, .inl ?_⟩
    · unfold Traffic.commit
      split <;> exact hunlocked
    · unfold Traffic.commit
      by_cases hzero : (c.at_ (.checking [])).amount = 0
      · simp only [if_pos hzero]
        refine ⟨none, ?_, Function.update_self _ _ _⟩
        show Returns _ _ _ s'.meter
        rw [hmeter]
        exact reserve_free hfirst hzero
      · simp only [if_neg hzero]
        refine ⟨some s'.meter.nextId, ?_, Function.update_self _ _ _⟩
        show Returns _ _ _ (s'.meter.reserved (c.at_ (.checking [])))
        rw [hmeter]
        exact reserve_held hfirst hzero

end Alone

-- a dollar a day for the company
def budgeted : Traffic where
  meter := { emptyMeter with budgets := [⟨0, none, none, .day, 1, "USD", true⟩] }
  callers := fun _ => none
  locks := fun _ => none

def soloKeys : Keys := ⟨fun company => company + 1, 0⟩

theorem undisturbed_reserve_solo :
    ∃ t, (traffic soloGateway soloKeys fun _ => True).Path (By 0) budgeted t ∧
      t.locks = budgeted.locks := by
  obtain ⟨t, hpath, hlocks, -⟩ :=
    @undisturbed_reserve soloGateway soloKeys budgeted 0 (fun _ => True) (fun _ => rfl) rfl
      soloRequest "writer" soloBinding 0
  exact ⟨t, hpath, hlocks⟩

end Autora.Models
