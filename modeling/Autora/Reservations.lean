import Autora.ModelGateway

/-! Which reservations a model call leaves open: the ones whose holder was interrupted
between the commit that made them and the commit that closes them. -/

namespace Autora.Models

open Transactions Refusals Untyped
open Agents (StopReason)

variable {g : ModelGateway} {request : ModelRequest} {binding : ModelBinding} {a : Attempt}
  {m t u : Meter}

/-- Settled against one OK call that settles nothing else, or released; not both. -/
def CostReservation.Closed (m : Meter) (r : CostReservation) : Prop :=
  (r.settledAt.isSome = true ∧ r.releasedAt = none ∧
    ∃ c ∈ m.calls, c.status = .ok ∧ r.modelCallId = some c.id ∧
      (∀ c' ∈ m.calls, c'.id = c.id → c' = c) ∧
      ∀ r' ∈ m.reservations, r'.modelCallId = some c.id → r' = r) ∨
  (r.releasedAt.isSome = true ∧ r.settledAt = none ∧ r.modelCallId = none)

/-- The ids in use are older than the next one. -/
structure Meter.Sound (m : Meter) : Prop where
  calls : ∀ c ∈ m.calls, c.id < m.nextId
  reservations : ∀ r ∈ m.reservations, r.id < m.nextId
  settled : ∀ r ∈ m.reservations, ∀ c, r.modelCallId = some c → c < m.nextId

/-- The meter, after candidates of a call that failed and were closed. -/
structure Failed (m t : Meter) : Prop where
  budgets : t.budgets = m.budgets
  perRun : t.perRun = m.perRun
  taskBudget : t.taskBudget = m.taskBudget
  openCycle : t.openCycle = m.openCycle
  nextId : m.nextId ≤ t.nextId
  calls : ∃ cs, t.calls = m.calls ++ cs ∧ ∀ c ∈ cs, c.status = .error ∧ c.id < t.nextId
  reservations : ∃ rs, t.reservations = m.reservations ++ rs ∧
    ∀ r ∈ rs, r.releasedAt.isSome = true ∧ r.settledAt = none ∧ r.modelCallId = none ∧
      r.id < t.nextId

theorem Failed.refl (m : Meter) : Failed m m :=
  ⟨rfl, rfl, rfl, rfl, le_rfl, ⟨[], by simp, by simp⟩, ⟨[], by simp, by simp⟩⟩

theorem Failed.sound (h : Failed m t) (hm : m.Sound) : t.Sound := by
  obtain ⟨cs, hcs, hc⟩ := h.calls
  obtain ⟨rs, hrs, hr⟩ := h.reservations
  have hle := h.nextId
  refine ⟨fun c hmem => ?_, fun r hmem => ?_, fun r hmem c hid => ?_⟩
  · rw [hcs] at hmem
    rcases List.mem_append.mp hmem with hold | hnew
    · exact lt_of_lt_of_le (hm.calls c hold) hle
    · exact (hc c hnew).2
  · rw [hrs] at hmem
    rcases List.mem_append.mp hmem with hold | hnew
    · exact lt_of_lt_of_le (hm.reservations r hold) hle
    · exact (hr r hnew).2.2.2
  · rw [hrs] at hmem
    rcases List.mem_append.mp hmem with hold | hnew
    · exact lt_of_lt_of_le (hm.settled r hold c hid) hle
    · have hnone := (hr r hnew).2.2.1
      rw [hnone] at hid
      cases hid

/-- Every reservation from an id on is closed. -/
def AllClosed (start : Id) (u : Meter) : Prop :=
  ∀ r ∈ u.reservations, start ≤ r.id → r.Closed u

theorem Failed.allClosed (h : Failed m t) (hm : m.Sound) : AllClosed m.nextId t := by
  obtain ⟨rs, hrs, hr⟩ := h.reservations
  intro r hmem hid
  rw [hrs] at hmem
  rcases List.mem_append.mp hmem with hold | hnew
  · have hlt := hm.reservations r hold
    exact absurd hid (Nat.not_le.mpr hlt)
  · have hrow := hr r hnew
    exact .inr ⟨hrow.1, hrow.2.1, hrow.2.2.1⟩

-- what has failed and was released counts against no limit
theorem Failed.spent (h : Failed m t) (guard : DbCostGuard) (company : Id) (l : Limit)
    (at_ : Time) :
    spent guard { t with now := at_ } company l = spent guard { m with now := at_ } company l := by
  obtain ⟨cs, hcs, hc⟩ := h.calls
  obtain ⟨rs, hrs, hr⟩ := h.reservations
  have hcalls : cs.filter (fun c => c.status = .ok && l.scoped company c.context.companyId
      c.context.projectId c.context.taskId c.context.runId c.createdAt) = [] := by
    refine List.filter_eq_nil_iff.mpr fun c hmem => ?_
    simp [(hc c hmem).1]
  have hopen : rs.filter (fun r => r.isOpen && at_ ≤ r.createdAt + guard.reservationTtl &&
      l.scoped company r.companyId r.projectId r.taskId r.runId r.createdAt) = [] := by
    refine List.filter_eq_nil_iff.mpr fun r hmem => ?_
    have hreleased := (hr r hmem).1
    cases hat : r.releasedAt with
    | none => simp [hat] at hreleased
    | some x => simp [CostReservation.isOpen, hat]
  simp only [Models.spent, hcs, hrs, List.filter_append, hcalls, hopen, List.append_nil]

theorem Failed.firstExceeded (h : Failed m t) (guard : DbCostGuard) (request : ModelRequest)
    (amount : Usd) (at_ : Time) :
    firstExceeded guard { t with now := at_ } request amount =
      firstExceeded guard { m with now := at_ } request amount := by
  have hlimits : limits guard { t with now := at_ } request =
      limits guard { m with now := at_ } request := by
    simp only [limits, h.budgets, h.perRun, h.taskBudget, h.openCycle]
  simp only [Models.firstExceeded, hlimits, h.spent]

/-! What each transaction does. -/

def newReservation (t : Meter) (request : ModelRequest) (amount : Usd) : CostReservation where
  id := t.nextId
  companyId := request.context.companyId
  projectId := request.context.projectId
  taskId := request.context.taskId
  runId := request.context.runId
  amount := amount
  createdAt := t.now
  settledAt := none
  releasedAt := none
  modelCallId := none
  actualCost := none

-- the meter with a reservation held
def Meter.held (t : Meter) (request : ModelRequest) (amount : Usd) : Meter :=
  { t with
    nextId := t.nextId + 1
    reservations := t.reservations ++ [newReservation t request amount] }

def Meter.refused (t : Meter) (guard : DbCostGuard) (request : ModelRequest) (l : Limit)
    (amount : Usd) : Meter :=
  { t with exhausted := t.exhausted ++
      [⟨l.scope, request.context, l.amount, spent guard t request.context.companyId l, amount⟩] }

theorem reserve_refused {guard : DbCostGuard} {l : Limit}
    (h : firstExceeded guard t request (estimateCost request binding) = some l) :
    ∃ e, Raises (reserve guard request binding) t e
      (t.refused guard request l (estimateCost request binding)) := by
  refine ⟨.budgetExceeded l.scope l.amount (spent guard t request.context.companyId l)
    (estimateCost request binding), ?_⟩
  simp only [reserve, raises_bind, returns_get, raises_get, false_or]
  refine ⟨t, t, ⟨rfl, rfl⟩, ?_⟩
  rw [h]
  simp [Meter.refused]

theorem reserve_free {guard : DbCostGuard}
    (h : firstExceeded guard t request (estimateCost request binding) = none)
    (hzero : estimateCost request binding = 0) :
    Returns (reserve guard request binding) t none t := by
  simp only [reserve, returns_bind, returns_get]
  refine ⟨t, t, ⟨rfl, rfl⟩, ?_⟩
  rw [h]
  simp [hzero]

theorem reserve_held {guard : DbCostGuard}
    (h : firstExceeded guard t request (estimateCost request binding) = none)
    (hamount : estimateCost request binding ≠ 0) :
    Returns (reserve guard request binding) t (some t.nextId)
      (t.held request (estimateCost request binding)) := by
  simp only [reserve, returns_bind, returns_get]
  refine ⟨t, t, ⟨rfl, rfl⟩, ?_⟩
  rw [h]
  simp [hamount, freshId, Meter.held, newReservation]

-- the meter with one more call
def Meter.called (t : Meter) (call : ModelCall) : Meter :=
  { t with nextId := t.nextId + 1, calls := t.calls ++ [call] }

-- the row `_record` adds
def callRow (t : Meter) (request : ModelRequest) (alias_ : String) (binding : ModelBinding)
    (usage : Usage) (cost : Usd) (latencyMs : Nat) (status : ModelCallStatus)
    (stopReason : Option StopReason) (error : Option (String × Str)) (modelId : Option Str) :
    ModelCall where
  id := t.nextId
  context := request.context
  capability := request.capability
  alias_ := alias_
  provider := binding.provider
  modelId := servedBy binding modelId
  status := status
  stopReason := stopReason
  usage := usage
  costUsd := cost
  latencyMs := latencyMs
  error := error
  createdAt := t.now

def failedCall (t : Meter) (request : ModelRequest) (alias_ : String) (binding : ModelBinding)
    (latencyMs : Nat) (e : ProviderError) : ModelCall :=
  callRow t request alias_ binding {} 0 latencyMs .error none
    (some (e.errorClass, e.message.take 2000)) none

def okCall (t : Meter) (request : ModelRequest) (alias_ : String) (binding : ModelBinding)
    (latencyMs : Nat) (cost : Usd) (r : ProviderResponse) : ModelCall :=
  callRow t request alias_ binding r.usage cost latencyMs .ok (some r.stopReason) none
    (some r.modelId)

/-- A failure the database takes. -/
def ProviderError.recordable (binding : ModelBinding) (e : ProviderError) : Bool :=
  storable binding.modelId && storable (e.message.take 2000)

/-- A reply the database takes. -/
def ProviderResponse.recordable (binding : ModelBinding) (r : ProviderResponse) : Bool :=
  r.usage.storable && storable (servedBy binding (some r.modelId))

def Meter.released (t : Meter) (reservation : Option Id) : Meter :=
  match reservation with
  | none => t
  | some id => t.setReservation id fun r => { r with releasedAt := some t.now }

def Meter.settled (t : Meter) (reservation : Option Id) (cost : Usd) (call : Id) : Meter :=
  match reservation with
  | none => t
  | some id => t.setReservation id fun r =>
      { r with settledAt := some t.now, modelCallId := some call, actualCost := some cost }

variable {alias_ : String} {reservation : Option Id} {latencyMs : Nat} {e : ProviderError}
  {r : ProviderResponse} {cost : Usd}

section Record

variable {usage : Usage} {status : ModelCallStatus} {stopReason : Option StopReason}
  {error : Option (String × Str)} {modelId : Option Str}

theorem record_ok (husage : usage.storable = true)
    (hmodel : storable (servedBy binding modelId) = true)
    (herror : error.all (fun e => storable e.2) = true) :
    Returns (record request alias_ binding usage cost latencyMs status stopReason error modelId) t
      t.nextId (t.called (callRow t request alias_ binding usage cost latencyMs status stopReason
        error modelId)) := by
  simp [record, husage, hmodel, herror, freshId, Meter.called, callRow]

theorem record_lost (h : ¬ (usage.storable = true ∧ storable (servedBy binding modelId) = true ∧
      error.all (fun e => storable e.2) = true)) :
    Raises (record request alias_ binding usage cost latencyMs status stopReason error modelId) t
      (.other "DBAPIError") t := by
  simp only [record, raises_bind]
  exact .inl (raises_ensure.mpr ⟨h, rfl, rfl⟩)

end Record

theorem release_returns : Returns (release reservation) t ⟨⟩ (t.released reservation) := by
  cases reservation <;> simp [release, forSome, Meter.released]

theorem settle_returns {call : Id} :
    Returns (settle reservation cost call) t ⟨⟩ (t.settled reservation cost call) := by
  cases reservation <;> simp [settle, forSome, Meter.settled]

theorem closeFailed_ok (h : e.recordable binding = true) :
    Returns (ModelGateway.closeFailed request alias_ binding reservation latencyMs e) t ⟨⟩
      ((t.called (failedCall t request alias_ binding latencyMs e)).released reservation) := by
  simp only [ProviderError.recordable, Bool.and_eq_true] at h
  simp only [ModelGateway.closeFailed, returns_atomically, returns_bind]
  exact ⟨_, _, record_ok rfl h.1 h.2, release_returns⟩

theorem closeFailed_lost (h : e.recordable binding = false) :
    ∃ x, Raises (ModelGateway.closeFailed request alias_ binding reservation latencyMs e) t x t := by
  refine ⟨.other "DBAPIError", ?_⟩
  simp only [ModelGateway.closeFailed, raises_atomically, raises_bind, true_and]
  refine ⟨t, .inl (record_lost fun hok => ?_)⟩
  have htrue : e.recordable binding = true := by
    simp only [ProviderError.recordable, Bool.and_eq_true]
    exact ⟨hok.2.1, hok.2.2⟩
  rw [h] at htrue
  cases htrue

theorem closeOk_ok (h : r.recordable binding = true) :
    Returns (ModelGateway.closeOk request alias_ binding reservation latencyMs cost r) t t.nextId
      ((t.called (okCall t request alias_ binding latencyMs cost r)).settled reservation cost
        t.nextId) := by
  simp only [ProviderResponse.recordable, Bool.and_eq_true] at h
  simp only [ModelGateway.closeOk, returns_atomically, returns_bind, returns_pure]
  exact ⟨_, _, record_ok h.1 h.2 rfl, _, _, settle_returns, rfl, rfl⟩

theorem closeOk_lost (h : r.recordable binding = false) :
    ∃ x, Raises (ModelGateway.closeOk request alias_ binding reservation latencyMs cost r) t x t := by
  refine ⟨.other "DBAPIError", ?_⟩
  simp only [ModelGateway.closeOk, raises_atomically, raises_bind, true_and]
  refine ⟨t, .inl (record_lost fun hok => ?_)⟩
  have htrue : r.recordable binding = true := by
    simp only [ProviderResponse.recordable, Bool.and_eq_true]
    exact ⟨hok.1, hok.2.1⟩
  rw [h] at htrue
  cases htrue

/-! What is left open, and what is not. -/

theorem Failed.allClosed_of (h : Failed m t) (hm : m.Sound)
    (hu : u.reservations = t.reservations) : AllClosed m.nextId u := by
  obtain ⟨rs, hrs, hr⟩ := h.reservations
  intro r hmem hid
  rw [hu, hrs] at hmem
  rcases List.mem_append.mp hmem with hold | hnew
  · have hlt := hm.reservations r hold
    exact absurd hid (Nat.not_le.mpr hlt)
  · have hrow := hr r hnew
    exact .inr ⟨hrow.1, hrow.2.1, hrow.2.2.1⟩

theorem Failed.at_ (h : Failed m t) (now : Time) : Failed m { t with now := now } :=
  ⟨h.budgets, h.perRun, h.taskBudget, h.openCycle, h.nextId, h.calls, h.reservations⟩

theorem Failed.called (h : Failed m t) {call : ModelCall} (hstatus : call.status = .error)
    (hid : call.id = t.nextId) : Failed m (t.called call) := by
  obtain ⟨cs, hcs, hc⟩ := h.calls
  obtain ⟨rs, hrs, hr⟩ := h.reservations
  refine ⟨h.budgets, h.perRun, h.taskBudget, h.openCycle, Nat.le_succ_of_le h.nextId,
    ⟨cs ++ [call], ?_, fun c hmem => ?_⟩, ⟨rs, hrs, fun r hmem => ?_⟩⟩
  · show t.calls ++ [call] = m.calls ++ (cs ++ [call])
    rw [hcs, List.append_assoc]
  · rcases List.mem_append.mp hmem with hold | hnew
    · exact ⟨(hc c hold).1, Nat.lt_succ_of_lt (hc c hold).2⟩
    · have hlast := List.mem_singleton.mp hnew
      rw [hlast, hid]
      exact ⟨hstatus, Nat.lt_succ_self _⟩
  · have hrow := hr r hmem
    exact ⟨hrow.1, hrow.2.1, hrow.2.2.1, Nat.lt_succ_of_lt hrow.2.2.2⟩

-- only the last row has the id
theorem map_last {l : List CostReservation} {x : CostReservation} {id : Id}
    (f : CostReservation → CostReservation) (hx : x.id = id) (h : ∀ r ∈ l, r.id < id) :
    (l ++ [x]).map (fun r => if r.id = id then f r else r) = l ++ [f x] := by
  have hold : l.map (fun r => if r.id = id then f r else r) = l := by
    refine (List.map_congr_left fun r hr => ?_).trans (List.map_id l)
    rw [if_neg (Nat.ne_of_lt (h r hr))]
    rfl
  rw [List.map_append, hold, List.map_cons, List.map_nil, if_pos hx]

theorem Failed.released (h : Failed m t) (hm : m.Sound) {amount : Usd} {call : ModelCall}
    (hstatus : call.status = .error) (hid : call.id = t.nextId + 1) :
    Failed m (((t.held request amount).called call).released (some t.nextId)) := by
  obtain ⟨cs, hcs, hc⟩ := h.calls
  obtain ⟨rs, hrs, hr⟩ := h.reservations
  have hlast : (newReservation t request amount).id = t.nextId := rfl
  have hrows := map_last (fun r => { r with releasedAt := some t.now }) hlast
    (h.sound hm).reservations
  refine ⟨h.budgets, h.perRun, h.taskBudget, h.openCycle, ?_,
    ⟨cs ++ [call], ?_, fun c hmem => ?_⟩,
    ⟨rs ++ [{ newReservation t request amount with releasedAt := some t.now }],
      hrows.trans ?_, fun r hmem => ?_⟩⟩
  · exact Nat.le_succ_of_le (Nat.le_succ_of_le h.nextId)
  · show t.calls ++ [call] = m.calls ++ (cs ++ [call])
    rw [hcs, List.append_assoc]
  · rcases List.mem_append.mp hmem with hold | hnew
    · have hlt := (hc c hold).2
      exact ⟨(hc c hold).1, Nat.lt_succ_of_lt (Nat.lt_succ_of_lt hlt)⟩
    · have hlast := List.mem_singleton.mp hnew
      rw [hlast, hid]
      exact ⟨hstatus, Nat.lt_succ_self _⟩
  · rw [hrs, List.append_assoc]
  · rcases List.mem_append.mp hmem with hold | hnew
    · have hrow := hr r hold
      exact ⟨hrow.1, hrow.2.1, hrow.2.2.1, Nat.lt_succ_of_lt (Nat.lt_succ_of_lt hrow.2.2.2)⟩
    · have hlast := List.mem_singleton.mp hnew
      rw [hlast]
      exact ⟨rfl, rfl, rfl, Nat.lt_succ_of_lt (Nat.lt_succ_self _)⟩

theorem Failed.held_open (h : Failed m t) {amount : Usd} :
    ¬ AllClosed m.nextId (t.held request amount) := by
  intro hall
  have hlast := hall _ (List.mem_append_right _ (List.mem_singleton.mpr rfl)) h.nextId
  rcases hlast with ⟨hsettled, -, -⟩ | ⟨hreleased, -, -⟩
  · cases hsettled
  · cases hreleased

theorem Failed.settled (h : Failed m t) (hm : m.Sound) {amount : Usd} {call : ModelCall}
    (hstatus : call.status = .ok) (hid : call.id = t.nextId + 1) :
    AllClosed m.nextId
      (((t.held request amount).called call).settled (some t.nextId) cost (t.nextId + 1)) := by
  obtain ⟨rs, hrs, hr⟩ := h.reservations
  have ht := h.sound hm
  have hrows : (((t.held request amount).called call).settled (some t.nextId) cost
      (t.nextId + 1)).reservations = t.reservations ++ [_] :=
    map_last (x := newReservation t request amount) (fun r =>
      { r with settledAt := some t.now, modelCallId := some (t.nextId + 1), actualCost := some cost })
      rfl ht.reservations
  intro r hmem hfrom
  rw [hrows] at hmem
  rcases List.mem_append.mp hmem with hold | hnew
  · rw [hrs] at hold
    rcases List.mem_append.mp hold with hold | hnew
    · have hlt := hm.reservations r hold
      exact absurd hfrom (Nat.not_le.mpr hlt)
    · have hrow := hr r hnew
      exact .inr ⟨hrow.1, hrow.2.1, hrow.2.2.1⟩
  · have hlast := List.mem_singleton.mp hnew
    rw [hlast]
    refine .inl ⟨rfl, rfl, call, List.mem_append_right _ (List.mem_singleton.mpr rfl), hstatus,
      congrArg some hid.symm, fun c hc hsame => ?_, fun r' hr' hsame => ?_⟩
    · rcases List.mem_append.mp hc with hold | hnew
      · have hlt := ht.calls c hold
        rw [hsame, hid] at hlt
        exact absurd hlt (Nat.not_lt.mpr (Nat.le_succ _))
      · exact List.mem_singleton.mp hnew
    · rw [hrows] at hr'
      rcases List.mem_append.mp hr' with hold | hnew
      · have hlt := ht.settled r' hold call.id hsame
        rw [hid] at hlt
        exact absurd hlt (Nat.not_lt.mpr (Nat.le_succ _))
      · exact List.mem_singleton.mp hnew

/-! One candidate. -/

/-- A reservation is committed for the candidate. -/
def Attempt.holds (g : ModelGateway) (m : Meter) (request : ModelRequest)
    (binding : ModelBinding) (a : Attempt) : Prop :=
  a.reserving ≠ .beforeCommit ∧ estimateCost request binding ≠ 0 ∧
    firstExceeded g.costGuard { m with now := a.at_ } request (estimateCost request binding) = none

/-- The answer is not closed: the caller is cancelled, another error than the provider's
own comes, or a row that the database or the price cannot hold. -/
def Attempt.broken (g : ModelGateway) (binding : ModelBinding) (a : Attempt) : Prop :=
  match a.answer with
  | .cancelled | .raises _ => True
  | .fails e => e.recordable binding = false ∨ a.closing = .beforeCommit
  | .reply r => payable (g.replyCost binding r) = false ∨ r.recordable binding = false ∨
      a.closing = .beforeCommit

/-- Whoever holds the reservation does not come to closing it. -/
def Attempt.interrupted (g : ModelGateway) (binding : ModelBinding) (a : Attempt) : Prop :=
  a.reserving = .afterCommit ∨ a.broken g binding

/-- The next candidate is tried. -/
def Attempt.movesOn (g : ModelGateway) (m : Meter) (request : ModelRequest)
    (binding : ModelBinding) (a : Attempt) : Prop :=
  a.reserving = .none ∧ a.closing = .none ∧
    firstExceeded g.costGuard { m with now := a.at_ } request (estimateCost request binding) = none ∧
    ∃ e, a.answer = .fails e ∧ e.recordable binding = true ∧ e.fallbackAllowed = true

/-- No reservation's holder is interrupted, on any candidate that is tried. -/
def Undisturbed (g : ModelGateway) (request : ModelRequest) (m : Meter) :
    List (String × Attempt) → Prop
  | [] => True
  | (alias_, a) :: rest => ∀ binding, g.router.aliases.lookup alias_ = some binding →
      binding.provider ∈ g.providers →
      (a.holds g m request binding → ¬ a.interrupted g binding) ∧
      (a.movesOn g m request binding → Undisturbed g request m rest)

section Cut

variable {α : Type} {w : Work α} {x : α} {err : Raised}

theorem cut_before : Raises (cut .beforeCommit w) t .cancelled t := raises_raise.mpr ⟨rfl, rfl⟩

theorem cut_after (h : Returns w t x u) : Raises (cut .afterCommit w) t .cancelled u := by
  have hrun : Returns (handled (w >>= fun _ => pure ⟨⟩) fun _ => pure PUnit.unit) t ⟨⟩ u :=
    returns_handled.mpr (.inl (returns_bind.mpr ⟨x, u, h, returns_pure.mpr ⟨rfl, rfl⟩⟩))
  exact raises_bind.mpr (.inr ⟨⟨⟩, u, hrun, raises_raise.mpr ⟨rfl, rfl⟩⟩)

theorem cut_after_raised (h : Raises w t err u) : Raises (cut .afterCommit w) t .cancelled u := by
  have hrun : Returns (handled (w >>= fun _ => pure ⟨⟩) fun _ => pure PUnit.unit) t ⟨⟩ u :=
    returns_handled.mpr (.inr ⟨err, u, raises_bind.mpr (.inl h), returns_pure.mpr ⟨rfl, rfl⟩⟩)
  exact raises_bind.mpr (.inr ⟨⟨⟩, u, hrun, raises_raise.mpr ⟨rfl, rfl⟩⟩)

-- a part that raises, wherever the cancellation falls
theorem cut_raised (c : Cut) (h : Raises w t err u) :
    ∃ err' u', (u' = t ∨ u' = u) ∧ Raises (cut c w) t err' u' := by
  cases c with
  | none => exact ⟨err, u, .inr rfl, h⟩
  | beforeCommit => exact ⟨.cancelled, t, .inl rfl, cut_before⟩
  | afterCommit => exact ⟨.cancelled, u, .inr rfl, cut_after_raised h⟩

theorem cut_unchanged (c : Cut) (h : Raises w t err t) : ∃ err', Raises (cut c w) t err' t := by
  obtain ⟨err', u', hu, hraise⟩ := cut_raised c h
  rcases hu with rfl | rfl <;> exact ⟨err', hraise⟩

end Cut

theorem answered_broken (h : a.broken g binding) :
    ∃ err, Raises (g.answered request alias_ binding a reservation) t err t := by
  unfold Attempt.broken at h
  unfold ModelGateway.answered
  cases ha : a.answer with
  | cancelled => exact ⟨_, raises_raise.mpr ⟨rfl, rfl⟩⟩
  | raises errorClass => exact ⟨_, raises_raise.mpr ⟨rfl, rfl⟩⟩
  | fails e =>
    rw [ha] at h
    have hraise : ∃ err, Raises (cut a.closing (ModelGateway.closeFailed request alias_ binding
        reservation a.latencyMs e)) t err t := by
      rcases h with hrow | hcut
      · have hlost : ∃ x, Raises (ModelGateway.closeFailed request alias_ binding reservation
            a.latencyMs e) t x t := closeFailed_lost hrow
        obtain ⟨err, herr⟩ := hlost
        exact cut_unchanged a.closing herr
      · rw [hcut]
        exact ⟨_, cut_before⟩
    obtain ⟨err, herr⟩ := hraise
    exact ⟨err, raises_bind.mpr (.inl herr)⟩
  | reply r =>
    rw [ha] at h
    by_cases hpay : payable (g.replyCost binding r) = true
    · have hraise : ∃ err, Raises (cut a.closing (ModelGateway.closeOk request alias_ binding
          reservation a.latencyMs (g.replyCost binding r) r)) t err t := by
        rcases h with hfree | hrow | hcut
        · rw [hpay] at hfree
          cases hfree
        · have hlost : ∃ x, Raises (ModelGateway.closeOk request alias_ binding reservation
              a.latencyMs (g.replyCost binding r) r) t x t := closeOk_lost hrow
          obtain ⟨err, herr⟩ := hlost
          exact cut_unchanged a.closing herr
        · rw [hcut]
          exact ⟨_, cut_before⟩
      obtain ⟨err, herr⟩ := hraise
      refine ⟨err, raises_bind.mpr (.inr ⟨⟨⟩, t, returns_ensure.mpr ⟨hpay, rfl⟩, ?_⟩)⟩
      exact raises_bind.mpr (.inl herr)
    · exact ⟨_, raises_bind.mpr (.inl (raises_ensure.mpr ⟨hpay, rfl, rfl⟩))⟩

-- a failure that is closed, and what the caller sees of it
theorem answered_fails (ha : a.answer = .fails e) (hrow : e.recordable binding = true)
    (hcut : a.closing ≠ .beforeCommit) :
    let closed := (t.called (failedCall t request alias_ binding a.latencyMs e)).released reservation
    (a.closing = .none ∧
      Returns (g.answered request alias_ binding a reservation) t (.error e) closed) ∨
    (a.closing = .afterCommit ∧
      ∃ err, Raises (g.answered request alias_ binding a reservation) t err closed) := by
  intro closed
  have hclose : Returns (ModelGateway.closeFailed request alias_ binding reservation a.latencyMs e)
      t ⟨⟩ closed := closeFailed_ok hrow
  unfold ModelGateway.answered
  rw [ha]
  cases hc : a.closing with
  | none =>
    exact .inl ⟨rfl, returns_bind.mpr ⟨⟨⟩, closed, hclose, returns_pure.mpr ⟨rfl, rfl⟩⟩⟩
  | beforeCommit => exact absurd hc hcut
  | afterCommit => exact .inr ⟨rfl, _, raises_bind.mpr (.inl (cut_after hclose))⟩

theorem answered_reply (ha : a.answer = .reply r) (hpay : payable (g.replyCost binding r) = true)
    (hrow : r.recordable binding = true) (hcut : a.closing ≠ .beforeCommit) :
    let closed := (t.called (okCall t request alias_ binding a.latencyMs (g.replyCost binding r)
      r)).settled reservation (g.replyCost binding r) t.nextId
    (∃ response, Returns (g.answered request alias_ binding a reservation) t (.ok response) closed) ∨
      ∃ err, Raises (g.answered request alias_ binding a reservation) t err closed := by
  intro closed
  have hclose : Returns (ModelGateway.closeOk request alias_ binding reservation a.latencyMs
      (g.replyCost binding r) r) t t.nextId closed := closeOk_ok hrow
  unfold ModelGateway.answered
  rw [ha]
  cases hc : a.closing with
  | none =>
    refine .inl ⟨ModelGateway.responseOf request alias_ binding a.latencyMs (g.replyCost binding r) r
      t.nextId, returns_bind.mpr ⟨⟨⟩, t, returns_ensure.mpr ⟨hpay, rfl⟩, ?_⟩⟩
    exact returns_bind.mpr ⟨t.nextId, closed, hclose, returns_pure.mpr ⟨rfl, rfl⟩⟩
  | beforeCommit => exact absurd hc hcut
  | afterCommit =>
    refine .inr ⟨.cancelled,
      raises_bind.mpr (.inr ⟨⟨⟩, t, returns_ensure.mpr ⟨hpay, rfl⟩, ?_⟩)⟩
    exact raises_bind.mpr (.inl (cut_after hclose))

/-- How a candidate ends for the call, started where earlier ones failed and were closed. -/
inductive Outcome (g : ModelGateway) (request : ModelRequest) (m t : Meter) (alias_ : String)
    (binding : ModelBinding) (a : Attempt) : Prop
  /-- A failure that was closed, whether or not the next candidate may be tried. -/
  | failed (e : ProviderError) (u : Meter)
      (run : Returns (g.attempt request alias_ binding a) t (.error e) u) (closed : Failed m u)
      (safe : a.holds g m request binding → ¬ a.interrupted g binding)
      (moves : a.movesOn g m request binding ↔ e.fallbackAllowed = true)
  /-- The call ends here, and nothing is left open. -/
  | ended (u : Meter)
      (run : (∃ r, Returns (g.attempt request alias_ binding a) t (.ok r) u) ∨
        ∃ err, Raises (g.attempt request alias_ binding a) t err u)
      (closed : AllClosed m.nextId u)
      (safe : a.holds g m request binding → ¬ a.interrupted g binding)
      (stays : ¬ a.movesOn g m request binding)
  /-- The call ends here with its reservation open. -/
  | leftOpen (u : Meter) (err : Raised) (run : Raises (g.attempt request alias_ binding a) t err u)
      (open_ : ¬ AllClosed m.nextId u) (holds : a.holds g m request binding)
      (interrupted : a.interrupted g binding)

section Attempt

variable {err : Raised} (t)

-- the clock moves, and the reservation's transaction ends the attempt
theorem attempt_unreserved
    (h : Raises (cut a.reserving (reserve g.costGuard request binding)) { t with now := a.at_ } err u) :
    Raises (g.attempt request alias_ binding a) t err u :=
  raises_bind.mpr (.inr ⟨⟨⟩, _, returns_modify.mpr rfl, raises_bind.mpr (.inl h)⟩)

theorem attempt_answered {x : Except ProviderError ModelResponse} {s : Meter}
    (hr : Returns (cut a.reserving (reserve g.costGuard request binding)) { t with now := a.at_ }
      reservation s)
    (h : Returns (g.answered request alias_ binding a reservation) s x u) :
    Returns (g.attempt request alias_ binding a) t x u :=
  returns_bind.mpr ⟨⟨⟩, _, returns_modify.mpr rfl, returns_bind.mpr ⟨_, s, hr, h⟩⟩

theorem attempt_broken {s : Meter}
    (hr : Returns (cut a.reserving (reserve g.costGuard request binding)) { t with now := a.at_ }
      reservation s)
    (h : Raises (g.answered request alias_ binding a reservation) s err u) :
    Raises (g.attempt request alias_ binding a) t err u :=
  raises_bind.mpr (.inr ⟨⟨⟩, _, returns_modify.mpr rfl, raises_bind.mpr (.inr ⟨_, s, hr, h⟩)⟩)

end Attempt

/-- Nothing was held: the limits refused it, or it costs nothing. -/
theorem outcome_unheld (hf : Failed m t) (hm : m.Sound)
    (hlimit : firstExceeded g.costGuard { t with now := a.at_ } request
      (estimateCost request binding) ≠ none) :
    Outcome g request m t alias_ binding a := by
  obtain ⟨l, hl⟩ := Option.ne_none_iff_exists'.mp hlimit
  have hsame := hf.firstExceeded g.costGuard request (estimateCost request binding) a.at_
  have hnot : firstExceeded g.costGuard { m with now := a.at_ } request
      (estimateCost request binding) ≠ none := by
    rw [← hsame, hl]
    nofun
  have hsafe : a.holds g m request binding → ¬ a.interrupted g binding :=
    fun h => absurd h.2.2 hnot
  have hstays : ¬ a.movesOn g m request binding := fun h => hnot h.2.2.1
  let s : Meter := { t with now := a.at_ }
  have hrefused : ∃ err, Raises (reserve g.costGuard request binding) s err
      (s.refused g.costGuard request l (estimateCost request binding)) := reserve_refused hl
  obtain ⟨err, herr⟩ := hrefused
  obtain ⟨err', u, hu, hraise⟩ := cut_raised a.reserving herr
  -- neither state holds anything more
  have hrows : u.reservations = t.reservations := by
    rcases hu with rfl | rfl <;> rfl
  exact .ended u (.inr ⟨err', attempt_unreserved t hraise⟩) (hf.allClosed_of hm hrows) hsafe hstays

/-- What `reserve` hands on when no limit is passed: nothing, or the row it holds. -/
structure Reserved (request : ModelRequest) (binding : ModelBinding) (t : Meter)
    (reservation : Option Id) (s : Meter) : Prop where
  free : estimateCost request binding = 0 → reservation = none ∧ s = t
  held : estimateCost request binding ≠ 0 →
    reservation = some t.nextId ∧ s = t.held request (estimateCost request binding)

theorem reserve_reserved {guard : DbCostGuard}
    (h : firstExceeded guard t request (estimateCost request binding) = none) :
    ∃ reservation s, Returns (reserve guard request binding) t reservation s ∧
      Reserved request binding t reservation s := by
  by_cases hzero : estimateCost request binding = 0
  · exact ⟨none, t, reserve_free h hzero, fun _ => ⟨rfl, rfl⟩, fun hne => absurd hzero hne⟩
  · exact ⟨_, _, reserve_held h hzero, fun heq => absurd heq hzero, fun _ => ⟨rfl, rfl⟩⟩

-- what a failure leaves once it is closed
theorem Reserved.failed {s : Meter} (h : Reserved request binding t reservation s)
    (hf : Failed m t) (hm : m.Sound) :
    Failed m ((s.called (failedCall s request alias_ binding latencyMs e)).released
      reservation) := by
  by_cases hzero : estimateCost request binding = 0
  · obtain ⟨rfl, rfl⟩ := h.free hzero
    exact hf.called rfl rfl
  · obtain ⟨rfl, rfl⟩ := h.held hzero
    exact hf.released hm rfl rfl

theorem Reserved.settled {s : Meter} (h : Reserved request binding t reservation s)
    (hf : Failed m t) (hm : m.Sound) :
    AllClosed m.nextId ((s.called (okCall s request alias_ binding latencyMs cost r)).settled
      reservation cost s.nextId) := by
  by_cases hzero : estimateCost request binding = 0
  · obtain ⟨rfl, rfl⟩ := h.free hzero
    exact hf.allClosed_of hm rfl
  · obtain ⟨rfl, rfl⟩ := h.held hzero
    exact hf.settled hm rfl rfl

-- what is left when nothing closes it
theorem Reserved.left {s : Meter} (h : Reserved request binding t reservation s)
    (hf : Failed m t) (hm : m.Sound) :
    AllClosed m.nextId s ↔ estimateCost request binding = 0 := by
  by_cases hzero : estimateCost request binding = 0
  · obtain ⟨rfl, rfl⟩ := h.free hzero
    exact ⟨fun _ => hzero, fun _ => hf.allClosed_of hm rfl⟩
  · obtain ⟨rfl, rfl⟩ := h.held hzero
    exact ⟨fun hall => absurd hall hf.held_open, fun heq => absurd heq hzero⟩

/-- The call stops in `s`, with what it reserved still held. -/
theorem outcome_stopped {s : Meter} {err : Raised} (hf : Failed m t) (hm : m.Sound)
    (hlimit : firstExceeded g.costGuard { m with now := a.at_ } request
      (estimateCost request binding) = none)
    (hres : Reserved request binding { t with now := a.at_ } reservation s)
    (hrun : Raises (g.attempt request alias_ binding a) t err s)
    (hmade : a.reserving ≠ .beforeCommit) (hint : a.interrupted g binding)
    (hstays : ¬ a.movesOn g m request binding) : Outcome g request m t alias_ binding a := by
  have hleft := hres.left (hf.at_ a.at_) hm
  by_cases hzero : estimateCost request binding = 0
  · exact .ended s (.inr ⟨err, hrun⟩) (hleft.mpr hzero) (fun h => absurd hzero h.2.1) hstays
  · exact .leftOpen s err hrun (fun hall => hzero (hleft.mp hall)) ⟨hmade, hzero, hlimit⟩ hint

theorem outcome (hf : Failed m t) (hm : m.Sound) : Outcome g request m t alias_ binding a := by
  by_cases hlimit : firstExceeded g.costGuard { t with now := a.at_ } request
      (estimateCost request binding) = none
  case neg => exact outcome_unheld hf hm hlimit
  have hlimitm := hf.firstExceeded g.costGuard request (estimateCost request binding) a.at_
  rw [hlimit] at hlimitm
  obtain ⟨reservation, s, hreserve, hres⟩ := reserve_reserved hlimit
  cases hc : a.reserving with
  | beforeCommit =>
    have hraise : Raises (cut a.reserving (reserve g.costGuard request binding))
        { t with now := a.at_ } .cancelled { t with now := a.at_ } := by
      rw [hc]
      exact cut_before
    refine .ended { t with now := a.at_ } (.inr ⟨_, attempt_unreserved t hraise⟩)
      (hf.allClosed_of hm rfl) (fun h => absurd hc h.1) fun h => ?_
    cases hc.symm.trans h.1
  | afterCommit =>
    have hraise : Raises (cut a.reserving (reserve g.costGuard request binding))
        { t with now := a.at_ } .cancelled s := by
      rw [hc]
      exact cut_after hreserve
    refine outcome_stopped hf hm hlimitm.symm hres (attempt_unreserved t hraise) ?_ (.inl hc)
      fun h => ?_
    · rw [hc]
      nofun
    · cases hc.symm.trans h.1
  | none =>
    have hrun : Returns (cut a.reserving (reserve g.costGuard request binding))
        { t with now := a.at_ } reservation s := by
      rw [hc]
      exact hreserve
    by_cases hbroken : a.broken g binding
    case pos =>
      have hraise : ∃ err, Raises (g.answered request alias_ binding a reservation) s err s :=
        answered_broken hbroken
      obtain ⟨err, herr⟩ := hraise
      refine outcome_stopped hf hm hlimitm.symm hres (attempt_broken t hrun herr) ?_ (.inr hbroken)
        fun h => ?_
      · rw [hc]
        nofun
      · obtain ⟨-, hclosing, -, e, he, hrow, -⟩ := h
        simp [Attempt.broken, he, hrow, hclosing] at hbroken
    case neg =>
      have hsafe : a.holds g m request binding → ¬ a.interrupted g binding := by
        rintro - (hafter | hb)
        · rw [hc] at hafter
          cases hafter
        · exact hbroken hb
      cases ha : a.answer with
      | cancelled => exact absurd (by simp [Attempt.broken, ha]) hbroken
      | raises errorClass => exact absurd (by simp [Attempt.broken, ha]) hbroken
      | fails e =>
        have hok : e.recordable binding = true ∧ a.closing ≠ .beforeCommit := by
          simpa [Attempt.broken, ha] using hbroken
        have hclosed : Failed m ((s.called (failedCall s request alias_ binding a.latencyMs
            e)).released reservation) := hres.failed (hf.at_ a.at_) hm
        have hanswer := @answered_fails g request binding a s alias_ reservation e ha hok.1 hok.2
        rcases hanswer with ⟨hn, hret⟩ | ⟨hn, err, herr⟩
        · refine .failed e _ (attempt_answered t hrun hret) hclosed hsafe ⟨?_, fun hfall => ?_⟩
          · rintro ⟨-, -, -, e', he', -, hfall⟩
            rw [ha, Answer.fails.injEq] at he'
            rw [he']
            exact hfall
          · exact ⟨hc, hn, hlimitm.symm, e, ha, hok.1, hfall⟩
        · refine .ended _ (.inr ⟨err, attempt_broken t hrun herr⟩) (hclosed.allClosed hm) hsafe
            fun h => ?_
          cases hn.symm.trans h.2.1
      | reply r =>
        have hok : payable (g.replyCost binding r) = true ∧ r.recordable binding = true ∧
            a.closing ≠ .beforeCommit := by
          simpa [Attempt.broken, ha, not_or] using hbroken
        have hclosed : AllClosed m.nextId ((s.called (okCall s request alias_ binding a.latencyMs
            (g.replyCost binding r) r)).settled reservation (g.replyCost binding r) s.nextId) :=
          hres.settled (hf.at_ a.at_) hm
        have hstays : ¬ a.movesOn g m request binding := by
          rintro ⟨-, -, -, e, he, -⟩
          rw [ha] at he
          cases he
        have hanswer := @answered_reply g request binding a s alias_ reservation r ha hok.1 hok.2.1
          hok.2.2
        rcases hanswer with ⟨response, hret⟩ | ⟨err, herr⟩
        · exact .ended _ (.inl ⟨response, attempt_answered t hrun hret⟩) hclosed hsafe hstays
        · exact .ended _ (.inr ⟨err, attempt_broken t hrun herr⟩) hclosed hsafe hstays

/-! The candidates, one after the other. -/

theorem candidates_closed (hm : m.Sound) (rest : List (String × Attempt)) :
    ∀ (t : Meter) (failures : List (String × ProviderError)) (u : Meter), Failed m t →
      Leaves (g.candidates request rest failures) t u →
      (AllClosed m.nextId u ↔ Undisturbed g request m rest) := by
  induction rest with
  | nil =>
    intro t failures u hf hrun
    have hu : u = t := Leaves.of_raises (raises_raise.mpr ⟨rfl, rfl⟩) hrun
    rw [hu]
    exact ⟨fun _ => trivial, fun _ => hf.allClosed hm⟩
  | cons c rest ih =>
    obtain ⟨alias_, a⟩ := c
    intro t failures u hf hrun
    unfold ModelGateway.candidates at hrun
    cases hbinding : g.router.aliases.lookup alias_ with
    | none =>
      have hu : u = t :=
        Leaves.raised (raises_found.mpr ⟨hbinding, rfl, rfl⟩) hrun
      rw [hu]
      refine ⟨fun _ binding hb => ?_, fun _ => hf.allClosed hm⟩
      cases hbinding.symm.trans hb
    | some binding =>
      have hrun := Leaves.after (returns_found.mpr ⟨hbinding, rfl⟩) hrun
      by_cases hinstalled : binding.provider ∈ g.providers
      case neg =>
        have hu : u = t := Leaves.raised (raises_ensure.mpr ⟨hinstalled, rfl, rfl⟩) hrun
        rw [hu]
        refine ⟨fun _ b hb hin => ?_, fun _ => hf.allClosed hm⟩
        have hsame : b = binding := Option.some.inj (hb.symm.trans hbinding)
        rw [hsame] at hin
        exact absurd hin hinstalled
      have hrun := Leaves.after ((returns_ensure (a := ⟨⟩)).mpr ⟨hinstalled, rfl⟩) hrun
      -- what the candidate's own clause says, for the one binding it has
      have hclause : Undisturbed g request m ((alias_, a) :: rest) ↔
          (a.holds g m request binding → ¬ a.interrupted g binding) ∧
          (a.movesOn g m request binding → Undisturbed g request m rest) := by
        refine ⟨fun h => h binding hbinding hinstalled, fun h b hb _ => ?_⟩
        have hsame : b = binding := Option.some.inj (hb.symm.trans hbinding)
        rw [hsame]
        exact h
      rw [hclause]
      have houtcome : Outcome g request m t alias_ binding a := outcome hf hm
      cases houtcome with
      | failed e v hret hclosed hsafe hmoves =>
        have hrun := Leaves.after hret hrun
        by_cases hfall : e.fallbackAllowed = true
        · simp only [hfall, if_true] at hrun
          have hrest := ih v _ u hclosed hrun
          exact ⟨fun h => ⟨hsafe, fun _ => hrest.mp h⟩, fun h => hrest.mpr (h.2 (hmoves.mpr hfall))⟩
        · simp only [hfall] at hrun
          have hu : u = v := Leaves.of_raises (raises_raise.mpr ⟨rfl, rfl⟩) hrun
          rw [hu]
          exact ⟨fun _ => ⟨hsafe, fun h => absurd (hmoves.mp h) hfall⟩,
            fun _ => hclosed.allClosed hm⟩
      | ended v hends hclosed hsafe hstays =>
        have hu : u = v := by
          rcases hends with ⟨r, hret⟩ | ⟨err, hraise⟩
          · have hrun := Leaves.after hret hrun
            exact Leaves.of_returns (returns_pure.mpr ⟨rfl, rfl⟩) hrun
          · exact Leaves.raised hraise hrun
        rw [hu]
        exact ⟨fun _ => ⟨hsafe, fun h => absurd h hstays⟩, fun _ => hclosed⟩
      | leftOpen v err hraise hopen hholds hint =>
        have hu : u = v := Leaves.raised hraise hrun
        rw [hu]
        exact ⟨fun h => absurd h hopen, fun h => absurd hint (h.1 hholds)⟩

/-- When a model call ends, every reservation it made is settled or released if and only if
nobody was interrupted while holding one. -/
theorem reservations_closed (hm : m.Sound) (attempts : Nat → Attempt)
    (hrun : Leaves (g.complete request attempts) m u) :
    AllClosed m.nextId u ↔
      ∀ alias_, g.router.resolve request.context.role request.capability = some alias_ →
        Undisturbed g request m (g.tries alias_ attempts) := by
  unfold ModelGateway.complete at hrun
  cases hroute : g.router.resolve request.context.role request.capability with
  | none =>
    have hu : u = m := Leaves.raised (raises_found.mpr ⟨hroute, rfl, rfl⟩) hrun
    rw [hu]
    refine ⟨fun _ other hother => ?_, fun _ => (Failed.refl m).allClosed hm⟩
    cases hother
  | some alias_ =>
    have hrun := Leaves.after (returns_found.mpr ⟨hroute, rfl⟩) hrun
    rw [candidates_closed hm _ m [] u (Failed.refl m) hrun]
    refine ⟨fun h other hother => ?_, fun h => h alias_ rfl⟩
    cases hother
    exact h

-- one alias, served by one provider, with no limits set
def soloBinding : ModelBinding where
  provider := "main"
  modelId := lit "m"
  price := { input := 1, output := 1 }

def soloGateway : ModelGateway where
  router := {
    aliases := [("writer", soloBinding)]
    routes := [("*.*", "writer")]
    fallbacks := []
    prices := [] }
  providers := ["main"]
  costGuard := { reservationTtl := 0, metered := Budget.amount, dailyCapUsd := none }

def soloRequest : ModelRequest where
  capability := "draft"
  context := {
    companyId := 0, role := "writer", projectId := none, agentId := none, runId := none,
    taskId := none, workflowRunId := none, cycleId := none }
  chars := 0
  maxOutputTokens := 1000000
  outputModel := none

def emptyMeter : Meter where
  now := 0
  nextId := 0
  calls := []
  reservations := []
  budgets := []
  perRun := fun _ => none
  taskBudget := fun _ => none
  openCycle := fun _ => none
  exhausted := []

theorem emptyMeter_sound : emptyMeter.Sound := by
  constructor <;> intro _ h <;> cases h

theorem soloRequest_holds {a : Attempt} (h : a.reserving = .none) :
    a.holds soloGateway emptyMeter soloRequest soloBinding := by
  have hcost : estimateCost soloRequest soloBinding = 1 := by
    norm_num [estimateCost, Price.cost, toMicros, soloRequest, soloBinding]
  refine ⟨?_, ?_, rfl⟩
  · rw [h]
    nofun
  · rw [hcost]
    exact one_ne_zero

-- the reply comes, and is recorded
theorem reservations_closed_reply :
    ∃ u, Leaves (soloGateway.complete soloRequest fun _ =>
        ⟨0, .none, .reply ⟨[], .endTurn, {}, lit "m"⟩, 0, .none⟩) emptyMeter u ∧
      AllClosed emptyMeter.nextId u := by
  obtain ⟨u, hu⟩ := exists_leaves (soloGateway.complete soloRequest fun _ =>
    ⟨0, .none, .reply ⟨[], .endTurn, {}, lit "m"⟩, 0, .none⟩) emptyMeter
  refine ⟨u, hu, (reservations_closed emptyMeter_sound _ hu).mpr fun alias_ h => ?_⟩
  cases h
  intro binding hb _
  cases hb
  refine ⟨fun _ hint => ?_, fun _ => trivial⟩
  rcases hint with hcut | hbroken
  · cases hcut
  · have hpay : payable (soloGateway.replyCost soloBinding ⟨[], .endTurn, {}, lit "m"⟩) = true := by
      norm_num [payable, ModelGateway.replyCost, ModelRouter.priceFor, soloGateway, soloBinding,
        Price.cost, toMicros]
    rcases hbroken with h | h | h
    · cases hpay.symm.trans h
    · cases h
    · cases h

/-- The caller is cancelled while the provider is awaited. -/
theorem reservation_left_open :
    ∃ u, Leaves (soloGateway.complete soloRequest fun _ => ⟨0, .none, .cancelled, 0, .none⟩)
        emptyMeter u ∧
      ¬ AllClosed emptyMeter.nextId u := by
  obtain ⟨u, hu⟩ := exists_leaves
    (soloGateway.complete soloRequest fun _ => ⟨0, .none, .cancelled, 0, .none⟩) emptyMeter
  refine ⟨u, hu, fun hall => ?_⟩
  have hrun := Leaves.after (returns_found.mpr ⟨(rfl : _ = some "writer"), rfl⟩) hu
  have hkept := (candidates_closed emptyMeter_sound _ _ _ u (Failed.refl _) hrun).mp hall
  have hsafe := (hkept soloBinding rfl (List.mem_singleton.mpr rfl)).1
  exact hsafe (soloRequest_holds rfl) (.inr trivial)

end Autora.Models
