import Autora.Standings

/-! What holds between the statements of calls made at once: a call that has checked a limit
holds the lock of everyone who could add to it, so the check still stands when it commits. -/

namespace Autora.Models

open Transactions Refusals Systems

variable {g : ModelGateway} {keys : Keys} {guard : DbCostGuard} {m : Meter} {ctx ctx' : CallContext}

/-! ## The invariant -/

/-- What is held for the provider's answer. -/
def Stage.holds : Stage → Option (Option Id)
  | .holding reservation => some reservation
  | .closing reservation _ => some reservation
  | _ => none

/-- The row that holds a call's amount. -/
structure CostReservation.For (r : CostReservation) (c : Caller) : Prop where
  open_ : r.isOpen = true
  amount : r.amount = c.amount
  company : r.companyId = c.company
  project : r.projectId = c.request.context.projectId
  task : r.taskId = c.request.context.taskId
  run : r.runId = c.request.context.runId

def Caller.Holds (m : Meter) (c : Caller) : Option Id → Prop
  | none => c.amount = 0
  | some id => ∃ r ∈ m.reservations, r.id = id ∧ r.For c

/-- The limits were read when no window was later than it is now. -/
def Caller.ReadAt (guard : DbCostGuard) (m : Meter) (c : Caller) (cycleStart : Option Time) :
    Prop :=
  ∀ l ∈ standing guard m c.request.context,
    l.start c.began cycleStart ≤ l.start m.now (m.openCycle c.company)

def Caller.Listed (guard : DbCostGuard) (m : Meter) (c : Caller) (todo : List Limit) : Prop :=
  ∃ cycleStart, c.ReadAt guard m cycleStart ∧
    ∀ l ∈ standing guard m c.request.context, l.at_ c.began cycleStart ∈ todo

/-- Each limit of the call is still to be checked, or has room for it. -/
def Caller.Checked (guard : DbCostGuard) (m : Meter) (c : Caller) (todo : List Limit) : Prop :=
  ∃ cycleStart, c.ReadAt guard m cycleStart ∧ ∀ l ∈ standing guard m c.request.context,
    l.at_ c.began cycleStart ∈ todo ∨ used guard m c.request.context l + c.amount ≤ l.amount

/-- What holds of a call at each stage. -/
def Caller.AtStage (g : ModelGateway) (keys : Keys) (s : Traffic) (i : Id) (c : Caller) :
    Stage → Prop
  | .asking | .waiting => True
  | .locked => s.locks (keys.company c.company) = some i
  | .listed todo =>
    s.locks (keys.company c.company) = some i ∧ c.Listed g.costGuard s.meter todo
  | .checking todo =>
    s.locks (keys.company c.company) = some i ∧
    (g.costGuard.capped = true → s.locks keys.daily = some i) ∧ c.Checked g.costGuard s.meter todo
  | .summed l todo x =>
    s.locks (keys.company c.company) = some i ∧
    (g.costGuard.capped = true → s.locks keys.daily = some i) ∧
    c.Checked g.costGuard s.meter (l :: todo) ∧ recorded s.meter c.company l ≤ x
  | .holding reservation => c.Holds s.meter reservation
  | .closing reservation _ => c.Holds s.meter reservation

structure Caller.Ok (g : ModelGateway) (keys : Keys) (agentOf : Id → Option Id) (s : Traffic)
    (i : Id) (c : Caller) : Prop where
  proper : Proper agentOf c.request.context
  amount : 0 ≤ c.amount
  began : c.began ≤ s.meter.now
  stage : c.AtStage g keys s i c.stage

structure Within (g : ModelGateway) (keys : Keys) (agentOf : Id → Option Id) (s : Traffic) :
    Prop where
  rows : s.meter.Kept
  callers : ∀ i c, s.callers i = some c → c.Ok g keys agentOf s i
  /-- No two calls hold one reservation. -/
  apart : ∀ i j c d id, s.callers i = some c → s.callers j = some d →
    c.stage.holds = some (some id) → d.stage.holds = some (some id) → i = j
  kept : ∀ ctx, Proper agentOf ctx → ∀ l ∈ standing g.costGuard s.meter ctx,
    used g.costGuard s.meter ctx l ≤ l.amount

section Keeping

variable {agentOf : Id → Option Id} {s s' : Traffic} {i : Id} {c : Caller}

theorem Caller.ReadAt.mono {m' : Meter} {cycleStart : Option Time}
    (h : c.ReadAt guard m cycleStart)
    (hstanding : standing guard m' c.request.context = standing guard m c.request.context)
    (hstart : ∀ l ∈ standing guard m c.request.context,
      l.start m.now (m.openCycle c.company) ≤ l.start m'.now (m'.openCycle c.company)) :
    c.ReadAt guard m' cycleStart := by
  intro l hl
  rw [hstanding] at hl
  exact (h l hl).trans (hstart l hl)

theorem Caller.Checked.mono {m' : Meter} {todo : List Limit} (h : c.Checked guard m todo)
    (hstanding : standing guard m' c.request.context = standing guard m c.request.context)
    (hstart : ∀ l ∈ standing guard m c.request.context,
      l.start m.now (m.openCycle c.company) ≤ l.start m'.now (m'.openCycle c.company))
    (hused : ∀ l ∈ standing guard m c.request.context,
      used guard m' c.request.context l ≤ used guard m c.request.context l) :
    c.Checked guard m' todo := by
  obtain ⟨cycleStart, hread, hroom⟩ := h
  refine ⟨cycleStart, hread.mono hstanding hstart, fun l hl => ?_⟩
  rw [hstanding] at hl
  refine (hroom l hl).imp_right fun hroom => ?_
  exact (add_le_add_left (hused l hl) c.amount).trans hroom

/-- Whether the limits are being checked. -/
def Stage.checks : Stage → Bool
  | .checking _ | .summed _ _ _ => true
  | _ => false

/-- A call is not disturbed by what others do, as long as they leave its locks and its
reservation alone and add nothing to the limits it is checking. -/
theorem Caller.Ok.mono (h : c.Ok g keys agentOf s i) (hnow : s.meter.now ≤ s'.meter.now)
    (hlocks : ∀ k, s.locks k = some i → s'.locks k = some i)
    (hstanding : standing g.costGuard s'.meter c.request.context =
      standing g.costGuard s.meter c.request.context)
    (hstart : ∀ l ∈ standing g.costGuard s.meter c.request.context,
      l.start s.meter.now (s.meter.openCycle c.company) ≤
        l.start s'.meter.now (s'.meter.openCycle c.company))
    (hused : c.stage.checks = true → ∀ l ∈ standing g.costGuard s.meter c.request.context,
      used g.costGuard s'.meter c.request.context l ≤ used g.costGuard s.meter c.request.context l)
    (hrecorded : ∀ l todo x, c.stage = .summed l todo x →
      recorded s'.meter c.company l ≤ recorded s.meter c.company l)
    (hholds : ∀ id, c.stage.holds = some (some id) → c.Holds s.meter (some id) →
      c.Holds s'.meter (some id)) :
    c.Ok g keys agentOf s' i := by
  refine ⟨h.proper, h.amount, h.began.trans hnow, ?_⟩
  have hstage := h.stage
  cases hs : c.stage with
  | asking => trivial
  | waiting => trivial
  | locked =>
    rw [hs] at hstage
    exact hlocks _ hstage
  | listed todo =>
    rw [hs] at hstage
    obtain ⟨hlock, cycleStart, hread, hall⟩ := hstage
    refine ⟨hlocks _ hlock, cycleStart, hread.mono hstanding hstart, fun l hl => ?_⟩
    rw [hstanding] at hl
    exact hall l hl
  | checking todo =>
    rw [hs] at hstage hused
    obtain ⟨hlock, hdaily, hchecked⟩ := hstage
    exact ⟨hlocks _ hlock, fun hcap => hlocks _ (hdaily hcap),
      hchecked.mono hstanding hstart (hused rfl)⟩
  | summed l todo x =>
    rw [hs] at hstage hused
    obtain ⟨hlock, hdaily, hchecked, hsum⟩ := hstage
    exact ⟨hlocks _ hlock, fun hcap => hlocks _ (hdaily hcap),
      hchecked.mono hstanding hstart (hused rfl), (hrecorded l todo x hs).trans hsum⟩
  | holding reservation =>
    rw [hs] at hstage hholds
    cases reservation with
    | none => exact hstage
    | some id => exact hholds id rfl hstage
  | closing reservation reply =>
    rw [hs] at hstage hholds
    cases reservation with
    | none => exact hstage
    | some id => exact hholds id rfl hstage

/-- One call moves; the rows stay. -/
theorem Within.moved {o : Option Caller} {e : List BudgetExhausted} (h : Within g keys agentOf s)
    (hmeter : s'.meter = { s.meter with exhausted := e })
    (hcallers : s'.callers = Function.update s.callers i o)
    (hlocks : ∀ k j, j ≠ i → s.locks k = some j → s'.locks k = some j)
    (hnew : ∀ c', o = some c' → c'.Ok g keys agentOf s' i)
    (hheld : ∀ c' id, o = some c' → c'.stage.holds = some (some id) →
      ∃ c, s.callers i = some c ∧ c.stage.holds = some (some id)) :
    Within g keys agentOf s' := by
  have hback : ∀ j d id, s'.callers j = some d → d.stage.holds = some (some id) →
      ∃ d', s.callers j = some d' ∧ d'.stage.holds = some (some id) := by
    intro j d id hd hid
    rw [hcallers] at hd
    by_cases hj : j = i
    · subst hj
      rw [Function.update_self] at hd
      exact hheld d id hd hid
    · rw [Function.update_of_ne hj] at hd
      exact ⟨d, hd, hid⟩
  refine ⟨?_, fun j d hd => ?_, fun j j' d d' id hd hd' hid hid' => ?_, fun ctx hp l hl => ?_⟩
  · rw [hmeter]
    exact ⟨h.rows.costs, h.rows.amounts, h.rows.fresh, h.rows.ids⟩
  · rw [hcallers] at hd
    by_cases hj : j = i
    · subst hj
      rw [Function.update_self] at hd
      exact hnew d hd
    · rw [Function.update_of_ne hj] at hd
      refine (h.callers j d hd).mono ?_ (fun k hk => hlocks k j hj hk) ?_ ?_ ?_ ?_ ?_
      all_goals rw [hmeter]
      · rfl
      · exact fun l _ => le_rfl
      · exact fun _ l _ => le_rfl
      · exact fun l todo x _ => le_rfl
      · exact fun id _ hd => hd
  · obtain ⟨c, hc, hcid⟩ := hback j d id hd hid
    obtain ⟨c', hc', hcid'⟩ := hback j' d' id hd' hid'
    exact h.apart j j' c c' id hc hc' hcid hcid'
  · rw [hmeter] at hl ⊢
    exact h.kept ctx hp l hl

/-- Time passes, or a cycle opens or closes: no window goes back. -/
theorem Within.passed (h : Within g keys agentOf s) (hcallers : s'.callers = s.callers)
    (hlocks : s'.locks = s.locks) (hcalls : s'.meter.calls = s.meter.calls)
    (hreservations : s'.meter.reservations = s.meter.reservations)
    (hnext : s'.meter.nextId = s.meter.nextId)
    (hstanding : ∀ ctx, standing g.costGuard s'.meter ctx = standing g.costGuard s.meter ctx)
    (hnow : s.meter.now ≤ s'.meter.now)
    (hstart : ∀ ctx, ∀ l ∈ standing g.costGuard s.meter ctx,
      l.start s.meter.now (s.meter.openCycle ctx.companyId) ≤
        l.start s'.meter.now (s'.meter.openCycle ctx.companyId)) :
    Within g keys agentOf s' := by
  have hused : ∀ ctx, ∀ l ∈ standing g.costGuard s.meter ctx,
      used g.costGuard s'.meter ctx l ≤ used g.costGuard s.meter ctx l := by
    intro ctx l hl
    have hrecorded : recorded s.meter ctx.companyId
        (l.at_ s'.meter.now (s'.meter.openCycle ctx.companyId)) ≤ recorded s.meter ctx.companyId
        (l.at_ s.meter.now (s.meter.openCycle ctx.companyId)) := recorded_le h.rows (hstart ctx l hl)
    have hinFlight : inFlight g.costGuard s.meter s'.meter.now ctx.companyId
        (l.at_ s'.meter.now (s'.meter.openCycle ctx.companyId)) ≤
        inFlight g.costGuard s.meter s.meter.now ctx.companyId
        (l.at_ s.meter.now (s.meter.openCycle ctx.companyId)) :=
      inFlight_le h.rows hnow (hstart ctx l hl)
    have hsplit : used g.costGuard s'.meter ctx l =
        recorded s.meter ctx.companyId
            (l.at_ s'.meter.now (s'.meter.openCycle ctx.companyId)) +
          inFlight g.costGuard s.meter s'.meter.now ctx.companyId
            (l.at_ s'.meter.now (s'.meter.openCycle ctx.companyId)) := by
      simp only [used, spent_eq, recorded, inFlight, hcalls, hreservations]
    rw [hsplit]
    exact add_le_add hrecorded hinFlight
  refine ⟨⟨?_, ?_, ?_, ?_⟩, fun j d hd => ?_, fun j j' d d' id hd hd' => ?_, fun ctx hp l hl => ?_⟩
  · rw [hcalls]
    exact h.rows.costs
  · rw [hreservations]
    exact h.rows.amounts
  · rw [hreservations, hnext]
    exact h.rows.fresh
  · rw [hreservations]
    exact h.rows.ids
  · rw [hcallers] at hd
    refine (h.callers j d hd).mono hnow (fun k hk => hlocks ▸ hk) (hstanding _) (hstart _)
      (fun _ => hused _) (fun l todo x _ => ?_) fun id _ hheld => ?_
    · simp only [recorded, hcalls]
      exact le_rfl
    · obtain ⟨r, hr, hrow⟩ := hheld
      exact ⟨r, hreservations ▸ hr, hrow⟩
  · rw [hcallers] at hd hd'
    exact h.apart j j' d d' id hd hd'
  · rw [hstanding] at hl
    exact (hused ctx l hl).trans (h.kept ctx hp l hl)

theorem Caller.Ok.holds {reservation : Option Id} (h : c.Ok g keys agentOf s i)
    (hstage : c.stage.holds = some reservation) : c.Holds s.meter reservation := by
  have hat := h.stage
  cases hs : c.stage <;> rw [hs] at hat hstage <;> cases hstage <;> exact hat

theorem Caller.Ok.holds_lt {id : Id} (h : c.Ok g keys agentOf s i) (hm : s.meter.Kept)
    (hstage : c.stage.holds = some (some id)) : id < s.meter.nextId := by
  obtain ⟨r, hr, rfl, -⟩ := h.holds hstage
  exact hm.fresh r hr

/-! ## Closing a call -/

/-- An answer is recorded in time for its reservation to count, in the windows the reservation
counts in, and not between the two sums of a limit that counts it. -/
structure Settles (g : ModelGateway) (s : Traffic) (c : Caller) (reservation : Option Id) :
    Prop where
  held : ∀ id, reservation = some id → ∀ r ∈ s.meter.reservations, r.id = id →
    s.meter.now ≤ r.createdAt + g.costGuard.reservationTtl ∧
    ∀ l ∈ limits g.costGuard s.meter c.request,
      l.windowStart.all (· ≤ c.opened) = true → l.windowStart.all (· ≤ r.createdAt) = true
  apart : ∀ j d l todo x, s.callers j = some d → d.stage = .summed l todo x →
    l.scoped d.company c.company c.request.context.projectId c.request.context.taskId
      c.request.context.runId c.opened = false

/-- The rows of a call that is closed. -/
structure Closed (g : ModelGateway) (s s' : Traffic) (c : Caller) (reservation : Option Id)
    (row : ModelCall) (f : CostReservation → CostReservation) : Prop where
  calls : s'.meter.calls = s.meter.calls ++ [row]
  reservations : s'.meter.reservations = match reservation with
    | none => s.meter.reservations
    | some id => s.meter.reservations.map fun r => if r.id = id then f r else r
  closes : ∀ r, (f r).isOpen = false
  sameId : ∀ r, (f r).id = r.id
  sameAmount : ∀ r, (f r).amount = r.amount
  now : s'.meter.now = s.meter.now
  next : s.meter.nextId ≤ s'.meter.nextId
  openCycle : s'.meter.openCycle = s.meter.openCycle
  budgets : s'.meter.budgets = s.meter.budgets
  perRun : s'.meter.perRun = s.meter.perRun
  taskBudget : s'.meter.taskBudget = s.meter.taskBudget
  context : row.context = c.request.context
  createdAt : row.createdAt = c.opened
  cost : 0 ≤ row.costUsd
  paid : row.status = .ok → row.costUsd ≤ c.amount ∧ Settles g s c reservation

namespace Closed

variable {reservation : Option Id} {row : ModelCall} {f : CostReservation → CostReservation}
  {company : Id}

theorem standing_eq (hx : Closed g s s' c reservation row f) (ctx : CallContext) :
    standing guard s'.meter ctx = standing guard s.meter ctx := by
  simp only [standing, hx.budgets, hx.perRun, hx.taskBudget]

theorem recorded_eq (hx : Closed g s s' c reservation row f) (l : Limit) :
    recorded s'.meter company l = recorded s.meter company l +
      if row.status = .ok && l.scoped company c.company c.request.context.projectId
        c.request.context.taskId c.request.context.runId c.opened then row.costUsd else 0 := by
  simp only [recorded, hx.calls, Totals.total_snoc, hx.context, hx.createdAt]

/-- What was held for the call is held no more. -/
theorem inFlight_add (hx : Closed g s s' c reservation row f) (hm : s.meter.Kept)
    {r : CostReservation} (hr : r ∈ s.meter.reservations) (hid : reservation = some r.id)
    (now : Time) (l : Limit) :
    inFlight guard s'.meter now company l +
      (if r.isOpen && now ≤ r.createdAt + guard.reservationTtl &&
        l.scoped company r.companyId r.projectId r.taskId r.runId r.createdAt
      then r.amount else 0) =
      inFlight guard s.meter now company l := by
  have hrows := hx.reservations
  rw [hid] at hrows
  simp only [inFlight, hrows]
  exact Totals.total_dropped hm.ids hr (by simp [hx.closes])

theorem inFlight_le (hx : Closed g s s' c reservation row f) (hm : s.meter.Kept)
    (hholds : c.Holds s.meter reservation) (now : Time) (l : Limit) :
    inFlight guard s'.meter now company l ≤ inFlight guard s.meter now company l := by
  cases hres : reservation with
  | none =>
    have hrows := hx.reservations
    rw [hres] at hrows
    simp only [inFlight, hrows]
    exact le_rfl
  | some id =>
    rw [hres] at hholds
    obtain ⟨r, hr, rfl, -⟩ := hholds
    rw [← hx.inFlight_add hm hr hres]
    refine le_add_of_nonneg_right ?_
    split
    · exact hm.amounts r hr
    · exact le_rfl

theorem inFlight_paid (hx : Closed g s s' c reservation row f) (hm : s.meter.Kept)
    (hholds : c.Holds s.meter reservation) (hpaid : row.costUsd ≤ c.amount) {now : Time} {l : Limit}
    (hcounts : ∀ id, reservation = some id → ∀ r ∈ s.meter.reservations, r.id = id → r.For c →
      now ≤ r.createdAt + guard.reservationTtl ∧
      l.scoped company r.companyId r.projectId r.taskId r.runId r.createdAt = true) :
    row.costUsd + inFlight guard s'.meter now company l ≤
      inFlight guard s.meter now company l := by
  cases hres : reservation with
  | none =>
    rw [hres] at hholds
    have hzero : row.costUsd ≤ 0 := hpaid.trans_eq hholds
    have hle : inFlight guard s'.meter now company l ≤ inFlight guard s.meter now company l :=
      hx.inFlight_le hm (hres ▸ hholds) now l
    exact (add_le_add hzero hle).trans_eq (zero_add _)
  | some id =>
    rw [hres] at hholds
    obtain ⟨r, hr, rfl, hfor⟩ := hholds
    obtain ⟨htime, hscoped⟩ := hcounts _ hres r hr rfl hfor
    rw [← hx.inFlight_add hm hr hres, if_pos (by simp [hfor.open_, htime, hscoped]), add_comm]
    exact add_le_add_right (hpaid.trans_eq hfor.amount.symm) _

/-- Closing a call never adds to what a limit counts. -/
theorem used_le {ctx : CallContext} (hx : Closed g s s' c reservation row f) (hm : s.meter.Kept)
    (hholds : c.Holds s.meter reservation) (hp : Proper agentOf ctx)
    (hpc : Proper agentOf c.request.context) {l : Standing}
    (hl : l ∈ standing g.costGuard s.meter ctx) :
    used g.costGuard s'.meter ctx l ≤ used g.costGuard s.meter ctx l := by
  have hused : used g.costGuard s'.meter ctx l =
      recorded s'.meter ctx.companyId (l.at_ s.meter.now (s.meter.openCycle ctx.companyId)) +
      inFlight g.costGuard s'.meter s.meter.now ctx.companyId
        (l.at_ s.meter.now (s.meter.openCycle ctx.companyId)) := by
    simp only [used, spent_eq, hx.now, hx.openCycle]
  rw [hused, hx.recorded_eq, add_assoc]
  refine add_le_add (le_refl (recorded _ _ _)) ?_
  split
  · next hrow =>
    simp only [scoped_at, Bool.and_eq_true, decide_eq_true_eq] at hrow
    obtain ⟨hok, hcounts, hreached⟩ := hrow
    obtain ⟨hcost, hsettles⟩ := hx.paid hok
    have hown : l ∈ standing g.costGuard s.meter c.request.context :=
      standing_of_counts hp hpc hl hcounts
    have hstart : l.start s.meter.now (s.meter.openCycle ctx.companyId) =
        l.start s.meter.now (s.meter.openCycle c.company) := start_of_counts hl hcounts
    refine hx.inFlight_paid hm hholds hcost fun id hid r hr hrid hfor => ?_
    obtain ⟨htime, hwindows⟩ := hsettles.held id hid r hr hrid
    have hmem : l.at_ s.meter.now (s.meter.openCycle c.company) ∈
        limits g.costGuard s.meter c.request := by
      rw [limits_eq]
      exact List.mem_map_of_mem hown
    have hwindow := hwindows _ hmem
    simp only [windowStart_at, decide_eq_true_eq] at hwindow
    refine ⟨htime, ?_⟩
    simp only [scoped_at, hfor.company, hfor.project, hfor.task, hfor.run, Bool.and_eq_true,
      decide_eq_true_eq]
    exact ⟨hcounts, hstart ▸ hwindow (hstart ▸ hreached)⟩
  · rw [zero_add]
    exact hx.inFlight_le hm hholds _ _

-- the rows kept for others stay as they are
theorem holds_other {d : Caller} {id : Id} (hx : Closed g s s' c reservation row f)
    (hne : reservation ≠ some id) (h : d.Holds s.meter (some id)) : d.Holds s'.meter (some id) := by
  obtain ⟨r, hr, hid, hfor⟩ := h
  refine ⟨r, ?_, hid, hfor⟩
  have hrows := hx.reservations
  cases hres : reservation with
  | none =>
    rw [hres] at hrows
    rw [hrows]
    exact hr
  | some other =>
    rw [hres] at hrows hne
    rw [hrows]
    have hother : r.id ≠ other := fun heq => hne (by rw [← heq, hid])
    exact List.mem_map.mpr ⟨r, hr, if_neg hother⟩

theorem kept (hx : Closed g s s' c reservation row f) (hm : s.meter.Kept) : s'.meter.Kept := by
  -- each row keeps its id and its amount
  have hback : ∀ r ∈ s'.meter.reservations, ∃ r' ∈ s.meter.reservations,
      r.id = r'.id ∧ r.amount = r'.amount := by
    intro r hr
    have hrows := hx.reservations
    cases hres : reservation with
    | none =>
      rw [hres] at hrows
      rw [hrows] at hr
      exact ⟨r, hr, rfl, rfl⟩
    | some id =>
      rw [hres] at hrows
      rw [hrows] at hr
      obtain ⟨r', hr', rfl⟩ := List.mem_map.mp hr
      refine ⟨r', hr', ?_, ?_⟩
      · split
        · exact hx.sameId r'
        · rfl
      · split
        · exact hx.sameAmount r'
        · rfl
  have hids : s'.meter.reservations.map (·.id) = s.meter.reservations.map (·.id) := by
    have hrows := hx.reservations
    cases hres : reservation with
    | none =>
      rw [hres] at hrows
      rw [hrows]
    | some id =>
      rw [hres] at hrows
      rw [hrows, List.map_map]
      refine List.map_congr_left fun r _ => ?_
      simp only [Function.comp_apply]
      split
      · exact hx.sameId r
      · rfl
  refine ⟨fun call hcall => ?_, fun r hr => ?_, fun r hr => ?_, hids ▸ hm.ids⟩
  · rw [hx.calls] at hcall
    rcases List.mem_append.mp hcall with hold | hnew
    · exact hm.costs call hold
    · rw [List.mem_singleton.mp hnew]
      exact hx.cost
  · obtain ⟨r', hr', -, hamount⟩ := hback r hr
    exact (hm.amounts r' hr').trans_eq hamount.symm
  · obtain ⟨r', hr', hid, -⟩ := hback r hr
    rw [hid]
    exact (hm.fresh r' hr').trans_le hx.next

end Closed

theorem Within.closed {reservation : Option Id} {row : ModelCall}
    {f : CostReservation → CostReservation} (h : Within g keys agentOf s)
    (hc : s.callers i = some c) (hstage : c.stage.holds = some reservation)
    (hx : Closed g s s' c reservation row f)
    (hcallers : s'.callers = Function.update s.callers i none)
    (hlocks : ∀ k j, j ≠ i → s.locks k = some j → s'.locks k = some j) :
    Within g keys agentOf s' := by
  have hok := h.callers i c hc
  have hholds : c.Holds s.meter reservation := hok.holds hstage
  have hother : ∀ j d, s'.callers j = some d → j ≠ i ∧ s.callers j = some d := by
    intro j d hd
    rw [hcallers] at hd
    by_cases hj : j = i
    · subst hj
      simp at hd
    · rw [Function.update_of_ne hj] at hd
      exact ⟨hj, hd⟩
  have hstart : ∀ (company : Id) (l : Standing),
      l.start s.meter.now (s.meter.openCycle company) ≤
        l.start s'.meter.now (s'.meter.openCycle company) := by
    intro company l
    rw [hx.now, hx.openCycle]
  refine ⟨hx.kept h.rows, fun j d hd => ?_, fun j j' d d' id hd hd' => ?_, fun ctx hp l hl => ?_⟩
  · obtain ⟨hj, hd⟩ := hother j d hd
    have hdok := h.callers j d hd
    refine hdok.mono hx.now.ge (fun k hk => hlocks k j hj hk) (hx.standing_eq _)
      (fun l _ => hstart _ l) (fun _ l hl => hx.used_le h.rows hholds hdok.proper hok.proper hl)
      (fun l todo x hsummed => ?_) fun id hid hrow => hx.holds_other (fun hres => ?_) hrow
    · rw [hx.recorded_eq]
      split
      · next hcounted =>
        rw [Bool.and_eq_true, decide_eq_true_eq] at hcounted
        have happart := (hx.paid hcounted.1).2.apart j d l todo x hd hsummed
        exact absurd hcounted.2 (by simp [happart])
      · rw [add_zero]
    · exact hj (h.apart j i d c id hd hc hid (by rw [hstage, hres]))
  · exact h.apart j j' d d' id (hother j d hd).2 (hother j' d' hd').2
  · rw [hx.standing_eq] at hl
    exact (hx.used_le h.rows hholds hp hok.proper hl).trans (h.kept ctx hp l hl)

/-! ## Holding an amount -/

-- a limit that counts a row counts the same for whoever made it
theorem used_of_counts {l : Standing} (hl : l ∈ standing guard m ctx) {project task run : Option Id}
    (hc : l.counts ctx.companyId ctx'.companyId project task run = true) :
    used guard m ctx l = used guard m ctx' l := by
  by_cases hdaily : l.scope = .daily
  · have hstart : l.start m.now (m.openCycle ctx.companyId) =
        l.start m.now (m.openCycle ctx'.companyId) := start_of_counts hl hc
    simp only [used, spent_eq, recorded, inFlight, scoped_at, hstart, Standing.counts, hdaily]
    simp
  · have hcompany := Standing.counts_company hdaily hc
    simp only [used, hcompany]

section Held

variable (hmeter : s'.meter = s.meter.reserved c)

include hmeter

theorem used_reserved (hamount : 0 ≤ c.amount) (l : Standing) :
    used guard s'.meter ctx l ≤ used guard s.meter ctx l +
      if l.counts ctx.companyId c.company c.request.context.projectId c.request.context.taskId
        c.request.context.runId then c.amount else 0 := by
  have hused : used guard s'.meter ctx l = used guard s.meter ctx l +
      if (newReservation { s.meter with now := c.opened } c.request c.amount).isOpen &&
        s.meter.now ≤ c.opened + guard.reservationTtl &&
        (l.at_ s.meter.now (s.meter.openCycle ctx.companyId)).scoped ctx.companyId c.company
          c.request.context.projectId c.request.context.taskId c.request.context.runId c.opened
      then c.amount else 0 := by
    rw [hmeter]
    simp only [used, spent_eq, recorded, inFlight, Meter.reserved, Totals.total_snoc, add_assoc]
    rfl
  rw [hused]
  refine add_le_add (le_refl (used _ _ _ _)) ?_
  split
  · next hcounted =>
    simp only [scoped_at, Bool.and_eq_true] at hcounted
    rw [if_pos hcounted.2.1]
  · split
    · exact hamount
    · exact le_rfl

theorem used_reserved_other (hamount : 0 ≤ c.amount) {l : Standing}
    (h : l.counts ctx.companyId c.company c.request.context.projectId c.request.context.taskId
      c.request.context.runId = false) :
    used guard s'.meter ctx l ≤ used guard s.meter ctx l := by
  refine (used_reserved hmeter hamount l).trans ?_
  rw [h, if_neg (by simp), add_zero]

omit hmeter in
/-- The locks a call holds keep the others from checking a limit it adds to. -/
theorem Within.counts_other (h : Within g keys agentOf s) (hc : s.callers i = some c)
    (hchecked : c.stage = .checking []) {j : Id} {d : Caller} (hd : s.callers j = some d)
    (hj : j ≠ i) (hchecks : d.stage.checks = true) {l : Standing}
    (hl : l ∈ standing g.costGuard s.meter d.request.context) :
    l.counts d.company c.company c.request.context.projectId c.request.context.taskId
      c.request.context.runId = false := by
  have hat := (h.callers i c hc).stage
  rw [hchecked] at hat
  obtain ⟨hlock, hdaily, -⟩ := hat
  have hdlocks : s.locks (keys.company d.company) = some j ∧
      (g.costGuard.capped = true → s.locks keys.daily = some j) := by
    have hdat := (h.callers j d hd).stage
    cases hs : d.stage <;> rw [hs] at hdat hchecks
    case checking => exact ⟨hdat.1, hdat.2.1⟩
    case summed => exact ⟨hdat.1, hdat.2.1⟩
    all_goals cases hchecks
  refine Bool.eq_false_iff.mpr fun hcounts => hj ?_
  by_cases hscope : l.scope = .daily
  · have hcap : g.costGuard.capped = true := by
      cases Stands.of_mem hl with
      | daily hx =>
        unfold DbCostGuard.capped
        rw [hx]
        rfl
      | _ => cases hscope
    exact Option.some.inj ((hdlocks.2 hcap).symm.trans (hdaily hcap))
  · have hcompany := Standing.counts_company hscope hcounts
    rw [hcompany] at hlock
    exact Option.some.inj (hdlocks.1.symm.trans hlock)

/-- The amount fits every limit that counts it: each was checked, and stayed as it was. -/
theorem Within.reserved (h : Within g keys agentOf s) (hc : s.callers i = some c)
    (hchecked : c.stage = .checking [])
    (hcallers : s'.callers =
      Function.update s.callers i (some (c.at_ (.holding (some s.meter.nextId)))))
    (hlocks : ∀ k j, j ≠ i → s.locks k = some j → s'.locks k = some j) :
    Within g keys agentOf s' := by
  have hok := h.callers i c hc
  have hrows : s'.meter.reservations = s.meter.reservations ++
      [newReservation { s.meter with now := c.opened } c.request c.amount] := by
    rw [hmeter]
    rfl
  refine ⟨⟨?_, fun r hr => ?_, fun r hr => ?_, ?_⟩, fun j d hd => ?_, fun j j' d d' id hd hd' => ?_,
    fun ctx hp l hl => ?_⟩
  · rw [hmeter]
    exact h.rows.costs
  · rw [hrows] at hr
    rcases List.mem_append.mp hr with hold | hnew
    · exact h.rows.amounts r hold
    · rw [List.mem_singleton.mp hnew]
      exact hok.amount
  · have hnext : s'.meter.nextId = s.meter.nextId + 1 := by
      rw [hmeter]
      rfl
    rw [hnext]
    rw [hrows] at hr
    rcases List.mem_append.mp hr with hold | hnew
    · exact (h.rows.fresh r hold).trans (Nat.lt_succ_self _)
    · rw [List.mem_singleton.mp hnew]
      exact Nat.lt_succ_self _
  · rw [hrows, List.map_append, List.nodup_append]
    refine ⟨h.rows.ids, List.nodup_singleton _, fun id hold id' hnew heq => ?_⟩
    obtain ⟨r, hr, rfl⟩ := List.mem_map.mp hold
    have hid : id' = s.meter.nextId := by simpa [newReservation] using hnew
    exact absurd (h.rows.fresh r hr) (by rw [heq, hid]; exact Nat.lt_irrefl _)
  · rw [hcallers] at hd
    by_cases hj : j = i
    · subst hj
      rw [Function.update_self] at hd
      cases hd
      refine ⟨hok.proper, hok.amount, ?_, ?_⟩
      · rw [hmeter]
        exact hok.began
      · refine ⟨newReservation { s.meter with now := c.opened } c.request c.amount, ?_, rfl, ?_⟩
        · rw [hrows]
          exact List.mem_append_right _ (List.mem_singleton_self _)
        · exact ⟨rfl, rfl, rfl, rfl, rfl, rfl⟩
    · rw [Function.update_of_ne hj] at hd
      refine (h.callers j d hd).mono ?_ (fun k hk => hlocks k j hj hk) ?_ ?_
        (fun hchecks l hl => used_reserved_other hmeter hok.amount
          (h.counts_other hc hchecked hd hj hchecks hl)) ?_ fun id _ hheld => ?_
      · rw [hmeter]
        exact le_rfl
      · rw [hmeter]
        rfl
      · rw [hmeter]
        exact fun l _ => le_rfl
      · rw [hmeter]
        exact fun l todo x _ => le_rfl
      · obtain ⟨r, hr, hrow⟩ := hheld
        refine ⟨r, ?_, hrow⟩
        rw [hrows]
        exact List.mem_append_left _ hr
  · -- the new id is nobody else's
    have hother : ∀ k e, s'.callers k = some e → k ≠ i → e.stage.holds = some (some id) →
        id < s.meter.nextId := by
      intro k e he hk hid
      rw [hcallers, Function.update_of_ne hk] at he
      exact (h.callers k e he).holds_lt h.rows hid
    have hself : ∀ e, s'.callers i = some e → e.stage.holds = some (some id) →
        id = s.meter.nextId := by
      intro e he hid
      rw [hcallers, Function.update_self] at he
      cases he
      exact (Option.some.inj (Option.some.inj hid)).symm
    intro hid hid'
    by_cases hj : j = i
    · by_cases hj' : j' = i
      · rw [hj, hj']
      · rw [hj] at hd
        have hlt := hother j' d' hd' hj' hid'
        rw [hself d hd hid] at hlt
        exact absurd hlt (Nat.lt_irrefl _)
    · by_cases hj' : j' = i
      · rw [hj'] at hd'
        have hlt := hother j d hd hj hid
        rw [hself d' hd' hid'] at hlt
        exact absurd hlt (Nat.lt_irrefl _)
      · rw [hcallers] at hd hd'
        rw [Function.update_of_ne hj] at hd
        rw [Function.update_of_ne hj'] at hd'
        exact h.apart j j' d d' id hd hd' hid hid'
  · have hstanding : standing g.costGuard s'.meter ctx = standing g.costGuard s.meter ctx := by
      rw [hmeter]
      rfl
    rw [hstanding] at hl
    refine (used_reserved hmeter hok.amount l).trans ?_
    split
    · next hcounts =>
      have hat := hok.stage
      rw [hchecked] at hat
      obtain ⟨cycleStart, -, hroom⟩ := hat.2.2
      have hown : l ∈ standing g.costGuard s.meter c.request.context :=
        standing_of_counts hp hok.proper hl hcounts
      have hsame : used g.costGuard s.meter ctx l = used g.costGuard s.meter c.request.context l :=
        used_of_counts hl hcounts
      rw [hsame]
      exact (hroom l hown).resolve_left List.not_mem_nil
    · rw [add_zero]
      exact h.kept ctx hp l hl

end Held

/-! ## The statements of a call -/

theorem free_lock {k : Nat} (hfree : s.free k i = true) :
    ∀ k' j, j ≠ i → s.locks k' = some j → (s.lock k i).locks k' = some j := by
  intro k' j hj hlock
  by_cases hk : k' = k
  · subst hk
    simp only [Traffic.free, Bool.or_eq_true, decide_eq_true_eq, hlock] at hfree
    rcases hfree with hnone | hsome
    · cases hnone
    · exact absurd (Option.some.inj hsome) hj
  · exact (Function.update_of_ne hk _ _).trans hlock

theorem lock_own {k : Nat} : ∀ k', s.locks k' = some i → (s.lock k i).locks k' = some i := by
  intro k' hlock
  by_cases hk : k' = k
  · subst hk
    exact Function.update_self _ _ _
  · exact (Function.update_of_ne hk _ _).trans hlock

theorem unlock_other : ∀ k j, j ≠ i → s.locks k = some j → (s.unlock i).locks k = some j := by
  intro k j hj hlock
  have hne : s.locks k ≠ some i := by
    rw [hlock]
    exact fun heq => hj (Option.some.inj heq)
  exact (if_neg hne).trans hlock

/-- A call goes on, and holds nothing it did not hold. -/
theorem Within.put (h : Within g keys agentOf s) (hc : s.callers i = some c) {c' : Caller}
    (hok : c'.Ok g keys agentOf (s.put i c') i)
    (hheld : ∀ id, c'.stage.holds = some (some id) → c.stage.holds = some (some id)) :
    Within g keys agentOf (s.put i c') := by
  refine h.moved (i := i) (o := some c') (e := s.meter.exhausted) rfl rfl (fun k j _ hk => hk)
    (fun d hd => ?_) fun d id hd hid => ?_
  · cases hd
    exact hok
  · cases hd
    exact ⟨c, hc, hheld id hid⟩

theorem Within.lock_put (h : Within g keys agentOf s) {k : Nat} (hfree : s.free k i = true)
    {c' : Caller} (hok : c'.Ok g keys agentOf ((s.lock k i).put i c') i)
    (hheld : c'.stage.holds = none) : Within g keys agentOf ((s.lock k i).put i c') := by
  refine h.moved (i := i) (o := some c') (e := s.meter.exhausted) rfl rfl (free_lock hfree)
    (fun d hd => ?_) fun d id hd hid => ?_
  · cases hd
    exact hok
  · cases hd
    rw [hheld] at hid
    cases hid

theorem Within.drop (h : Within g keys agentOf s) (i : Id) : Within g keys agentOf (s.drop i) := by
  refine h.moved (i := i) (o := none) (e := s.meter.exhausted) rfl rfl unlock_other
    (fun d hd => ?_) fun d id hd => ?_
  · cases hd
  · cases hd

theorem Within.refuse (h : Within g keys agentOf s) (l : Limit) (x : Usd) :
    Within g keys agentOf (s.refuse i c l x) := by
  refine h.moved (i := i) (o := none) rfl rfl unlock_other (fun d hd => ?_) fun d id hd => ?_
  · cases hd
  · cases hd

/-- The limits as they are read. -/
theorem Caller.Ok.listed (h : c.Ok g keys agentOf s i) :
    c.Listed g.costGuard s.meter
      (limits g.costGuard { s.meter with now := c.began } c.request) := by
  refine ⟨s.meter.openCycle c.company, fun l _ => Standing.start_mono h.began _, fun l hl => ?_⟩
  rw [limits_eq]
  exact List.mem_map_of_mem hl

/-- The second sum is read after the first, and both count at least what counts now. -/
theorem Caller.Ok.compared {l : Limit} {todo : List Limit} {x : Usd} (h : c.Ok g keys agentOf s i)
    (hm : s.meter.Kept) (hstage : c.stage = .summed l todo x)
    (hroom : ¬ l.amount < x + inFlight g.costGuard s.meter c.began c.company l + c.amount) :
    c.Checked g.costGuard s.meter todo := by
  have hat := h.stage
  rw [hstage] at hat
  obtain ⟨-, -, ⟨cycleStart, hread, hall⟩, hsum⟩ := hat
  refine ⟨cycleStart, hread, fun l' hl' => ?_⟩
  rcases hall l' hl' with htodo | hroom'
  case inr => exact .inr hroom'
  rcases List.mem_cons.mp htodo with hhead | htail
  case inr => exact .inl htail
  right
  have hstart := hread l' hl'
  have hrecorded : recorded s.meter c.company (l'.at_ s.meter.now (s.meter.openCycle c.company)) ≤
      recorded s.meter c.company (l'.at_ c.began cycleStart) := recorded_le hm hstart
  have hinFlight : inFlight g.costGuard s.meter s.meter.now c.company
        (l'.at_ s.meter.now (s.meter.openCycle c.company)) ≤
      inFlight g.costGuard s.meter c.began c.company (l'.at_ c.began cycleStart) :=
    inFlight_le hm h.began hstart
  rw [hhead] at hrecorded hinFlight
  have hamount : l'.amount = l.amount := by rw [← hhead]; rfl
  have hused : used g.costGuard s.meter c.request.context l' ≤
      x + inFlight g.costGuard s.meter c.began c.company l :=
    add_le_add (hrecorded.trans hsum) hinFlight
  rw [hamount]
  exact (add_le_add_left hused c.amount).trans (not_lt.mp hroom)

theorem Within.commit (h : Within g keys agentOf s) (hc : s.callers i = some c)
    (hchecked : c.stage = .checking []) : Within g keys agentOf (s.commit i c) := by
  have hok := h.callers i c hc
  unfold Traffic.commit
  split
  · next hzero =>
    refine h.moved (i := i) (o := some (c.at_ (.holding none))) (e := s.meter.exhausted) rfl rfl
      unlock_other (fun d hd => ?_) fun d id hd hid => ?_
    · cases hd
      exact ⟨hok.proper, hok.amount, hok.began, hzero⟩
    · cases hd
      cases hid
  · exact Within.reserved rfl h hc hchecked rfl unlock_other

theorem Within.close {reservation : Option Id} {reply : Except ProviderError ProviderResponse}
    (h : Within g keys agentOf s) (hc : s.callers i = some c)
    (hstage : c.stage = .closing reservation reply)
    (hpaid : ∀ r, reply = .ok r → 0 ≤ g.replyCost c.binding r ∧
      g.replyCost c.binding r ≤ c.amount ∧ Settles g s c reservation) :
    Within g keys agentOf (s.close g i c reservation reply) := by
  have hholds : c.stage.holds = some reservation := by
    rw [hstage]
    rfl
  cases reply with
  | ok r =>
    obtain ⟨hcost, hle, hsettles⟩ := hpaid r rfl
    simp only [Traffic.close]
    split
    · let row := okCall { s.meter with now := c.opened } c.request c.alias_ c.binding c.latencyMs
        (g.replyCost c.binding r) r
      let settles (row : CostReservation) : CostReservation := { row with
        settledAt := some s.meter.now, modelCallId := some s.meter.nextId,
        actualCost := some (g.replyCost c.binding r) }
      refine h.closed hc hholds (?_ : Closed g s _ c reservation row settles) rfl unlock_other
      cases reservation
      all_goals exact ⟨rfl, rfl, fun _ => rfl, fun _ => rfl, fun _ => rfl, rfl, Nat.le_succ _, rfl,
        rfl, rfl, rfl, rfl, rfl, hcost, fun _ => ⟨hle, hsettles⟩⟩
    · exact h.drop i
  | error e =>
    simp only [Traffic.close]
    split
    · let row := failedCall { s.meter with now := c.opened } c.request c.alias_ c.binding
        c.latencyMs e
      let releases (row : CostReservation) : CostReservation :=
        { row with releasedAt := some s.meter.now }
      refine h.closed hc hholds (?_ : Closed g s _ c reservation row releases) rfl unlock_other
      have hopen : ∀ row : CostReservation,
          CostReservation.isOpen { row with releasedAt := some s.meter.now } = false := by
        intro row
        simp [CostReservation.isOpen]
      have herror : ModelCallStatus.error ≠ .ok := by decide
      cases reservation
      all_goals exact ⟨rfl, rfl, hopen, fun _ => rfl, fun _ => rfl, rfl, Nat.le_succ _, rfl,
        rfl, rfl, rfl, rfl, rfl, le_rfl, fun hok => absurd hok herror⟩
    · exact h.drop i

end Keeping

end Autora.Models
