import Autora.Finance
import Autora.ModelGateway
import Mathlib.Tactic.Linarith
import Mathlib.Tactic.NormNum
import Mathlib.Tactic.FieldSimp

/-! What governance takes a budget's spend to be when it warns, and what the cost guard takes it
to be when it refuses. -/

namespace Autora.Warnings

open Models (Meter Budget Period Limit DbCostGuard microsPerDay)
open Company (Transaction TransactionKind)

/-- An amount in millionths, as the columns keep it. -/
def micros (n : Int) : Rat := n / 1000000

def Whole (q : Rat) : Prop := ∃ n : Nat, q = micros n

inductive KpiScope where
  | company | businessUnit | project
  deriving DecidableEq, Repr

/-- `cost` is the number under that name in the metrics, where there is one. -/
structure KpiSnapshot where
  companyId : Id
  cycleId : Option Id
  scope : KpiScope
  businessUnitId : Option Id
  projectId : Option Id
  cost : Option Rat
  periodStart : Time
  periodEnd : Time
  createdAt : Time

structure Cycle where
  id : Id
  companyId : Id
  startedAt : Time

/-- The tables both sides read; no cost is negative, and all have six decimals. -/
structure Tables where
  meter : Meter
  transactions : List Transaction
  snapshots : List KpiSnapshot
  /-- `projects.business_unit_id`. -/
  unitOf : Id → Option Id
  calls_whole : ∀ c ∈ meter.calls, Whole c.costUsd
  reservations_whole : ∀ r ∈ meter.reservations, Whole r.amount
  costs_whole : ∀ s ∈ snapshots, ∀ x ∈ s.cost, Whole x

/-- What is used of Python's floats: `reread` is a decimal that went through a float and back,
`near` is whether the float of a quotient is at least 0.8 and below 1. -/
structure Floats where
  reread : Rat → Rat
  near : Rat → Bool
  reread_small : ∀ n : Nat, n ≤ 1000000000000000 → reread (micros n) = micros n
  reread_large : ∀ x, 1 ≤ x → 1 ≤ reread x
  near_inside : ∀ x, 4 / 5 ≤ x → x ≤ 9 / 10 → near x = true
  near_below : ∀ x, x ≤ 3 / 4 → near x = false
  near_above : ∀ x, 1 ≤ x → near x = false

/-- The cost guard with the conversions: a converted budget has six decimals, and nothing comes
of nothing. -/
structure Wall where
  guard : DbCostGuard
  /-- `fx.metered`: what the meter says, in the base currency. -/
  inBase : Usd → Rat
  metered_whole : ∀ b, Whole (guard.metered b)
  metered_pos : ∀ b, 0 < guard.metered b → 0 < b.amount

/-- What a budget is set for; `allocate_budget` takes a project or a business unit, not both. -/
inductive Owner where
  | company
  | unit (id : Id)
  | project (id : Id)
  deriving DecidableEq, Repr

/-- A budget with a hard cap, its amount in millionths. -/
structure HardBudget where
  companyId : Id
  owner : Owner
  period : Period
  amount : Nat
  currency : String

def HardBudget.row (b : HardBudget) : Budget where
  companyId := b.companyId
  projectId := match b.owner with
    | .project p => some p
    | _ => none
  businessUnitId := match b.owner with
    | .unit u => some u
    | _ => none
  period := b.period
  amount := micros b.amount
  currency := b.currency
  hardCap := true

/-! Governance. -/

def KpiSnapshot.notAfter (s t : KpiSnapshot) : Bool :=
  s.periodEnd < t.periodEnd || (s.periodEnd = t.periodEnd && s.createdAt ≤ t.createdAt)

/-- `ORDER BY period_end DESC, created_at DESC LIMIT 1` -/
def newest : List KpiSnapshot → Option KpiSnapshot
  | [] => none
  | s :: rest => match newest rest with
    | none => some s
    | some t => if s.notAfter t then some t else some s

/-- `MODEL_COST` -/
def modelCost : String := "model_cost"

/-- `SPENDING` -/
def spending : List TransactionKind := [.expense, .capitalOut]

section

variable (w : Tables)

def latest (company : Id) (scope : KpiScope) (unit project : Option Id) : Option KpiSnapshot :=
  newest (w.snapshots.filter fun s => s.companyId = company && s.scope = scope &&
    unit.all (fun i => s.businessUnitId = some i) && project.all (fun i => s.projectId = some i))

/-- `Ledger.spent`, in millionths. -/
def ledgerSpent (company : Id) (project : Option Id) (since : Option Time) : Int :=
  ((w.transactions.filter fun t => t.companyId = company && t.kind ∈ spending &&
    project.all (fun i => t.projectId = some i) && since.all (· ≤ t.occurredAt)).map
      Transaction.amount).sum

variable (fl : Floats) (cycle : Cycle)

def measuredFor (b : Budget) : Option KpiSnapshot :=
  (latest w cycle.companyId (if b.projectId.isSome then .project else .businessUnit)
    b.businessUnitId b.projectId).filter fun s => s.cycleId = some cycle.id

def since (b : Budget) : Option Time := if b.period = .cycle then some cycle.startedAt else none

/-- `_spent_for` -/
def spentFor (b : Budget) : Rat :=
  match (measuredFor w cycle b).bind KpiSnapshot.cost with
  | some cost => fl.reread cost
  | none => micros (ledgerSpent w cycle.companyId b.projectId (since cycle b))

structure BudgetWarning where
  budget : Budget
  spent : Rat

def hardBudgets : List Budget :=
  w.meter.budgets.filter fun b => b.companyId = cycle.companyId && b.hardCap

/-- `_near_the_cap` -/
def nearTheCap : List Budget → List BudgetWarning
  | [] => []
  | b :: rest =>
    if b.amount ≤ 0 then nearTheCap rest
    else
      let spent := spentFor w fl cycle b
      if fl.near (spent / b.amount) then ⟨b, spent⟩ :: nearTheCap rest else nearTheCap rest

def announced (b : Budget) : Prop :=
  ∃ warning ∈ nearTheCap w fl cycle (hardBudgets w cycle), warning.budget = b

end

/-! The cost guard, and what is reported for a cycle. -/

section

variable (w : Tables) (b : HardBudget)

/-- Whose calls a budget is for. -/
def inScope (company : Id) (project : Option Id) : Bool :=
  company = b.companyId && match b.owner with
    | .company => true
    | .unit u => project.bind w.unitOf = some u
    | .project p => project = some p

/-- The guard has no limit for a business unit; a call belongs to one through its project. -/
def ownRows {α : Type} (project : α → Option Id) (rows : List α) : List α :=
  match b.owner with
  | .unit u => rows.filter fun r => (project r).bind w.unitOf = some u
  | _ => rows

def ownMeter : Meter :=
  { w.meter with
    calls := ownRows w b (·.context.projectId) w.meter.calls
    reservations := ownRows w b (·.projectId) w.meter.reservations }

def windowFrom : Time :=
  Models.windowStart b.period w.meter.now (w.meter.openCycle b.companyId)

def ownLimit (guard : DbCostGuard) : Limit :=
  let opened := w.meter.openCycle b.companyId
  match b.owner with
  | .project p => b.row.limit guard .project (some p) w.meter.now opened
  | _ => b.row.limit guard .company none w.meter.now opened

/-- What the guard has for the budget's owner in the budget's window. -/
def used (guard : DbCostGuard) : Usd :=
  Models.spent guard (ownMeter w b) b.companyId (ownLimit w b guard)

/-- At 80% of the budget or over it, and below the budget. -/
def InBand (wall : Wall) : Prop :=
  4 / 5 * wall.guard.metered b.row ≤ used w b wall.guard ∧
    used w b wall.guard < wall.guard.metered b.row

/-- What the owner's successful calls cost from a time on. -/
def callCost (start : Time) (until_ : Option Time) : Usd :=
  ((w.meter.calls.filter fun c => c.status = .ok &&
    inScope w b c.context.companyId c.context.projectId && start ≤ c.createdAt &&
      until_.all (c.createdAt ≤ ·)).map (·.costUsd)).sum

/-- The owner's expenses other than for model calls, in millionths. -/
def otherCost (start until_ : Time) : Int :=
  ((w.transactions.filter fun t => t.companyId = b.companyId && t.kind ∈ spending &&
    t.category ≠ modelCost && start ≤ t.occurredAt && t.occurredAt ≤ until_ &&
      match b.owner with
      | .company => true
      | .unit u => t.businessUnitId = some u
      | .project p => t.projectId = some p).map Transaction.amount).sum

/-- `_money`: the cost of a window. -/
def reportedCost (wall : Wall) (start until_ : Time) : Rat :=
  wall.inBase (callCost w b start (some until_)) + micros (otherCost w b start until_)

variable (fl : Floats) (wall : Wall) (cycle : Cycle)

/-- A warning is given just where the guard has the budget near its end. -/
def Agrees : Prop := announced w fl cycle b.row ↔ InBand w b wall

/-- The cost last measured for the budget in this cycle, or else the ledger's expenses, are near
the budget just where the guard's figure is. -/
structure SameSide : Prop where
  measured : ∀ s cost, measuredFor w cycle b.row = some s → s.cost = some cost →
    (fl.near (fl.reread cost / micros b.amount) = true ↔ InBand w b wall)
  booked : (∀ s, measuredFor w cycle b.row = some s → s.cost = none) →
    (fl.near (micros (ledgerSpent w cycle.companyId b.row.projectId (since cycle b.row)) /
      micros b.amount) = true ↔ InBand w b wall)

/-- A project's or a business unit's budget for the open cycle, measured after its last call,
with no other expense, nothing under way, and conversions that leave no remainder. -/
structure Settled : Prop where
  perCycle : b.period = .cycle
  owned : b.owner ≠ .company
  opened : w.meter.openCycle b.companyId = some cycle.startedAt
  idle : ∀ r ∈ w.meter.reservations, r.companyId = b.companyId → r.isOpen = false
  measured : ∃ s, measuredFor w cycle b.row = some s ∧
    s.cost = some (reportedCost w b wall cycle.startedAt s.periodEnd) ∧
    callCost w b cycle.startedAt (some s.periodEnd) = callCost w b cycle.startedAt none ∧
    otherCost w b cycle.startedAt s.periodEnd = 0
  exact_ : ∃ rate : Rat, 0 < rate ∧
    wall.inBase (callCost w b cycle.startedAt none) = rate * callCost w b cycle.startedAt none ∧
    micros b.amount = rate * wall.guard.metered b.row
  plain : fl.reread (wall.inBase (callCost w b cycle.startedAt none)) =
      wall.inBase (callCost w b cycle.startedAt none) ∧
    (fl.near (wall.inBase (callCost w b cycle.startedAt none) / micros b.amount) = true ↔
      4 / 5 ≤ wall.inBase (callCost w b cycle.startedAt none) / micros b.amount ∧
        wall.inBase (callCost w b cycle.startedAt none) / micros b.amount < 1)

end

variable {w : Tables} {fl : Floats} {cycle : Cycle} {wall : Wall} {b : HardBudget}

theorem micros_nonneg (n : Nat) : 0 ≤ micros n := by
  have hn : (0 : Rat) ≤ n := Nat.cast_nonneg n
  exact div_nonneg hn (by norm_num)

theorem micros_lt {m n : Int} : micros m < micros n ↔ m < n := by
  unfold micros
  rw [div_lt_div_iff_of_pos_right (by norm_num)]
  exact Int.cast_lt

theorem micros_zero : micros 0 = 0 := by
  rw [micros, Int.cast_zero, zero_div]

theorem micros_pos {n : Nat} : 0 < micros n ↔ 0 < n := by
  rw [← micros_zero, micros_lt]
  exact Int.natCast_pos

theorem Whole.add {p q : Rat} (hp : Whole p) (hq : Whole q) : Whole (p + q) := by
  obtain ⟨m, rfl⟩ := hp
  obtain ⟨n, rfl⟩ := hq
  refine ⟨m + n, ?_⟩
  unfold micros
  push_cast
  ring

theorem whole_sum {qs : List Rat} (h : ∀ q ∈ qs, Whole q) : Whole qs.sum := by
  induction qs with
  | nil => exact ⟨0, by simp [micros]⟩
  | cons q qs ih =>
    rw [List.sum_cons]
    exact (h q List.mem_cons_self).add (ih fun x hx => h x (List.mem_cons_of_mem q hx))

theorem mem_newest {rows : List KpiSnapshot} {s : KpiSnapshot} (h : newest rows = some s) :
    s ∈ rows := by
  induction rows with
  | nil => cases h
  | cons r rest ih =>
    rw [newest] at h
    split at h
    · cases h
      exact List.mem_cons_self
    · next t ht =>
      split at h
      · cases h
        exact List.mem_cons_of_mem r (ih ht)
      · cases h
        exact List.mem_cons_self

theorem mem_measuredFor {b : Budget} {s : KpiSnapshot} (h : measuredFor w cycle b = some s) :
    s ∈ w.snapshots :=
  (List.mem_filter.mp (mem_newest (Option.filter_eq_some_iff.mp h).1)).1

/-- A warning is about a budget whose spend, as governance takes it, is near the budget. -/
theorem mem_nearTheCap {budgets : List Budget} {b : Budget} :
    (∃ warning ∈ nearTheCap w fl cycle budgets, warning.budget = b) ↔
      b ∈ budgets ∧ 0 < b.amount ∧ fl.near (spentFor w fl cycle b / b.amount) = true := by
  induction budgets with
  | nil => simp [nearTheCap]
  | cons c rest ih =>
    have hsplit : (∃ warning ∈ nearTheCap w fl cycle (c :: rest), warning.budget = b) ↔
        (c = b ∧ 0 < c.amount ∧ fl.near (spentFor w fl cycle c / c.amount) = true) ∨
          ∃ warning ∈ nearTheCap w fl cycle rest, warning.budget = b := by
      rw [nearTheCap]
      split
      · next hc =>
        have hno : ¬ 0 < c.amount := not_lt.mpr hc
        simp [hno]
      · next hc =>
        have hpos : 0 < c.amount := not_le.mp hc
        dsimp only
        split
        · next hn => simp [hpos, hn]
        · next hn => simp [hn]
    rw [hsplit, ih, List.mem_cons]
    constructor
    · rintro (⟨rfl, h⟩ | ⟨hm, h⟩)
      · exact ⟨Or.inl rfl, h⟩
      · exact ⟨Or.inr hm, h⟩
    · rintro ⟨rfl | hm, h⟩
      · exact Or.inl ⟨rfl, h⟩
      · exact Or.inr ⟨hm, h⟩

theorem announced_iff (hb : b.row ∈ hardBudgets w cycle) :
    announced w fl cycle b.row ↔ 0 < b.amount ∧
      fl.near (spentFor w fl cycle b.row / micros b.amount) = true := by
  have hpos : 0 < b.row.amount ↔ 0 < b.amount := micros_pos
  unfold announced
  rw [mem_nearTheCap, hpos]
  exact ⟨fun h => h.2, fun h => ⟨hb, h⟩⟩

/-- What is held for the owner's calls under way. -/
def heldCost (w : Tables) (b : HardBudget) (guard : DbCostGuard) (start : Time) : Usd :=
  ((w.meter.reservations.filter fun r => r.isOpen &&
    w.meter.now ≤ r.createdAt + guard.reservationTtl && inScope w b r.companyId r.projectId &&
      start ≤ r.createdAt).map (·.amount)).sum

theorem filter_ownRows {α : Type} (guard : DbCostGuard) (p : α → Bool) (company : α → Id)
    (project task run : α → Option Id) (at_ : α → Time) (rows : List α) :
    (ownRows w b project rows).filter (fun r => p r && (ownLimit w b guard).scoped b.companyId
        (company r) (project r) (task r) (run r) (at_ r)) =
      rows.filter fun r => p r && inScope w b (company r) (project r) && windowFrom w b ≤ at_ r := by
  have hscoped : ∀ {limit : Limit} {r : α}, limit.scope ≠ .daily → limit.runId = none →
      limit.taskId = none → limit.windowStart = some (windowFrom w b) →
      (limit.scoped b.companyId (company r) (project r) (task r) (run r) (at_ r) = true ↔
        company r = b.companyId ∧ limit.projectId.all (fun i => project r = some i) = true ∧
          windowFrom w b ≤ at_ r) := by
    intro limit r hs hr ht hw
    simp [Limit.scoped, hs, hr, ht, hw, and_assoc]
  unfold ownRows ownLimit
  cases ho : b.owner with
  | company =>
    apply List.filter_congr
    intro r _
    rw [Bool.eq_iff_iff]
    simp only [Bool.and_eq_true, inScope, ho, decide_eq_true_eq]
    rw [hscoped (by simp [Budget.limit]) rfl rfl rfl]
    simp [Budget.limit, and_assoc]
  | unit u =>
    dsimp only
    rw [List.filter_filter]
    apply List.filter_congr
    intro r _
    rw [Bool.eq_iff_iff]
    simp only [Bool.and_eq_true, inScope, ho, decide_eq_true_eq]
    rw [hscoped (by simp [Budget.limit]) rfl rfl rfl]
    simp only [Budget.limit, Option.all_none, true_and]
    tauto
  | project q =>
    apply List.filter_congr
    intro r _
    rw [Bool.eq_iff_iff]
    simp only [Bool.and_eq_true, inScope, ho, decide_eq_true_eq]
    rw [hscoped (by simp [Budget.limit]) rfl rfl rfl]
    simp [Budget.limit, and_assoc]

/-- What the guard has is what the owner's calls cost and what is held for more of them. -/
theorem used_eq (guard : DbCostGuard) : used w b guard =
    callCost w b (windowFrom w b) none + heldCost w b guard (windowFrom w b) := by
  unfold used Models.spent callCost heldCost ownMeter
  dsimp only
  rw [filter_ownRows, filter_ownRows]
  simp only [Option.all_none, Bool.and_true]

theorem used_whole (w : Tables) (b : HardBudget) (guard : DbCostGuard) :
    Whole (used w b guard) := by
  rw [used_eq]
  have hcalls : Whole (callCost w b (windowFrom w b) none) := by
    apply whole_sum
    intro q hq
    obtain ⟨c, hc, rfl⟩ := List.mem_map.mp hq
    exact w.calls_whole c (List.mem_filter.mp hc).1
  have hheld : Whole (heldCost w b guard (windowFrom w b)) := by
    apply whole_sum
    intro q hq
    obtain ⟨r, hr, rfl⟩ := List.mem_map.mp hq
    exact w.reservations_whole r (List.mem_filter.mp hr).1
  exact hcalls.add hheld

/-- An empty budget is never near its end. -/
theorem not_inBand (h : wall.guard.metered b.row ≤ 0) : ¬ InBand w b wall := by
  intro hin
  obtain ⟨n, hn⟩ := used_whole w b wall.guard
  have hnonneg := micros_nonneg n
  have hlt := hin.2
  rw [hn] at hlt
  linarith

theorem agrees_iff_sameSide (hb : b.row ∈ hardBudgets w cycle) :
    Agrees w b fl wall cycle ↔ SameSide w b fl wall cycle := by
  have hzero : b.amount = 0 → ¬ InBand w b wall ∧ ∀ x, fl.near (x / micros b.amount) = false := by
    intro h0
    have hcap : wall.guard.metered b.row ≤ 0 := by
      by_contra hpos
      have hamount := wall.metered_pos b.row (not_le.mp hpos)
      have hn := micros_pos.mp hamount
      omega
    refine ⟨not_inBand hcap, fun x => fl.near_below _ ?_⟩
    rw [h0, Nat.cast_zero, micros_zero, div_zero]
    norm_num
  have hsame : Agrees w b fl wall cycle ↔
      (fl.near (spentFor w fl cycle b.row / micros b.amount) = true ↔ InBand w b wall) := by
    unfold Agrees
    rw [announced_iff hb]
    rcases Nat.eq_zero_or_pos b.amount with h0 | hpos
    · obtain ⟨hin, hnear⟩ := hzero h0
      rw [hnear]
      simp [h0, hin]
    · rw [and_iff_right hpos]
  rw [hsame]
  constructor
  · intro h
    refine ⟨fun s cost hs hcost => ?_, fun hnone => ?_⟩
    · rw [spentFor, hs, Option.bind_some, hcost] at h
      exact h
    · have hbind : (measuredFor w cycle b.row).bind KpiSnapshot.cost = none := by
        cases hm : measuredFor w cycle b.row with
        | none => rfl
        | some s => exact hnone s hm
      rw [spentFor, hbind] at h
      exact h
  · intro h
    unfold spentFor
    cases hm : measuredFor w cycle b.row with
    | none => exact h.booked fun s hs => by rw [hm] at hs; cases hs
    | some s =>
      cases hc : s.cost with
      | none =>
        rw [Option.bind_some, hc]
        refine h.booked fun t ht => ?_
        rw [hm] at ht
        cases ht
        exact hc
      | some cost =>
        rw [Option.bind_some, hc]
        exact h.measured s cost hm hc

theorem Settled.used (h : Settled w b fl wall cycle) :
    used w b wall.guard = callCost w b cycle.startedAt none := by
  have hwindow : windowFrom w b = cycle.startedAt := by
    rw [windowFrom, h.perCycle, h.opened]
    rfl
  have hheld : heldCost w b wall.guard cycle.startedAt = 0 := by
    have hnone : (w.meter.reservations.filter fun r => r.isOpen &&
        w.meter.now ≤ r.createdAt + wall.guard.reservationTtl &&
          inScope w b r.companyId r.projectId && cycle.startedAt ≤ r.createdAt) = [] := by
      rw [List.filter_eq_nil_iff]
      intro r hr hall
      simp only [Bool.and_eq_true, inScope, decide_eq_true_eq] at hall
      have hidle := h.idle r hr hall.1.2.1
      rw [hidle] at hall
      cases hall.1.1.1
    rw [heldCost, hnone]
    rfl
  rw [used_eq, hwindow, hheld, add_zero]

/-- A settled budget is warned of just where the guard has it near its end. -/
theorem Settled.agrees (hb : b.row ∈ hardBudgets w cycle) (h : Settled w b fl wall cycle) :
    Agrees w b fl wall cycle := by
  obtain ⟨s, hs, hcost, hlast, hother⟩ := h.measured
  obtain ⟨rate, hrate, hinBase, hamount⟩ := h.exact_
  obtain ⟨hreread, hnear⟩ := h.plain
  have hreported : s.cost = some (wall.inBase (callCost w b cycle.startedAt none)) := by
    rw [hcost, reportedCost, hlast, hother, micros_zero, add_zero]
  rw [agrees_iff_sameSide hb]
  constructor
  · intro s' cost hs' hcost'
    rw [hs] at hs'
    cases hs'
    rw [hreported] at hcost'
    cases hcost'
    rw [hreread, hnear, InBand, h.used, hinBase, hamount]
    obtain ⟨n, hn⟩ := wall.metered_whole b.row
    rcases (hn ▸ micros_nonneg n : 0 ≤ wall.guard.metered b.row).eq_or_lt with h0 | hpos
    · rw [← h0, mul_zero, mul_zero, div_zero]
      constructor
      · intro hle
        norm_num at hle
      · intro hle
        exact absurd (hle.1.trans_lt hle.2) (lt_irrefl 0)
    · rw [mul_div_mul_left _ _ hrate.ne', le_div_iff₀ hpos, div_lt_one hpos]
  · intro hnone
    rw [hnone s hs] at hreported
    cases hreported

/-! Histories on which the two part. -/

/-- A call by the owner's project at the start of the budget's window. -/
def oneCall (b : HardBudget) (cost : Nat) : Models.ModelCall where
  id := 0
  context := ⟨b.companyId, "writer", match b.owner with
    | .project p => some p
    | _ => some 0, none, none, none, none, none⟩
  capability := "draft"
  alias_ := "large"
  provider := "provider"
  modelId := []
  status := .ok
  stopReason := none
  usage := {}
  costUsd := micros cost
  latencyMs := 0
  error := none
  createdAt := Models.windowStart b.period 0 none

/-- An expense of the budget's owner. -/
def oneExpense (b : HardBudget) (amount : Nat) : Transaction where
  id := 0
  companyId := b.companyId
  businessUnitId := b.row.businessUnitId
  productId := none
  projectId := b.row.projectId
  customerId := none
  kind := .expense
  category := "tool_cost"
  amount := amount
  currency := b.currency
  sourceAmount := none
  sourceCurrency := none
  fxRate := none
  refType := none
  refId := none
  occurredAt := 0
  source := .system
  idempotencyKey := .cycleCost 0 none
  memo := none

/-- One call and one expense, and nothing measured. -/
def history (b : HardBudget) (called paid : Nat) : Tables where
  meter := {
    now := 0
    nextId := 1
    calls := [oneCall b called]
    reservations := []
    budgets := [b.row]
    perRun := fun _ => none
    taskBudget := fun _ => none
    openCycle := fun _ => none
    exhausted := [] }
  transactions := [oneExpense b paid]
  snapshots := []
  unitOf := fun _ => match b.owner with
    | .unit u => some u
    | _ => none
  calls_whole := by
    intro c hc
    rw [List.mem_singleton.mp hc]
    exact ⟨called, rfl⟩
  reservations_whole := fun r hr => absurd hr List.not_mem_nil
  costs_whole := fun s hs => absurd hs List.not_mem_nil

def firstCycle (b : HardBudget) : Cycle := ⟨0, b.companyId, 0⟩

section

variable (b : HardBudget) (called paid : Nat)

theorem history_mem : b.row ∈ hardBudgets (history b called paid) (firstCycle b) := by
  simp [hardBudgets, history, firstCycle, HardBudget.row]

theorem history_used (guard : DbCostGuard) :
    used (history b called paid) b guard = micros called := by
  have hscope : inScope (history b called paid) b (oneCall b called).context.companyId
      (oneCall b called).context.projectId = true := by
    cases ho : b.owner <;> simp [inScope, history, oneCall, ho]
  have hcount : callCost (history b called paid) b (windowFrom (history b called paid) b) none =
      ([oneCall b called].map (·.costUsd)).sum := by
    unfold callCost
    rw [List.filter_eq_self.mpr]
    · rfl
    · intro c hc
      rw [List.mem_singleton.mp hc, hscope]
      simp [windowFrom, history, oneCall]
  have hheld : heldCost (history b called paid) b guard
      (windowFrom (history b called paid) b) = 0 := rfl
  rw [used_eq, hheld, hcount]
  simp [oneCall]

theorem history_spent (fl : Floats) :
    spentFor (history b called paid) fl (firstCycle b) b.row = micros paid := by
  have hbooked : ledgerSpent (history b called paid) b.companyId b.row.projectId
      (since (firstCycle b) b.row) = paid := by
    have hall : (history b called paid).transactions.filter (fun t => t.companyId = b.companyId &&
        t.kind ∈ spending && b.row.projectId.all (fun i => t.projectId = some i) &&
          (since (firstCycle b) b.row).all (· ≤ t.occurredAt)) = [oneExpense b paid] := by
      have hproject : b.row.projectId.all (fun i => b.row.projectId = some i) = true := by
        cases b.row.projectId <;> simp
      have hsince : (since (firstCycle b) b.row).all (· = 0) = true := by
        unfold since firstCycle
        split <;> rfl
      simp [history, oneExpense, spending, hproject, hsince]
    rw [ledgerSpent, hall]
    simp [oneExpense]
  have hnone : measuredFor (history b called paid) (firstCycle b) b.row = none := rfl
  rw [spentFor, hnone]
  exact congrArg micros hbooked

end

theorem four_fifths {m n : Nat} : 4 / 5 * micros m ≤ micros n ↔ 4 * m ≤ 5 * n := by
  have hle : micros (5 * n) < micros (4 * m) ↔ 5 * n < 4 * m := by
    rw [micros_lt]
    omega
  rw [← not_lt, ← not_lt, ← hle]
  unfold micros
  push_cast
  constructor
  · intro h h'
    apply h
    linarith
  · intro h h'
    apply h
    linarith

theorem near_micros (fl : Floats) {k : Nat} (h : 5 ≤ k) :
    fl.near (micros ((4 * k + 4) / 5 : Nat) / micros k) = true := by
  have hk : 0 < micros k := micros_pos.mpr (by omega)
  have hhigh : 10 * ((4 * k + 4) / 5) ≤ 9 * k := by
    by_cases h8 : 8 ≤ k
    · omega
    · obtain rfl | rfl | rfl : k = 5 ∨ k = 6 ∨ k = 7 := by omega
      all_goals decide
  have hlow : 4 * k ≤ 5 * ((4 * k + 4) / 5) := by omega
  generalize (4 * k + 4) / 5 = n at hhigh hlow
  apply fl.near_inside
  · rw [le_div_iff₀ hk]
    exact four_fifths.mpr hlow
  · have hle : (10 : Rat) * n ≤ 9 * k := by exact_mod_cast hhigh
    rw [div_le_iff₀ hk]
    unfold micros
    push_cast
    linarith

/-- Of less than five millionths nothing is near the whole. -/
theorem not_near_small (fl : Floats) {k : Nat} (n : Int) (h : k < 5) :
    fl.near (micros n / micros k) = false := by
  have hratio : micros n / micros k = (n : Rat) / k := by
    unfold micros
    rw [div_div_div_cancel_right₀ (by norm_num)]
    rfl
  rw [hratio]
  rcases Nat.eq_zero_or_pos k with rfl | hk
  · apply fl.near_below
    rw [Nat.cast_zero, div_zero]
    norm_num
  · have hpos : (0 : Rat) < k := Nat.cast_pos.mpr hk
    by_cases hn : (k : Int) ≤ n
    · apply fl.near_above
      rw [le_div_iff₀ hpos, one_mul]
      exact_mod_cast hn
    · apply fl.near_below
      rw [div_le_iff₀ hpos]
      have hint : 4 * n ≤ 3 * k := by omega
      have hrat : (4 : Rat) * n ≤ 3 * k := by exact_mod_cast hint
      linarith

/-- The same of what was measured, although it went through a float. -/
theorem not_near_reread (fl : Floats) {k : Nat} {x : Rat} (h : k < 5) (hx : Whole x) :
    fl.near (fl.reread x / micros k) = false := by
  obtain ⟨n, rfl⟩ := hx
  by_cases hn : n ≤ 1000000000000000
  · rw [fl.reread_small n hn]
    exact not_near_small fl n h
  · have hlarge : 1 ≤ micros n := by
      have hle : (1000000 : Rat) ≤ n := by exact_mod_cast (by omega : 1000000 ≤ n)
      rw [micros, le_div_iff₀ (by norm_num)]
      push_cast
      linarith
    have hreread := fl.reread_large _ hlarge
    rcases Nat.eq_zero_or_pos k with rfl | hk
    · apply fl.near_below
      rw [Nat.cast_zero, micros_zero, div_zero]
      norm_num
    · apply fl.near_above
      have hpos : 0 < micros k := micros_pos.mpr hk
      have hone : micros k ≤ 1 := by
        have hle : (k : Rat) ≤ 1000000 := by exact_mod_cast (by omega : k ≤ 1000000)
        rw [micros, div_le_iff₀ (by norm_num)]
        push_cast
        linarith
      rw [le_div_iff₀ hpos]
      linarith

/-- Over every history the two agree on budgets that have no amount of money near their end, and
on no others. -/
theorem agrees_always_iff (fl : Floats) (wall : Wall) (b : HardBudget) :
    (∀ w cycle, b.row ∈ hardBudgets w cycle → Agrees w b fl wall cycle) ↔
      b.amount < 5 ∧ wall.guard.metered b.row < micros 5 := by
  obtain ⟨m, hm⟩ := wall.metered_whole b.row
  have hpart : ∀ called paid, Agrees (history b called paid) b fl wall (firstCycle b) ↔
      ((0 < b.amount ∧ fl.near (micros paid / micros b.amount) = true) ↔
        4 / 5 * micros m ≤ micros called ∧ micros called < micros m) := by
    intro called paid
    rw [Agrees, announced_iff (history_mem b called paid), history_spent, InBand, history_used, hm]
  rw [hm, micros_lt]
  constructor
  · intro h
    constructor
    · -- an expense is no call
      by_contra hlarge
      have hiff := (hpart 0 ((4 * b.amount + 4) / 5)).mp (h _ _ (history_mem b _ _))
      have hin := hiff.mp ⟨by omega, near_micros fl (by omega)⟩
      have hzero : micros ((0 : Nat) : Int) = 0 := micros_zero
      rw [hzero] at hin
      linarith [hin.1, hin.2]
    · -- a call is no expense before the cycle is settled
      by_contra hlarge
      have hiff := (hpart ((4 * m + 4) / 5) 0).mp (h _ _ (history_mem b _ _))
      have hnear := (hiff.mpr ⟨?_, ?_⟩).2
      · have hzero : micros ((0 : Nat) : Int) = 0 := micros_zero
        rw [hzero, zero_div, fl.near_below 0 (by norm_num)] at hnear
        cases hnear
      · exact four_fifths.mpr (by omega)
      · exact micros_lt.mpr (by omega)
  · rintro ⟨hsmall, hcap⟩ w cycle hb
    apply (agrees_iff_sameSide hb).mpr
    have hout : ¬ InBand w b wall := by
      intro hin
      obtain ⟨n, hn⟩ := used_whole w b wall.guard
      rw [InBand, hm, hn, four_fifths, micros_lt] at hin
      omega
    constructor
    · intro s cost hs hcost
      have hwhole := w.costs_whole s (mem_measuredFor hs) cost hcost
      rw [not_near_reread fl hsmall hwhole]
      exact iff_of_false nofun hout
    · intro _
      rw [not_near_small fl _ hsmall]
      exact iff_of_false nofun hout

/-- In any one state the two agree just where their figures are on the same side of the lines; a
settled budget is such a one; and none of five millionths or more is one over every history. -/
theorem same_wall_iff (fl : Floats) (wall : Wall) (b : HardBudget) :
    (∀ w cycle, b.row ∈ hardBudgets w cycle →
      (Agrees w b fl wall cycle ↔ SameSide w b fl wall cycle)) ∧
    (∀ w cycle, b.row ∈ hardBudgets w cycle → Settled w b fl wall cycle →
      Agrees w b fl wall cycle) ∧
    ((∀ w cycle, b.row ∈ hardBudgets w cycle → Agrees w b fl wall cycle) ↔
      b.amount < 5 ∧ wall.guard.metered b.row < micros 5) :=
  ⟨fun _ _ hb => agrees_iff_sameSide hb, fun _ _ hb hs => hs.agrees hb,
    agrees_always_iff fl wall b⟩

/-! A company's budget beside a business unit that cost nothing. -/

/-- Arithmetic without rounding. -/
def exactFloats : Floats where
  reread x := x
  near x := 4 / 5 ≤ x && x < 1
  reread_small _ _ := rfl
  reread_large _ h := h
  near_inside x h h' := by
    rw [Bool.and_eq_true, decide_eq_true_eq, decide_eq_true_eq]
    constructor
    · exact h
    · linarith
  near_below x h := by
    rw [Bool.and_eq_false_iff, decide_eq_false_iff_not]
    left
    linarith
  near_above x h := by
    rw [Bool.and_eq_false_iff, decide_eq_false_iff_not, decide_eq_false_iff_not]
    right
    linarith

/-- The base currency is the meter's. -/
def dollars : Wall where
  guard := ⟨15 * 60 * 1000000, fun b => micros ⌊b.amount * 1000000⌋.toNat, none⟩
  inBase q := q
  metered_whole b := ⟨_, rfl⟩
  metered_pos b h := by
    have hfloor : 0 < ⌊b.amount * 1000000⌋ := by
      have hn := micros_pos.mp h
      omega
    have hone : (1 : Rat) ≤ b.amount * 1000000 := by
      rw [← Int.cast_one]
      exact Int.le_floor.mp hfloor
    linarith

/-- Ten dollars for the company, in each cycle. -/
def tenDollars : HardBudget := ⟨1, .company, .cycle, 10000000, "USD"⟩

/-- Nine dollars of calls by a project without a business unit, in the cycle that is open; the
company was measured, and so was its one unit. -/
def nineSpent : Tables where
  meter := { (history tenDollars 9000000 0).meter with openCycle := fun _ => some 0 }
  transactions := []
  snapshots := [
    ⟨1, some 0, .company, none, none, some 9, 0, 100, 100⟩,
    ⟨1, some 0, .businessUnit, some 1, none, some 0, 0, 100, 100⟩]
  unitOf := fun _ => none
  calls_whole := (history tenDollars 9000000 0).calls_whole
  reservations_whole := (history tenDollars 9000000 0).reservations_whole
  costs_whole := by
    intro s hs x hx
    rcases List.mem_cons.mp hs with rfl | hs
    · cases hx
      exact ⟨9000000, by decide +kernel⟩
    · rw [List.mem_singleton.mp hs] at hx
      cases hx
      exact ⟨0, micros_zero.symm⟩

/-- The unit's figure stands for the company's: the guard has 90% of the budget, and nothing is
announced. -/
theorem unit_for_company : tenDollars.row ∈ hardBudgets nineSpent (firstCycle tenDollars) ∧
    InBand nineSpent tenDollars dollars ∧
    nearTheCap nineSpent exactFloats (firstCycle tenDollars)
      (hardBudgets nineSpent (firstCycle tenDollars)) = [] ∧
    ¬ Agrees nineSpent tenDollars exactFloats dollars (firstCycle tenDollars) := by
  have hmem : tenDollars.row ∈ hardBudgets nineSpent (firstCycle tenDollars) := by
    simp [hardBudgets, nineSpent, history, firstCycle, HardBudget.row, tenDollars]
  have hin : InBand nineSpent tenDollars dollars := by
    have hused : used nineSpent tenDollars dollars.guard = 9 := by decide +kernel
    have hcap : dollars.guard.metered tenDollars.row = 10 := by decide +kernel
    rw [InBand, hused, hcap]
    norm_num
  have hnone : nearTheCap nineSpent exactFloats (firstCycle tenDollars)
      (hardBudgets nineSpent (firstCycle tenDollars)) = [] := by
    have hlength : (nearTheCap nineSpent exactFloats (firstCycle tenDollars)
        (hardBudgets nineSpent (firstCycle tenDollars))).length = 0 := by decide +kernel
    exact List.length_eq_zero_iff.mp hlength
  refine ⟨hmem, hin, hnone, fun hagrees => ?_⟩
  obtain ⟨warning, hw, -⟩ := hagrees.mpr hin
  rw [hnone] at hw
  cases hw

end Autora.Warnings
