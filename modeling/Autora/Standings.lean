import Autora.Reserving
import Mathlib.Algebra.Order.Ring.Rat

/-! The guard's limits apart from the clock: whose rows a limit counts, and how its window moves. -/

namespace Autora.Models

open Transactions Refusals Systems

variable {guard : DbCostGuard} {m : Meter} {ctx ctx' : CallContext}

/-! ## The limits, apart from the clock -/

/-- A limit as it is written down: its window moves. -/
structure Standing where
  scope : Scope
  amount : Usd
  period : Option Period
  projectId : Option Id
  taskId : Option Id
  runId : Option Id

namespace Standing

variable (l : Standing)

def at_ (now : Time) (cycleStart : Option Time) : Limit :=
  ⟨l.scope, l.amount, l.period.map fun p => windowStart p now cycleStart, l.projectId, l.taskId,
    l.runId⟩

def start (now : Time) (cycleStart : Option Time) : Time :=
  match l.period with
  | none => 0
  | some p => windowStart p now cycleStart

/-- Whose rows count, whenever they were made. -/
def counts (company rowCompany : Id) (project task run : Option Id) : Bool :=
  (l.scope = .daily || rowCompany = company) && l.runId.all (fun i => run = some i) &&
    l.taskId.all (fun i => task = some i) && l.projectId.all (fun i => project = some i)

end Standing

def standing (guard : DbCostGuard) (m : Meter) (ctx : CallContext) : List Standing :=
  let hard := m.budgets.filter fun b => b.companyId = ctx.companyId ∧ b.hardCap = true
  let run := match ctx.agentId, ctx.runId with
    | some agent, some run => (m.perRun agent).toList.map fun x =>
        (⟨.run, x, none, none, none, some run⟩ : Standing)
    | _, _ => []
  let task := match ctx.taskId with
    | some task => (m.taskBudget task).toList.map fun x =>
        (⟨.task, x, none, none, some task, none⟩ : Standing)
    | none => []
  let project := match ctx.projectId with
    | some project => (hard.filter (·.projectId = some project)).map fun b =>
        (⟨.project, guard.metered b, some b.period, some project, none, none⟩ : Standing)
    | none => []
  let company := (hard.filter fun b => b.projectId = none ∧ b.businessUnitId = none).map fun b =>
    (⟨.company, guard.metered b, some b.period, none, none, none⟩ : Standing)
  let daily := (guard.dailyCapUsd.filter (· ≠ 0)).toList.map fun x =>
    (⟨.daily, x, some .day, none, none, none⟩ : Standing)
  run ++ task ++ project ++ company ++ daily

theorem limits_eq (request : ModelRequest) :
    limits guard m request = (standing guard m request.context).map
      (·.at_ m.now (m.openCycle request.context.companyId)) := by
  simp only [limits, standing, List.map_append, List.map_map]
  congr 1
  · congr 1
    · congr 1
      · congr 1
        · cases request.context.agentId with
          | none => rfl
          | some agent =>
            cases request.context.runId with
            | none => rfl
            | some run => simp only [List.map_map]; rfl
        · cases request.context.taskId with
          | none => rfl
          | some task => simp only [List.map_map]; rfl
      · cases request.context.projectId with
        | none => rfl
        | some project => simp only [List.map_map]; rfl

/-- A limit counts the rows of its own whose time its window has reached. -/
theorem scoped_at {l : Standing} {now : Time} {cycleStart : Option Time}
    {company rowCompany : Id} {project task run : Option Id} {createdAt : Time} :
    (l.at_ now cycleStart).scoped company rowCompany project task run createdAt =
      (l.counts company rowCompany project task run &&
        decide (l.start now cycleStart ≤ createdAt)) := by
  cases hp : l.period <;> simp [Standing.at_, Limit.scoped, Standing.counts, Standing.start, hp]

theorem windowStart_at {l : Standing} {now createdAt : Time} {cycleStart : Option Time} :
    (l.at_ now cycleStart).windowStart.all (· ≤ createdAt) =
      decide (l.start now cycleStart ≤ createdAt) := by
  cases hp : l.period <;> simp [Standing.at_, Standing.start, hp]

/-! ## The windows -/

theorem windowStart_mono {p : Period} {now now' : Time} (h : now ≤ now')
    (cycleStart : Option Time) : windowStart p now cycleStart ≤ windowStart p now' cycleStart := by
  have hday : now / microsPerDay ≤ now' / microsPerDay := Nat.div_le_div_right h
  have hmonth : (Calendars.monthOf (now / microsPerDay)).firstDay ≤
      (Calendars.monthOf (now' / microsPerDay)).firstDay := Calendars.walk_firstDay_mono hday hday
  have hmidnight : now / microsPerDay * microsPerDay ≤ now' / microsPerDay * microsPerDay :=
    Nat.mul_le_mul_right microsPerDay hday
  cases p with
  | cycle =>
    cases cycleStart with
    | none =>
      simp only [windowStart, Option.getD_none]
      exact hmidnight
    | some start =>
      simp only [windowStart, Option.getD_some]
      exact Nat.le_refl start
  | day => simpa only [windowStart] using hmidnight
  | month => simpa only [windowStart] using Nat.mul_le_mul_right microsPerDay hmonth

theorem Standing.start_mono {l : Standing} {now now' : Time} (h : now ≤ now')
    (cycleStart : Option Time) : l.start now cycleStart ≤ l.start now' cycleStart := by
  unfold Standing.start
  cases l.period with
  | none => exact le_rfl
  | some p => exact windowStart_mono h cycleStart

/-! ## Whose limits -/

/-- What makes a limit one of a call's own. -/
inductive Stands (guard : DbCostGuard) (m : Meter) (ctx : CallContext) : Standing → Prop
  | run {agent run : Id} {x : Usd} (hagent : ctx.agentId = some agent) (hrun : ctx.runId = some run)
      (hx : m.perRun agent = some x) : Stands guard m ctx ⟨.run, x, none, none, none, some run⟩
  | task {task : Id} {x : Usd} (htask : ctx.taskId = some task) (hx : m.taskBudget task = some x) :
      Stands guard m ctx ⟨.task, x, none, none, some task, none⟩
  | project {project : Id} {b : Budget} (hproject : ctx.projectId = some project)
      (hb : b ∈ m.budgets) (hcompany : b.companyId = ctx.companyId) (hhard : b.hardCap = true)
      (hown : b.projectId = some project) :
      Stands guard m ctx ⟨.project, guard.metered b, some b.period, some project, none, none⟩
  | company {b : Budget} (hb : b ∈ m.budgets) (hcompany : b.companyId = ctx.companyId)
      (hhard : b.hardCap = true) (hproject : b.projectId = none) (hunit : b.businessUnitId = none) :
      Stands guard m ctx ⟨.company, guard.metered b, some b.period, none, none, none⟩
  | daily {x : Usd} (hx : guard.dailyCapUsd.filter (· ≠ 0) = some x) :
      Stands guard m ctx ⟨.daily, x, some .day, none, none, none⟩

theorem Stands.of_mem {l : Standing} (h : l ∈ standing guard m ctx) : Stands guard m ctx l := by
  simp only [standing, List.mem_append] at h
  rcases h with (((h | h) | h) | h) | h
  · cases hagent : ctx.agentId with
    | none => simp [hagent] at h
    | some agent =>
      cases hrun : ctx.runId with
      | none => simp [hagent, hrun] at h
      | some run =>
        simp only [hagent, hrun, List.mem_map, Option.mem_toList] at h
        obtain ⟨x, hx, rfl⟩ := h
        exact .run hagent hrun hx
  · cases htask : ctx.taskId with
    | none => simp [htask] at h
    | some task =>
      simp only [htask, List.mem_map, Option.mem_toList] at h
      obtain ⟨x, hx, rfl⟩ := h
      exact .task htask hx
  · cases hproject : ctx.projectId with
    | none => simp [hproject] at h
    | some project =>
      simp only [hproject, List.mem_map, List.mem_filter, decide_eq_true_eq] at h
      obtain ⟨b, ⟨⟨hb, hcompany, hhard⟩, hown⟩, rfl⟩ := h
      exact .project hproject hb hcompany hhard hown
  · simp only [List.mem_map, List.mem_filter, decide_eq_true_eq] at h
    obtain ⟨b, ⟨⟨hb, hcompany, hhard⟩, hproject, hunit⟩, rfl⟩ := h
    exact .company hb hcompany hhard hproject hunit
  · simp only [List.mem_map, Option.mem_toList] at h
    obtain ⟨x, hx, rfl⟩ := h
    exact .daily hx

theorem Stands.mem {l : Standing} (h : Stands guard m ctx l) : l ∈ standing guard m ctx := by
  simp only [standing, List.mem_append]
  cases h with
  | run hagent hrun hx =>
    refine .inl (.inl (.inl (.inl ?_)))
    simp [hagent, hrun, hx]
  | task htask hx =>
    refine .inl (.inl (.inl (.inr ?_)))
    simp [htask, hx]
  | @project project b hproject hb hcompany hhard hown =>
    refine .inl (.inl (.inr ?_))
    simp only [hproject, List.mem_map, List.mem_filter, decide_eq_true_eq]
    exact ⟨b, ⟨⟨hb, hcompany, hhard⟩, hown⟩, rfl⟩
  | @company b hb hcompany hhard hproject hunit =>
    refine .inl (.inr ?_)
    simp only [List.mem_map, List.mem_filter, decide_eq_true_eq]
    exact ⟨b, ⟨⟨hb, hcompany, hhard⟩, hproject, hunit⟩, rfl⟩
  | daily hx =>
    refine .inr ?_
    simp only [List.mem_map, Option.mem_toList]
    exact ⟨_, hx, rfl⟩

/-- A run is one agent's. -/
def Proper (agentOf : Id → Option Id) (ctx : CallContext) : Prop :=
  ∀ run, ctx.runId = some run → ctx.agentId = agentOf run

theorem Standing.counts_company {l : Standing} (hl : l.scope ≠ .daily)
    {company rowCompany : Id} {project task run : Option Id}
    (h : l.counts company rowCompany project task run = true) : rowCompany = company := by
  simp only [Standing.counts, Bool.and_eq_true, Bool.or_eq_true, decide_eq_true_eq] at h
  exact h.1.1.1.resolve_left hl

/-- Whoever makes a row that a limit counts has checked the limit too. -/
theorem standing_of_counts {agentOf : Id → Option Id} (hp : Proper agentOf ctx)
    (hp' : Proper agentOf ctx') {l : Standing} (hl : l ∈ standing guard m ctx)
    (hc : l.counts ctx.companyId ctx'.companyId ctx'.projectId ctx'.taskId ctx'.runId = true) :
    l ∈ standing guard m ctx' := by
  refine Stands.mem ?_
  cases Stands.of_mem hl with
  | @run agent run x hagent hrun hx =>
    have hrow : ctx'.companyId = ctx.companyId ∧ ctx'.runId = some run := by
      simpa [Standing.counts] using hc
    have hagent' : ctx'.agentId = some agent := by
      rw [hp' run hrow.2, ← hp run hrun, hagent]
    exact .run hagent' hrow.2 hx
  | @task task x htask hx =>
    have hrow : ctx'.companyId = ctx.companyId ∧ ctx'.taskId = some task := by
      simpa [Standing.counts] using hc
    exact .task hrow.2 hx
  | @project project b hproject hb hcompany hhard hown =>
    have hrow : ctx'.companyId = ctx.companyId ∧ ctx'.projectId = some project := by
      simpa [Standing.counts] using hc
    exact .project hrow.2 hb (hcompany.trans hrow.1.symm) hhard hown
  | @company b hb hcompany hhard hproject hunit =>
    have hrow := Standing.counts_company (by simp) hc
    exact .company hb (hcompany.trans hrow.symm) hhard hproject hunit
  | daily hx => exact .daily hx

-- the daily window does not ask whose cycle is open
theorem start_of_counts {l : Standing} (hl : l ∈ standing guard m ctx)
    {project task run : Option Id} {now : Time}
    (hc : l.counts ctx.companyId ctx'.companyId project task run = true) :
    l.start now (m.openCycle ctx.companyId) = l.start now (m.openCycle ctx'.companyId) := by
  cases Stands.of_mem hl with
  | run hagent hrun hx => rfl
  | task htask hx => rfl
  | project hproject hb hcompany hhard hown => rw [Standing.counts_company (by simp) hc]
  | company hb hcompany hhard hproject hunit => rw [Standing.counts_company (by simp) hc]
  | daily hx => rfl

/-! ## What counts now -/

/-- What a limit counts, in the window it has now. -/
def used (guard : DbCostGuard) (m : Meter) (ctx : CallContext) (l : Standing) : Usd :=
  spent guard m ctx.companyId (l.at_ m.now (m.openCycle ctx.companyId))

/-- The rows of the meter: nothing in them is negative, and no id is used twice. -/
structure Meter.Kept (m : Meter) : Prop where
  costs : ∀ c ∈ m.calls, 0 ≤ c.costUsd
  amounts : ∀ r ∈ m.reservations, 0 ≤ r.amount
  fresh : ∀ r ∈ m.reservations, r.id < m.nextId
  ids : (m.reservations.map (·.id)).Nodup

section Windows

variable {l : Standing} {company : Id} {now now' : Time} {cycleStart cycleStart' : Option Time}

theorem recorded_le (hm : m.Kept) (h : l.start now cycleStart ≤ l.start now' cycleStart') :
    recorded m company (l.at_ now' cycleStart') ≤ recorded m company (l.at_ now cycleStart) := by
  refine Totals.total_le_total hm.costs fun c _ hc => ?_
  simp only [scoped_at, Bool.and_eq_true, decide_eq_true_eq] at hc ⊢
  exact ⟨hc.1, hc.2.1, h.trans hc.2.2⟩

theorem inFlight_le (hm : m.Kept) {t t' : Time} (ht : t ≤ t')
    (h : l.start now cycleStart ≤ l.start now' cycleStart') :
    inFlight guard m t' company (l.at_ now' cycleStart') ≤
      inFlight guard m t company (l.at_ now cycleStart) := by
  refine Totals.total_le_total hm.amounts fun r _ hr => ?_
  simp only [scoped_at, Bool.and_eq_true, decide_eq_true_eq] at hr ⊢
  exact ⟨⟨hr.1.1, ht.trans hr.1.2⟩, hr.2.1, h.trans hr.2.2⟩

end Windows

end Autora.Models
