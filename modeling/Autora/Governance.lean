import Autora.Events

/-! `Governance.review`: the rules a company applies to itself before its review. -/

namespace Autora.Governance

/-- A JSON value, as Python holds it. A number too large for a float is an infinity. -/
inductive Value where
  | null
  | bool (b : Bool)
  | int (n : Int)
  | float (q : Rat)
  | inf (negative : Bool)
  | str (text : String)
  | list (xs : List Value)
  | dict (kvs : List (String × Value))

inductive Op where
  | gt | ge | lt | le | eq | ne
  deriving DecidableEq, Repr

/-- `OPS`. -/
def Op.read : String → Option Op
  | ">" => some .gt
  | ">=" => some .ge
  | "<" => some .lt
  | "<=" => some .le
  | "==" => some .eq
  | "!=" => some .ne
  | _ => none

/-- Python's numbers and the database driver. -/
structure Platform (F : Type) where
  ofInt : Int → F
  ofRat : Rat → F
  inf : Bool → F
  /-- `float(Decimal(text))`; none when the text is no decimal. -/
  readFloat : String → Option F
  /-- `int(text)`. -/
  readInt : String → Option Int
  holds : Op → F → F → Bool
  /-- The largest `LIMIT` the driver passes on. -/
  maxLimit : Int
  /-- What is spent, over the cap. -/
  measuredRatio : F → Rat → F
  ledgerRatio : Rat → Rat → F
  /-- Below `WARN_AT`, or at the cap and over it. -/
  quiet : F → Bool
  /-- `int(ratio * 100)`; none when the ratio is no number. -/
  percent : F → Option Int

inductive Raised where
  | attributeError
  | typeError
  | valueError
  | overflowError
  | indexError
  | databaseError
  deriving DecidableEq, Repr

namespace Value

/-- `bool(value)`. -/
def truthy : Value → Bool
  | null => false
  | bool b => b
  | int n => n ≠ 0
  | float q => q ≠ 0
  | inf _ => true
  | str text => text ≠ ""
  | list xs => !xs.isEmpty
  | dict kvs => !kvs.isEmpty

def hashable : Value → Bool
  | list _ => false
  | dict _ => false
  | _ => true

/-- `int(value)`: a float loses its fraction. -/
def toInt {F : Type} (pf : Platform F) : Value → Except Raised Int
  | null => .error .typeError
  | bool b => .ok (if b then 1 else 0)
  | int n => .ok n
  | float q => .ok (q.num.tdiv q.den)
  | inf _ => .error .overflowError
  | str text => match pf.readInt text with
    | some n => .ok n
    | none => .error .valueError
  | list _ => .error .typeError
  | dict _ => .error .typeError

/-- `_number`. -/
def number {F : Type} (pf : Platform F) : Value → Option F
  | int n => some (pf.ofInt n)
  | float q => some (pf.ofRat q)
  | inf negative => some (pf.inf negative)
  | str text => pf.readFloat text
  | _ => none

end Value

abbrev Rule := List (String × Value)

/-- `rule.get(key)`. -/
def Rule.get (rule : Rule) (key : String) : Value := (rule.lookup key).getD .null

inductive ProjectState where
  | proposed | approved | active | paused | killed | completed | rejected
  deriving DecidableEq, Repr

inductive BusinessUnitState where
  | proposed | active | paused | woundDown
  deriving DecidableEq, Repr

inductive AgentStatus where
  | active | paused | retired
  deriving DecidableEq, Repr

structure Project where
  companyId : Id
  state : ProjectState
  businessUnitId : Option Id
  killCriteria : Option Value

structure BusinessUnit where
  companyId : Id
  state : BusinessUnitState
  killCriteria : Option Value

structure AgentRun where
  failed : Bool
  errorClass : String
  deriving DecidableEq, Repr

/-- An agent with its runs, newest first. -/
structure Agent where
  companyId : Id
  status : AgentStatus
  runs : List AgentRun
  deriving DecidableEq, Repr

inductive Scope where
  | project (id : Id)
  | businessUnit (id : Id)
  deriving DecidableEq, Repr

structure KpiSnapshot where
  companyId : Id
  cycleId : Option Id
  scope : Scope
  metrics : Rule

/-- A budget with a hard cap, and what the ledger says was spent of it in its window. -/
structure Budget where
  companyId : Id
  projectId : Option Id
  businessUnitId : Option Id
  amount : Rat
  spent : Rat
  deriving DecidableEq, Repr

structure Cycle where
  id : Id
  companyId : Id
  seq : Int
  deriving DecidableEq, Repr

/-- What a rule pauses through the command bus. -/
inductive Target where
  | project (id : Id)
  | agent (id : Id)
  deriving DecidableEq, Repr

structure Breach (F : Type) where
  scope : Scope
  metric : Value
  op : Op
  threshold : F
  observed : F
  cycles : Int

structure Governed (F : Type) where
  pausedProjects : List Id := []
  pausedUnits : List Id := []
  pausedAgents : List Id := []
  warnings : List Int := []
  breaches : List (Breach F) := []
  checkedProjects : Nat := 0
  checkedUnits : Nat := 0
  checkedAgents : Nat := 0
  checkedBudgets : Nat := 0

/-- A row's id is its place in its table; the snapshots are in the order the queries return
them, newest first. `commands`: the auto-pause commands there are, by the cycle and the target
of their keys, and whether they were done. -/
structure Company (F : Type) where
  projects : List Project
  units : List BusinessUnit
  agents : List Agent
  snapshots : List KpiSnapshot
  budgets : List Budget
  commands : List ((Id × Target) × Bool)
  governance : Id → Option (Governed F)

variable {F : Type} (pf : Platform F) (cycle : Cycle)

def failuresBeforePause : Nat := 3

def notTheAgentsFault : List String :=
  ["ProviderError", "LeaseExpired", "BudgetExhausted", "Aborted:"]

/-! What its own criteria said. -/

/-- The measurements of one scope, newest first. -/
def measurements (snapshots : List KpiSnapshot) (company : Id) (scope : Scope) :
    List KpiSnapshot :=
  snapshots.filter fun s => s.companyId = company ∧ s.scope = scope

/-- `history`: a limit the driver does not take raises. -/
def history (snapshots : List KpiSnapshot) (scope : Scope) (limit : Int) :
    Except Raised (List KpiSnapshot) :=
  if limit < 0 ∨ pf.maxLimit < limit then .error .databaseError
  else .ok ((measurements snapshots cycle.companyId scope).take limit.toNat)

/-- `row.metrics.get(metric)`: the keys are texts, and a list or an object is no key at all. -/
def metricOf (metric : Value) (row : KpiSnapshot) : Except Raised (Option F) :=
  match metric with
  | .list _ => .error .typeError
  | .dict _ => .error .typeError
  | .str name => .ok ((Rule.get row.metrics name).number pf)
  | _ => .ok none

/-- `int(rule.get("consecutive_cycles", 1) or 1)`. -/
def consecutiveCycles (rule : Rule) : Except Raised Int :=
  match rule.lookup "consecutive_cycles" with
  | none => .ok 1
  | some v => if v.truthy then v.toInt pf else .ok 1

def tooEarly (criteria : Rule) : Bool :=
  match criteria.lookup "evaluate_after_cycles" with
  | some (.int n) => cycle.seq < n
  | some (.bool b) => cycle.seq < if b then 1 else 0
  | _ => false

/-- What is decided from the values that were measured. -/
def verdict (scope : Scope) (rule : Rule) (op : Op) (needed : Int) (values : List (Option F)) :
    Except Raised (Option (Breach F)) :=
  if (values.length : Int) < needed ∨ values.any Option.isNone then .ok none
  else match (Rule.get rule "value").number pf with
    | none => .ok none
    | some limit =>
      if values.all fun v => v.any fun x => pf.holds op x limit then
        match values.head?.join with
        | none => .error .indexError
        | some observed => .ok (some ⟨scope, Rule.get rule "metric", op, limit, observed, needed⟩)
      else .ok none

/-- The criterion against the last measurements. -/
def measure (snapshots : List KpiSnapshot) (scope : Scope) (rule : Rule) (op : Op) :
    Except Raised (Option (Breach F)) := do
  let needed ← consecutiveCycles pf rule
  let rows ← history pf cycle snapshots scope needed
  let values ← rows.mapM (metricOf pf (Rule.get rule "metric"))
  verdict pf scope rule op needed values

def readRule (snapshots : List KpiSnapshot) (scope : Scope) (rule : Rule) :
    Except Raised (Option (Breach F)) :=
  if (Rule.get rule "metric").truthy then
    match Rule.get rule "op" with
    | .list _ => .error .typeError
    | .dict _ => .error .typeError
    | .str text => match Op.read text with
      | some op => measure pf cycle snapshots scope rule op
      | none => .ok none
    | _ => .ok none
  else .ok none

/-- `(criteria or {})`, of which a key is asked. -/
def readCriteria : Option Value → Except Raised Rule
  | none => .ok []
  | some (.dict kvs) => .ok kvs
  | some v => if v.truthy then .error .attributeError else .ok []

/-- `_breached`. -/
def breached (snapshots : List KpiSnapshot) (scope : Scope) (criteria : Option Value) :
    Except Raised (Option (Breach F)) := do
  let criteria ← readCriteria criteria
  match criteria.lookup "auto_pause_if" with
  | some (.dict rule) =>
    if tooEarly cycle criteria then pure none else readRule pf cycle snapshots scope rule
  | _ => pure none

/-- A command submitted under a key of the cycle: it runs once, and is answered from its
record after that. -/
def submit (w : Company F) (target : Target) (run : Company F → Option (Company F)) :
    Company F × Bool :=
  match w.commands.lookup (cycle.id, target) with
  | some done => (w, done)
  | none => match run w with
    | some t => ({ t with commands := t.commands ++ [((cycle.id, target), true)] }, true)
    | none => ({ w with commands := w.commands ++ [((cycle.id, target), false)] }, false)

/-- The handler of `PauseProject`; none when it refuses. -/
def pauseProjectHandler (id : Id) (w : Company F) : Option (Company F) :=
  match w.projects[id]? with
  | some p =>
    if p.companyId = cycle.companyId ∧ p.state = .active then
      some { w with projects := w.projects.set id { p with state := .paused } }
    else none
  | none => none

/-- `_pause_project`. -/
def pauseProject (id : Id) (w : Company F) : Company F × Bool :=
  if w.projects[id]?.any fun p => p.state = .active then
    submit cycle w (.project id) (pauseProjectHandler cycle id)
  else (w, false)

def activeProjects (w : Company F) : List (Id × Project) :=
  w.projects.zipIdx.filterMap fun (p, i) =>
    if p.companyId = cycle.companyId ∧ p.state = .active then some (i, p) else none

def activeUnits (w : Company F) : List (Id × BusinessUnit) :=
  w.units.zipIdx.filterMap fun (u, i) =>
    if u.companyId = cycle.companyId ∧ u.state = .active then some (i, u) else none

def activeAgents (w : Company F) : List (Id × Agent) :=
  w.agents.zipIdx.filterMap fun (a, i) =>
    if a.companyId = cycle.companyId ∧ a.status = .active then some (i, a) else none

abbrev State (F : Type) := Company F × Governed F

def judgeProjects : List (Id × Project) → State F → Except Raised (State F)
  | [], s => .ok s
  | (i, p) :: rest, (w, done) => do
    match ← breached pf cycle w.snapshots (.project i) p.killCriteria with
    | none => judgeProjects rest (w, done)
    | some breach =>
      let (w, paused) := pauseProject cycle i w
      judgeProjects rest (w, { done with
        breaches := done.breaches ++ [breach]
        pausedProjects := if paused then done.pausedProjects ++ [i] else done.pausedProjects })

/-- The projects of a business stop with it. -/
def pauseWith (unit : Id) : List (Id × Project) → State F → State F
  | [], s => s
  | (i, p) :: rest, (w, done) =>
    if p.businessUnitId = some unit ∧ i ∉ done.pausedProjects then
      let (w, paused) := pauseProject cycle i w
      pauseWith unit rest (w, { done with
        pausedProjects := if paused then done.pausedProjects ++ [i] else done.pausedProjects })
    else pauseWith unit rest (w, done)

def pauseUnit (id : Id) (w : Company F) : Company F :=
  { w with units := w.units.modify id fun u => { u with state := .paused } }

def judgeUnits (projects : List (Id × Project)) :
    List (Id × BusinessUnit) → State F → Except Raised (State F)
  | [], s => .ok s
  | (i, u) :: rest, (w, done) => do
    match ← breached pf cycle w.snapshots (.businessUnit i) u.killCriteria with
    | none => judgeUnits projects rest (w, done)
    | some breach =>
      judgeUnits projects rest (pauseWith cycle i projects (pauseUnit i w, { done with
        breaches := done.breaches ++ [breach]
        pausedUnits := done.pausedUnits ++ [i] }))

def killCriteria (s : State F) : Except Raised (State F) := do
  let projects := activeProjects cycle s.1
  let (w, done) ← judgeProjects pf cycle projects
    (s.1, { s.2 with checkedProjects := projects.length })
  let units := activeUnits cycle w
  judgeUnits pf cycle projects units (w, { done with checkedUnits := units.length })

/-! An agent that keeps failing. -/

def isInfrastructure (run : AgentRun) : Bool :=
  notTheAgentsFault.any fun fault => fault.isPrefixOf run.errorClass

/-- The most recent runs that judge the agent. -/
def runsThatJudge (agent : Agent) : List AgentRun :=
  ((agent.runs.take (failuresBeforePause * 4)).filter
    fun r => !(r.failed && isInfrastructure r)).take failuresBeforePause

def keepsFailing (agent : Agent) : Bool :=
  (runsThatJudge agent).length = failuresBeforePause ∧ (runsThatJudge agent).all AgentRun.failed

/-- The handler of `PauseAgent`. -/
def pauseAgentHandler (id : Id) (w : Company F) : Option (Company F) :=
  match w.agents[id]? with
  | some a =>
    if a.companyId = cycle.companyId ∧ a.status = .active then
      some { w with agents := w.agents.set id { a with status := .paused } }
    else none
  | none => none

def pauseFailing : List (Id × Agent) → State F → State F
  | [], s => s
  | (i, a) :: rest, (w, done) =>
    if keepsFailing a then
      let (w, paused) := submit cycle w (.agent i) (pauseAgentHandler cycle i)
      pauseFailing rest (w, { done with
        pausedAgents := if paused then done.pausedAgents ++ [i] else done.pausedAgents })
    else pauseFailing rest (w, done)

/-- `_failing_agents`. -/
def failingAgents (s : State F) : State F :=
  let agents := activeAgents cycle s.1
  pauseFailing cycle agents (s.1, { s.2 with checkedAgents := agents.length })

/-! Spending near a cap. -/

def Budget.measuredBy (budget : Budget) (scope : Scope) : Bool :=
  match budget.projectId, budget.businessUnitId, scope with
  | some p, none, .project i => i = p
  | none, some u, .businessUnit i => i = u
  | none, none, .businessUnit _ => true
  | _, _, _ => false

/-- The newest measurement of the budget's scope: of any business, for the company's own. -/
def latest (snapshots : List KpiSnapshot) (budget : Budget) : Option KpiSnapshot :=
  snapshots.find? fun s => s.companyId = cycle.companyId ∧ budget.measuredBy s.scope

def ratio (snapshots : List KpiSnapshot) (budget : Budget) : F :=
  let measured := (latest cycle snapshots budget).bind fun s =>
    if s.cycleId = some cycle.id then (Rule.get s.metrics "cost").number pf else none
  match measured with
  | some cost => pf.measuredRatio cost budget.amount
  | none => pf.ledgerRatio budget.spent budget.amount

def announce : List Budget → State F → Except Raised (State F)
  | [], s => .ok s
  | b :: rest, (w, done) =>
    if b.amount ≤ 0 ∨ pf.quiet (ratio pf cycle w.snapshots b) then announce rest (w, done)
    else match pf.percent (ratio pf cycle w.snapshots b) with
      | none => .error .valueError
      | some percent => announce rest (w, { done with warnings := done.warnings ++ [percent] })

def companyBudgets (w : Company F) : List Budget :=
  w.budgets.filter fun b => b.companyId = cycle.companyId

/-- `_near_the_cap`. -/
def nearTheCap (s : State F) : Except Raised (State F) :=
  let budgets := companyBudgets cycle s.1
  announce pf cycle budgets (s.1, { s.2 with checkedBudgets := budgets.length })

/-- `cycle.governance = done.as_record()`. -/
def recordGoverned (s : State F) : Company F :=
  { s.1 with governance := fun c => if c = cycle.id then some s.2 else s.1.governance c }

/-- `Governance.review`. -/
def review (w : Company F) : Except Raised (Company F) := do
  let s ← killCriteria pf cycle (w, {})
  let s ← nearTheCap pf cycle (failingAgents cycle s)
  pure (recordGoverned cycle s)

end Autora.Governance
