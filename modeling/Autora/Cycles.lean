import Autora.Lib.Systems
import Autora.Memberships

/-! The company's cycles, and the calls that are metered under them. -/

namespace Autora.Company

open Transactions Systems

def stageValue : CycleStage → String
  | .planning => "PLANNING"
  | .executing => "EXECUTING"
  | .measuring => "MEASURING"
  | .reviewing => "REVIEWING"
  | .done => "DONE"

/-- The next of `STAGE_ORDER`. -/
def nextStage : CycleStage → CycleStage
  | .planning => .executing
  | .executing => .measuring
  | .measuring => .reviewing
  | .reviewing => .done
  | .done => .done

/-- `open_cycle`: the last one that is not done. -/
def Books.openCycle (b : Books) (company : Id) : Option Cycle :=
  ((b.cycles.filter fun c => c.companyId = company && c.stage ≠ .done).mergeSort
    fun c c' => c'.seq ≤ c.seq).head?

def Books.lastSeq (b : Books) (company : Id) : Nat :=
  ((b.cycles.filter fun c => c.companyId = company).map Cycle.seq).foldr max 0

/-- `CycleRunner.start`. -/
def startCycle (company : Id) : Tx Cycle := do
  let b ← get
  match b.openCycle company with
  | some c =>
    throw (.cycle ("cycle " ++ toString c.seq ++ " is still open in " ++ stageValue c.stage))
  | none => do
    let id ← uuid7
    let cycle : Cycle := ⟨id, company, b.lastSeq company + 1, .planning, none⟩
    modify fun b => { b with cycles := b.cycles ++ [cycle] }
    emit (.cycleStarted id cycle.seq)
    pure cycle

/-- The hooks on the tables of money: memberships expire and the ledger settles on the
way into MEASURING. `locked` are the memberships another transaction holds. -/
def enterStage (locked : List Id) (cycle : Cycle) : Tx Unit :=
  match cycle.stage with
  | .measuring => do
    let b ← get
    expireDue cycle.companyId b.now locked
    let _ ← settleCycle cycle
    pure ()
  | _ => pure ()

def Books.setCycle (b : Books) (cycle : Cycle) : Books :=
  { b with cycles := b.cycles.map fun c => if c.id = cycle.id then cycle else c }

/-- The row of the next stage. -/
def Cycle.advanced (cycle : Cycle) (now : Time) : Cycle :=
  { cycle with
    stage := nextStage cycle.stage
    endedAt := if nextStage cycle.stage = .done then some now else cycle.endedAt }

/-- `_advance`. -/
def advance (locked : List Id) (cycle : Cycle) : Tx Cycle := do
  let b ← get
  let next := cycle.advanced b.now
  modify fun b => b.setCycle next
  emit (.cycleStageChanged cycle.id cycle.stage next.stage)
  if next.stage = .done then emit (.cycleCompleted cycle.id cycle.seq) else pure ()
  enterStage locked next
  pure next

/-- The loop of `tick`: `moves` says which stages are finished or overdue. The fuel is the
number of moves a cycle has in it. -/
def advanceWhile (locked : List Id) (moves : CycleStage → Bool) : Nat → Cycle → Tx Cycle
  | 0, cycle => pure cycle
  | n + 1, cycle =>
    if cycle.stage ≠ .done ∧ moves cycle.stage = true then do
      let next ← advance locked cycle
      advanceWhile locked moves n next
    else pure cycle

def tick (company : Id) (moves : CycleStage → Bool) (locked : List Id) : Tx (Option Cycle) := do
  let b ← get
  match b.openCycle company with
  | none => pure none
  | some cycle => do
    let moved ← advanceWhile locked moves 4 cycle
    pure (if moved.stage = cycle.stage then none else some moved)

/-- What the gateway knows of a call when it writes its row. -/
structure CallArgs where
  companyId : Id
  projectId : Option Id
  cycleId : Option Id
  status : ModelCallStatus
  costUsd : Money
  cost_nonneg : 0 ≤ costUsd

/-- `ModelGateway._record`. -/
def recordCall (a : CallArgs) : Tx Unit := do
  let id ← uuid7
  modify fun b => { b with modelCalls := b.modelCalls ++
    [⟨id, a.companyId, a.projectId, a.cycleId, a.status, a.costUsd, a.cost_nonneg⟩] }

/-! The company as a system. -/

inductive Act where
  | startCycle (company : Id)
  | tick (company : Id) (moves : CycleStage → Bool) (locked : List Id)
  | recordCall (a : CallArgs)
  | settleCycle (cycle : Cycle)
  | post (a : RecordArgs)

def Act.exec : Act → Tx Unit
  | .startCycle company => do
    let _ ← Company.startCycle company
    pure ()
  | .tick company moves locked => do
    let _ ← Company.tick company moves locked
    pure ()
  | .recordCall a => Company.recordCall a
  | .settleCycle cycle => do
    let _ ← Company.settleCycle cycle
    pure ()
  | .post a => do
    let _ ← record a
    pure ()

/-- A cycle is settled by its row; what else is posted has its own keys and categories. -/
def Act.Called (b : Books) : Act → Prop
  | .settleCycle cycle => cycle ∈ b.cycles
  | .post a => (∀ c p, a.idempotencyKey ≠ .cycleCost c p) ∧ a.category ≠ modelCost
  | _ => True

/-- No cycle was started, and nothing was metered or booked. -/
def Books.Unused (b : Books) : Prop := b.cycles = [] ∧ b.modelCalls = [] ∧ b.transactions = []

def operating : System Books Act where
  init := Books.Unused
  step b act b' := act.Called b ∧ b' = b.commit act.exec

end Autora.Company
