import Autora.Lib.Forests
import Autora.Reducer

/-! The organisation of a company: its businesses, departments, positions and the agents in them,
and where the office draws each agent. -/

namespace Autora.Organization

open Systems

structure BusinessUnit where
  id : Id
  companyId : Id
  key : String
  name : String
  deriving DecidableEq, Repr

structure Department where
  id : Id
  companyId : Id
  businessUnitId : Option Id
  parentDepartmentId : Option Id
  key : String
  name : String
  officeZoneKey : Option String
  deriving DecidableEq, Repr

structure Role where
  id : Id
  companyId : Id
  departmentId : Id
  key : String
  title : String
  /-- `defaults["capabilities"]` -/
  capabilities : List String
  deriving DecidableEq, Repr

structure Product where
  id : Id
  companyId : Id
  businessUnitId : Id
  key : String
  name : String
  deriving DecidableEq, Repr

structure Agent where
  id : Id
  companyId : Id
  role : String
  roleId : Option Id
  departmentId : Option Id
  displayName : String
  avatarKey : String
  status : AgentStatus
  deriving DecidableEq, Repr

/-- An event about an agent. -/
structure Notice where
  companyId : Id
  agentId : Id
  payload : Payload

/-- The tables, and the events that say who works where. -/
structure Org where
  units : List BusinessUnit
  departments : List Department
  roles : List Role
  products : List Product
  agents : List Agent
  events : List Notice

inductive OrgError where
  | duplicateKey (what key : String)
  | unknownDepartment (id : Id)
  | unknownUnit (id : Id)
  | contradiction (key parent : String) (unit : Option Id) (given : Id)
  /-- a role of another company -/
  | wrongCompany
  | wrongRole (role position : String)
  /-- the agent has left the company -/
  | gone (displayName : String)
  | busy (displayName : String)
  /-- a row the database refuses: a primary key, a unique name or a pattern -/
  | integrity
  deriving DecidableEq, Repr

-- KEY_PATTERN
def isKey (key : String) : Bool :=
  match key.toList with
  | [] => false
  | c :: cs => c.isLower && cs.all fun c => c.isLower || c.isDigit || c == '_'

namespace Org

def unit (org : Org) (id : Id) : Option BusinessUnit := org.units.find? fun u => u.id = id

def department (org : Org) (id : Id) : Option Department := org.departments.find? fun d => d.id = id

def role (org : Org) (id : Id) : Option Role := org.roles.find? fun r => r.id = id

def agent (org : Org) (id : Id) : Option Agent := org.agents.find? fun a => a.id = id

/-! ## Where a department is -/

/-- `a or b`, of strings. -/
def orKey (a b : Option String) : Option String :=
  match a with
  | some key => if key = "" then b else some key
  | none => b

/-- The loop of `placement`: up the parents while the zone or the business is missing. -/
def climb (org : Org) : Nat → List Id → Option String → Option Id → Option Id →
    Option String × Option Id
  | 0, _, zone, unit, _ => (zone, unit)
  | n + 1, seen, zone, unit, parentId =>
    match parentId with
    | none => (zone, unit)
    | some id =>
      if zone.isSome && unit.isSome || seen.contains id then (zone, unit)
      else match org.department id with
        | none => (zone, unit)
        | some parent => org.climb n (id :: seen) (orKey zone parent.officeZoneKey)
            (unit.or parent.businessUnitId) parent.parentDepartmentId

/-- `placement`, with the department's id as the events have it. -/
def placement (org : Org) (department : Option Department) : Placement :=
  match department with
  | none => ⟨none, none, none, none⟩
  | some d =>
    let (zone, unit) := org.climb (org.departments.length + 1) [d.id] d.officeZoneKey
      d.businessUnitId d.parentDepartmentId
    ⟨some d.id, some d.key, zone, (unit.bind org.unit).map BusinessUnit.key⟩

/-- What the snapshot's query gives for an agent: its department joined with that one's parent. -/
def projected (org : Org) (a : Agent) : Placement :=
  let department := a.departmentId.bind org.department
  let parent := (department.bind Department.parentDepartmentId).bind org.department
  let unit := (department.bind Department.businessUnitId).or (parent.bind Department.businessUnitId)
  { departmentId := a.departmentId
    departmentKey := department.map Department.key
    officeZoneKey := orKey (department.bind Department.officeZoneKey)
      (parent.bind Department.officeZoneKey)
    businessUnitKey := (unit.bind fun id => org.units.find? fun u =>
      u.companyId = a.companyId ∧ u.id = id).map BusinessUnit.key }

/-! ## Building -/

/-- `_unit`. -/
def checkUnit (org : Org) (companyId id : Id) : Except OrgError Unit :=
  match org.unit id with
  | some u => if u.companyId = companyId then .ok () else .error (.unknownUnit id)
  | none => .error (.unknownUnit id)

def checkDepartment (org : Org) (companyId id : Id) : Except OrgError Department :=
  match org.department id with
  | some d => if d.companyId = companyId then .ok d else .error (.unknownDepartment id)
  | none => .error (.unknownDepartment id)

def addBusinessUnit (org : Org) (unit : BusinessUnit) : Except OrgError Org :=
  if org.units.any fun u => u.companyId = unit.companyId && u.key = unit.key then
    .error (.duplicateKey "business unit" unit.key)
  else if (org.unit unit.id).isSome || !isKey unit.key then .error .integrity
  else .ok { org with units := org.units ++ [unit] }

/-- The business of a new department: its parent's, which may not be contradicted. -/
def unitFor (org : Org) (companyId : Id) (key : String) (businessUnitId : Option Id) :
    Option Id → Except OrgError (Option Id)
  | none => .ok businessUnitId
  | some id => do
    let parent ← org.checkDepartment companyId id
    match businessUnitId with
    | none => .ok parent.businessUnitId
    | some given =>
      if parent.businessUnitId = some given then .ok parent.businessUnitId
      else .error (.contradiction key parent.key parent.businessUnitId given)

def checkServes (org : Org) (companyId : Id) : Option Id → Except OrgError Unit
  | none => .ok ()
  | some id => org.checkUnit companyId id

def insertDepartment (org : Org) (department : Department) : Except OrgError Org :=
  if (org.department department.id).isSome || !isKey department.key then .error .integrity
  else .ok { org with departments := org.departments ++ [department] }

def addDepartment (org : Org) (department : Department) : Except OrgError Org :=
  if org.departments.any fun d => d.companyId = department.companyId && d.key = department.key then
    .error (.duplicateKey "department" department.key)
  else do
    let unit ← org.unitFor department.companyId department.key department.businessUnitId
      department.parentDepartmentId
    org.checkServes department.companyId unit
    org.insertDepartment { department with
      businessUnitId := unit
      officeZoneKey := orKey department.officeZoneKey (some department.key) }

def addRole (org : Org) (role : Role) : Except OrgError Org :=
  if org.roles.any fun r => r.companyId = role.companyId && r.key = role.key then
    .error (.duplicateKey "role" role.key)
  else do
    let _ ← org.checkDepartment role.companyId role.departmentId
    if (org.role role.id).isSome || !isKey role.key then .error .integrity
    else .ok { org with roles := org.roles ++ [role] }

def addProduct (org : Org) (product : Product) : Except OrgError Org :=
  if org.products.any fun p => p.companyId = product.companyId && p.key = product.key then
    .error (.duplicateKey "product" product.key)
  else do
    org.checkUnit product.companyId product.businessUnitId
    if (org.products.any fun p => p.id = product.id) || !isKey product.key then .error .integrity
    else .ok { org with products := org.products ++ [product] }

/-! ## Putting agents in it -/

/-- What the position offers, when the caller names no capabilities. -/
def offered (capabilities : List String) (position : Option Role) : List String :=
  match capabilities, position with
  | [], some p => p.capabilities
  | capabilities, _ => capabilities

def checkPosition (companyId : Id) (role : String) : Option Role → Except OrgError Unit
  | none => .ok ()
  | some p =>
    if p.companyId ≠ companyId then .error .wrongCompany
    else if p.key ≠ role then .error (.wrongRole role p.key)
    else .ok ()

-- add_agent
def insertAgent (org : Org) (a : Agent) : Except OrgError Org :=
  if (org.agent a.id).isSome || !isKey a.role ||
      org.agents.any fun b => b.companyId = a.companyId && b.displayName = a.displayName then
    .error .integrity
  else .ok { org with agents := org.agents ++ [a] }

/-- `hire_agent`: with a position the department comes with it. -/
def hire (org : Org) (id companyId : Id) (role displayName avatarKey : String)
    (capabilities : List String) (position : Option Role) : Except OrgError Org := do
  checkPosition companyId role position
  let department := position.map Role.departmentId
  let hired ← org.insertAgent
    ⟨id, companyId, role, position.map Role.id, department, displayName, avatarKey, .active⟩
  .ok { hired with
    events := org.events ++ [⟨companyId, id, .agentCreated role displayName
      (offered capabilities position) avatarKey (org.placement (department.bind org.department))⟩] }

def setAgent (org : Org) (a : Agent) : Org :=
  { org with agents := org.agents.map fun b => if b.id = a.id then a else b }

def moved (a : Agent) (role : Role) : Agent :=
  { a with role := role.key, roleId := some role.id, departmentId := some role.departmentId }

/-- What `assign` emits: nothing, where neither the department nor the role changes. -/
def assigned (org : Org) (a : Agent) (role : Role) : List Notice :=
  if (a.departmentId, a.role) = (some role.departmentId, role.key) then []
  else [⟨a.companyId, a.id, .agentAssigned role.key role.id
    { org.placement (org.department role.departmentId) with
      departmentId := some role.departmentId }⟩]

def assign (org : Org) (a : Agent) (role : Role) : Except OrgError Org :=
  if role.companyId ≠ a.companyId then .error .wrongCompany
  else
    let org' := org.setAgent (moved a role)
    .ok { org' with events := org.events ++ org.assigned a role }

def pause (org : Org) (a : Agent) : Except OrgError Org :=
  match a.status with
  | .paused => .ok org
  | .retired => .error (.gone a.displayName)
  | .active => .ok (org.setAgent { a with status := .paused })

def resume (org : Org) (a : Agent) : Except OrgError Org :=
  match a.status with
  | .active => .ok org
  | .retired => .error (.gone a.displayName)
  | .paused => .ok (org.setAgent { a with status := .active })

/-- `retire_agent`: `openRun` is whether a run of the agent is unfinished. -/
def retire (org : Org) (a : Agent) (openRun : Bool) (reason : Option String) :
    Except OrgError Org :=
  if a.status = .retired then .ok org
  else if openRun then .error (.busy a.displayName)
  else
    let org' := org.setAgent { a with status := .retired }
    .ok { org' with
      events := org.events ++ [⟨a.companyId, a.id, .agentRetired a.role a.displayName reason⟩] }

inductive Act where
  | addBusinessUnit (unit : BusinessUnit)
  | addDepartment (department : Department)
  | addRole (role : Role)
  | addProduct (product : Product)
  | hire (id companyId : Id) (role displayName avatarKey : String) (capabilities : List String)
    (position : Option Id)
  | assign (agent role : Id)
  | pause (agent : Id)
  | resume (agent : Id)
  | retire (agent : Id) (openRun : Bool) (reason : Option String)

-- the callers read the rows first
def onAgent (org : Org) (id : Id) (f : Agent → Except OrgError Org) :
    Option (Except OrgError Org) :=
  (org.agent id).map f

/-- One operation, as its caller makes it. -/
def act (org : Org) : Act → Option (Except OrgError Org)
  | .addBusinessUnit unit => some (org.addBusinessUnit unit)
  | .addDepartment department => some (org.addDepartment department)
  | .addRole role => some (org.addRole role)
  | .addProduct product => some (org.addProduct product)
  | .hire id companyId role displayName avatarKey capabilities none =>
    some (org.hire id companyId role displayName avatarKey capabilities none)
  | .hire id companyId role displayName avatarKey capabilities (some position) =>
    (org.role position).map fun p =>
      org.hire id companyId role displayName avatarKey capabilities (some p)
  | .assign agent role => (org.role role).bind fun r => org.onAgent agent fun a => org.assign a r
  | .pause agent => org.onAgent agent org.pause
  | .resume agent => org.onAgent agent org.resume
  | .retire agent openRun reason => org.onAgent agent fun a => org.retire a openRun reason

/-- What is committed: an operation that was refused changes nothing. -/
def step (org : Org) (a : Act) : Option Org :=
  (org.act a).map fun
    | .ok org' => org'
    | .error _ => org

end Org

/-- Operations one after another, from nothing. -/
def organization : System Org Org.Act where
  init org := org = ⟨[], [], [], [], [], []⟩
  step org a org' := org.step a = some org'

end Autora.Organization
