import Autora.Lib.Loops
import Autora.Lib.UniqueRows
import Autora.Organization

/-! An organisation never contradicts itself, whatever is built and whoever is assigned in
whichever order. -/

namespace Autora.Organization

open Systems Forests UniqueRows

variable {org org' : Org}

/-- The string, the position and the home say the same thing. -/
def Agrees (roles : List Role) (a : Agent) : Prop :=
  (a.roleId = none ∧ a.departmentId = none) ∨
    ∃ r ∈ roles, a.roleId = some r.id ∧ a.companyId = r.companyId ∧ a.role = r.key ∧
      a.departmentId = some r.departmentId

structure Sound (org : Org) : Prop where
  unitIds : (org.units.map BusinessUnit.id).Nodup
  unitKeys : (org.units.map fun u => (u.companyId, u.key)).Nodup
  departmentKeys : (org.departments.map fun d => (d.companyId, d.key)).Nodup
  grown : Grown Department.id Department.parentDepartmentId org.departments
  inherits : ∀ d ∈ org.departments, ∀ p ∈ org.departments, d.parentDepartmentId = some p.id →
    d.companyId = p.companyId ∧ d.businessUnitId = p.businessUnitId
  serves : ∀ d ∈ org.departments, ∀ id, d.businessUnitId = some id →
    ∃ u ∈ org.units, u.id = id ∧ u.companyId = d.companyId
  zones : ∀ d ∈ org.departments, ∃ zone, d.officeZoneKey = some zone ∧ zone ≠ ""
  roleIds : (org.roles.map Role.id).Nodup
  roleKeys : (org.roles.map fun r => (r.companyId, r.key)).Nodup
  roles : ∀ r ∈ org.roles, ∃ d ∈ org.departments, d.id = r.departmentId ∧ d.companyId = r.companyId
  productKeys : (org.products.map fun p => (p.companyId, p.key)).Nodup
  products : ∀ p ∈ org.products, ∃ u ∈ org.units, u.id = p.businessUnitId ∧
    u.companyId = p.companyId
  agentIds : (org.agents.map Agent.id).Nodup
  agents : ∀ a ∈ org.agents, Agrees org.roles a

/-! ## Lookups -/

theorem checkDepartment_ok {companyId id : Id} {d : Department}
    (h : org.checkDepartment companyId id = .ok d) :
    d ∈ org.departments ∧ d.id = id ∧ d.companyId = companyId := by
  unfold Org.checkDepartment at h
  split at h
  · next d' hd =>
    split at h
    · next hcompany =>
      cases h
      obtain ⟨hmem, hid⟩ := @eq_of_find? _ _ _ Department.id _ _ _ hd
      exact ⟨hmem, hid, hcompany⟩
    · cases h
  · cases h

theorem checkUnit_ok {companyId id : Id} (h : org.checkUnit companyId id = .ok ()) :
    ∃ u ∈ org.units, u.id = id ∧ u.companyId = companyId := by
  unfold Org.checkUnit at h
  split at h
  · next u hu =>
    split at h
    · next hcompany =>
      obtain ⟨hmem, hid⟩ := @eq_of_find? _ _ _ BusinessUnit.id _ _ _ hu
      exact ⟨u, hmem, hid, hcompany⟩
    · cases h
  · cases h

-- no row of the company has the key
theorem pair_fresh {α : Type} {company : α → Id} {key : α → String} {rows : List α} {row : α}
    (h : ¬(rows.any fun r => company r = company row && key r = key row) = true) :
    (company row, key row) ∉ rows.map fun r => (company r, key r) := by
  intro hmem
  obtain ⟨r, hr, heq⟩ := List.mem_map.mp hmem
  obtain ⟨hcompany, hkey⟩ := Prod.mk.inj heq
  exact h (List.any_eq_true.mpr ⟨r, hr, by rw [hcompany, hkey]; simp⟩)

theorem addBusinessUnit_ok {unit : BusinessUnit} (h : org.addBusinessUnit unit = .ok org') :
    unit.id ∉ org.units.map BusinessUnit.id ∧
      (unit.companyId, unit.key) ∉ (org.units.map fun u => (u.companyId, u.key)) ∧
      org' = { org with units := org.units ++ [unit] } := by
  unfold Org.addBusinessUnit at h
  split at h
  · cases h
  · next hkey =>
    split at h
    · cases h
    · next hrow =>
      cases h
      rw [Bool.not_eq_true, Bool.or_eq_false_iff] at hrow
      exact ⟨@fresh_of_find? _ _ _ BusinessUnit.id _ _ hrow.1, pair_fresh hkey, rfl⟩

theorem unitFor_ok {companyId : Id} {key : String} {given parent unit : Option Id}
    (h : org.unitFor companyId key given parent = .ok unit) :
    (parent = none ∧ unit = given) ∨ ∃ p ∈ org.departments, parent = some p.id ∧
      p.companyId = companyId ∧ unit = p.businessUnitId := by
  cases parent with
  | none =>
    cases h
    exact .inl ⟨rfl, rfl⟩
  | some id =>
    obtain ⟨p, hp, h⟩ := Loops.bind_ok_iff.mp h
    obtain ⟨hmem, hid, hcompany⟩ := checkDepartment_ok hp
    refine .inr ⟨p, hmem, congrArg some hid.symm, hcompany, ?_⟩
    cases given with
    | none =>
      cases h
      rfl
    | some u =>
      dsimp only at h
      split at h
      · cases h
        rfl
      · cases h

theorem isKey_ne_empty {key : String} (h : isKey key = true) : key ≠ "" := by
  rintro rfl
  cases h

theorem insertDepartment_ok {d : Department} (h : org.insertDepartment d = .ok org') :
    d.id ∉ org.departments.map Department.id ∧ isKey d.key = true ∧
      org' = { org with departments := org.departments ++ [d] } := by
  unfold Org.insertDepartment at h
  split at h
  · cases h
  · next hrow =>
    cases h
    rw [Bool.not_eq_true, Bool.or_eq_false_iff, Bool.not_eq_false'] at hrow
    exact ⟨@fresh_of_find? _ _ _ Department.id _ _ hrow.1, hrow.2, rfl⟩

theorem checkServes_ok {companyId : Id} {unit : Option Id}
    (h : org.checkServes companyId unit = .ok ()) (id : Id) (hid : unit = some id) :
    ∃ u ∈ org.units, u.id = id ∧ u.companyId = companyId := by
  subst hid
  exact checkUnit_ok h

theorem addDepartment_ok {d : Department} (h : org.addDepartment d = .ok org') :
    ∃ unit, org.unitFor d.companyId d.key d.businessUnitId d.parentDepartmentId = .ok unit ∧
      (∀ id, unit = some id → ∃ u ∈ org.units, u.id = id ∧ u.companyId = d.companyId) ∧
      d.id ∉ org.departments.map Department.id ∧
      (d.companyId, d.key) ∉ (org.departments.map fun d => (d.companyId, d.key)) ∧ d.key ≠ "" ∧
      org' = { org with
        departments := org.departments ++ [{ d with
          businessUnitId := unit
          officeZoneKey := Org.orKey d.officeZoneKey (some d.key) }] } := by
  unfold Org.addDepartment at h
  split at h
  · cases h
  · next hkey =>
    obtain ⟨unit, hunit, h⟩ := Loops.bind_ok_iff.mp h
    obtain ⟨_, hserves, h⟩ := Loops.bind_ok_iff.mp h
    obtain ⟨hid, hpattern, rfl⟩ := insertDepartment_ok h
    exact ⟨unit, hunit, checkServes_ok hserves, hid, pair_fresh hkey, isKey_ne_empty hpattern, rfl⟩

theorem addRole_ok {role : Role} (h : org.addRole role = .ok org') :
    (∃ d ∈ org.departments, d.id = role.departmentId ∧ d.companyId = role.companyId) ∧
      role.id ∉ org.roles.map Role.id ∧
      (role.companyId, role.key) ∉ (org.roles.map fun r => (r.companyId, r.key)) ∧
      org' = { org with roles := org.roles ++ [role] } := by
  unfold Org.addRole at h
  split at h
  · cases h
  · next hkey =>
    obtain ⟨d, hd, h⟩ := Loops.bind_ok_iff.mp h
    split at h
    · cases h
    · next hrow =>
      cases h
      rw [Bool.not_eq_true, Bool.or_eq_false_iff] at hrow
      exact ⟨⟨d, checkDepartment_ok hd⟩, @fresh_of_find? _ _ _ Role.id _ _ hrow.1, pair_fresh hkey,
        rfl⟩

theorem addProduct_ok {product : Product} (h : org.addProduct product = .ok org') :
    (∃ u ∈ org.units, u.id = product.businessUnitId ∧ u.companyId = product.companyId) ∧
      (product.companyId, product.key) ∉ (org.products.map fun p => (p.companyId, p.key)) ∧
      org' = { org with products := org.products ++ [product] } := by
  unfold Org.addProduct at h
  split at h
  · cases h
  · next hkey =>
    obtain ⟨_, hunit, h⟩ := Loops.bind_ok_iff.mp h
    split at h
    · cases h
    · cases h
      exact ⟨checkUnit_ok hunit, pair_fresh hkey, rfl⟩

/-! ## What each operation keeps -/

theorem Sound.addBusinessUnit {unit : BusinessUnit} (h : Sound org)
    (hok : org.addBusinessUnit unit = .ok org') : Sound org' := by
  obtain ⟨hid, hkey, rfl⟩ := addBusinessUnit_ok hok
  have hold : ∀ {P : BusinessUnit → Prop}, (∃ u ∈ org.units, P u) →
      ∃ u ∈ org.units ++ [unit], P u := by
    intro P hu
    obtain ⟨u, hu, hp⟩ := hu
    exact ⟨u, List.mem_append_left _ hu, hp⟩
  exact { h with
    unitIds := nodup_concat h.unitIds hid
    unitKeys := nodup_concat h.unitKeys hkey
    serves := fun d hd id hid => hold (h.serves d hd id hid)
    products := fun p hp => hold (h.products p hp) }

/-- A parent is a department of the company, with the same business. -/
theorem Sound.parent (h : Sound org) {d : Department} (hd : d ∈ org.departments) {id : Id}
    (hp : d.parentDepartmentId = some id) :
    ∃ p ∈ org.departments, p.id = id ∧ d.companyId = p.companyId ∧
      d.businessUnitId = p.businessUnitId := by
  obtain ⟨p, hmem, rfl⟩ := List.mem_map.mp (h.grown.parent_mem hd hp)
  exact ⟨p, hmem, rfl, h.inherits d hd p hmem hp⟩

theorem Sound.inherits_insert (h : Sound org) {d : Department}
    (hid : d.id ∉ org.departments.map Department.id)
    (hparent : ∀ id, d.parentDepartmentId = some id → ∃ p ∈ org.departments, p.id = id ∧
      d.companyId = p.companyId ∧ d.businessUnitId = p.businessUnitId) :
    ∀ x ∈ org.departments ++ [d], ∀ p ∈ org.departments ++ [d],
      x.parentDepartmentId = some p.id →
        x.companyId = p.companyId ∧ x.businessUnitId = p.businessUnitId := by
  intro x hx p hp hlink
  -- the parent is there before its child
  have hup : ∃ r ∈ org.departments, r.id = p.id ∧ x.companyId = r.companyId ∧
      x.businessUnitId = r.businessUnitId := by
    rcases List.mem_append.mp hx with hx | hx
    · exact h.parent hx hlink
    · rw [List.mem_singleton.mp hx] at hlink ⊢
      exact hparent p.id hlink
  obtain ⟨r, hr, hrid, hsame⟩ := hup
  have hold : p ∈ org.departments := by
    rcases List.mem_append.mp hp with hp | hp
    · exact hp
    · rw [List.mem_singleton.mp hp] at hrid
      exact absurd (hrid ▸ List.mem_map_of_mem hr) hid
  rw [← List.inj_on_of_nodup_map h.grown.nodup hr hold hrid]
  exact hsame

theorem Sound.insertDepartment (h : Sound org) {d : Department}
    (hid : d.id ∉ org.departments.map Department.id)
    (hkey : (d.companyId, d.key) ∉ org.departments.map fun d => (d.companyId, d.key))
    (hparent : ∀ id, d.parentDepartmentId = some id → ∃ p ∈ org.departments, p.id = id ∧
      d.companyId = p.companyId ∧ d.businessUnitId = p.businessUnitId)
    (hserves : ∀ id, d.businessUnitId = some id →
      ∃ u ∈ org.units, u.id = id ∧ u.companyId = d.companyId)
    (hzone : ∃ zone, d.officeZoneKey = some zone ∧ zone ≠ "") :
    Sound { org with departments := org.departments ++ [d] } where
  unitIds := h.unitIds
  unitKeys := h.unitKeys
  departmentKeys := nodup_concat h.departmentKeys hkey
  grown := by
    refine h.grown.snoc hid fun id hp => ?_
    obtain ⟨p, hmem, rfl, -⟩ := hparent id hp
    exact List.mem_map_of_mem hmem
  inherits := h.inherits_insert hid hparent
  serves := List.forall_mem_append.mpr ⟨h.serves, by simpa using hserves⟩
  zones := List.forall_mem_append.mpr ⟨h.zones, by simpa using hzone⟩
  roleIds := h.roleIds
  roleKeys := h.roleKeys
  roles := by
    intro r hr
    obtain ⟨x, hx, hrow⟩ := h.roles r hr
    exact ⟨x, List.mem_append_left _ hx, hrow⟩
  productKeys := h.productKeys
  products := h.products
  agentIds := h.agentIds
  agents := h.agents

theorem orKey_some (zone : Option String) {key : String} (hkey : key ≠ "") :
    ∃ z, Org.orKey zone (some key) = some z ∧ z ≠ "" := by
  cases zone with
  | none => exact ⟨key, rfl, hkey⟩
  | some z =>
    unfold Org.orKey
    by_cases h : z = ""
    · exact ⟨key, if_pos h, hkey⟩
    · exact ⟨z, if_neg h, h⟩

theorem Sound.addDepartment {department : Department} (h : Sound org)
    (hok : org.addDepartment department = .ok org') : Sound org' := by
  obtain ⟨unit, hunit, hserves, hid, hkey, hne, rfl⟩ := addDepartment_ok hok
  refine h.insertDepartment hid hkey (fun id hp => ?_) hserves (orKey_some _ hne)
  obtain ⟨hnone, -⟩ | ⟨p, hmem, hlink, hcompany, hsame⟩ := unitFor_ok hunit
  · rw [hnone] at hp
    cases hp
  · rw [hlink] at hp
    exact ⟨p, hmem, Option.some.inj hp, hcompany.symm, hsame⟩

theorem Sound.addRole {role : Role} (h : Sound org) (hok : org.addRole role = .ok org') :
    Sound org' := by
  obtain ⟨hdepartment, hid, hkey, rfl⟩ := addRole_ok hok
  exact { h with
    roleIds := nodup_concat h.roleIds hid
    roleKeys := nodup_concat h.roleKeys hkey
    roles := List.forall_mem_append.mpr ⟨h.roles, by simpa using hdepartment⟩
    agents := by
      intro a ha
      refine (h.agents a ha).imp_right fun hrole => ?_
      obtain ⟨r, hr, hagree⟩ := hrole
      exact ⟨r, List.mem_append_left _ hr, hagree⟩ }

theorem Sound.addProduct {product : Product} (h : Sound org)
    (hok : org.addProduct product = .ok org') : Sound org' := by
  obtain ⟨hunit, hkey, rfl⟩ := addProduct_ok hok
  exact { h with
    productKeys := nodup_concat h.productKeys hkey
    products := List.forall_mem_append.mpr ⟨h.products, by simpa using hunit⟩ }

theorem mem_of_role {id : Id} {r : Role} (h : org.role id = some r) : r ∈ org.roles ∧ r.id = id :=
  @eq_of_find? _ _ _ Role.id _ _ _ h

theorem mem_of_agent {id : Id} {a : Agent} (h : org.agent id = some a) :
    a ∈ org.agents ∧ a.id = id :=
  @eq_of_find? _ _ _ Agent.id _ _ _ h

theorem checkPosition_ok {companyId : Id} {role : String} {p : Role}
    (h : Org.checkPosition companyId role (some p) = .ok ()) :
    p.companyId = companyId ∧ p.key = role := by
  by_cases hcompany : p.companyId = companyId
  · by_cases hrole : p.key = role
    · exact ⟨hcompany, hrole⟩
    · simp [Org.checkPosition, hcompany, hrole] at h
  · simp [Org.checkPosition, hcompany] at h

theorem insertAgent_ok {a : Agent} (h : org.insertAgent a = .ok org') :
    a.id ∉ org.agents.map Agent.id ∧ org' = { org with agents := org.agents ++ [a] } := by
  unfold Org.insertAgent at h
  split at h
  · cases h
  · next hrow =>
    cases h
    rw [Bool.not_eq_true, Bool.or_eq_false_iff, Bool.or_eq_false_iff] at hrow
    exact ⟨@fresh_of_find? _ _ _ Agent.id _ _ hrow.1.1, rfl⟩

/-- Everything a hire does. -/
theorem hire_ok {id companyId : Id} {role displayName avatarKey : String}
    {capabilities : List String} {position : Option Role}
    (h : org.hire id companyId role displayName avatarKey capabilities position = .ok org') :
    (∀ p, position = some p → p.companyId = companyId ∧ p.key = role) ∧
      id ∉ org.agents.map Agent.id ∧
      org' = { org with
        agents := org.agents ++ [⟨id, companyId, role, position.map Role.id,
          position.map Role.departmentId, displayName, avatarKey, .active⟩]
        events := org.events ++ [⟨companyId, id, .agentCreated role displayName
          (Org.offered capabilities position) avatarKey
          (org.placement ((position.map Role.departmentId).bind org.department))⟩] } := by
  obtain ⟨_, hposition, h⟩ := Loops.bind_ok_iff.mp h
  obtain ⟨hired, hinsert, h⟩ := Loops.bind_ok_iff.mp h
  obtain ⟨hfresh, rfl⟩ := insertAgent_ok hinsert
  cases h
  refine ⟨fun p hp => ?_, hfresh, rfl⟩
  subst hp
  exact checkPosition_ok hposition

theorem Sound.hire {id companyId : Id} {role displayName avatarKey : String}
    {capabilities : List String} {position : Option Role} (h : Sound org)
    (hposition : ∀ p, position = some p → p ∈ org.roles)
    (hok : org.hire id companyId role displayName avatarKey capabilities position = .ok org') :
    Sound org' := by
  obtain ⟨hagree, hfresh, rfl⟩ := hire_ok hok
  refine { h with
    agentIds := nodup_concat h.agentIds hfresh
    agents := List.forall_mem_append.mpr ⟨h.agents, ?_⟩ }
  intro a ha
  rw [List.mem_singleton.mp ha]
  cases position with
  | none => exact .inl ⟨rfl, rfl⟩
  | some p =>
    obtain ⟨hcompany, hkey⟩ := hagree p rfl
    exact .inr ⟨p, hposition p rfl, rfl, hcompany.symm, hkey.symm, rfl⟩

theorem setAgent_ids (org : Org) (a : Agent) :
    (org.setAgent a).agents.map Agent.id = org.agents.map Agent.id := by
  rw [Org.setAgent, List.map_map]
  refine List.map_congr_left fun b _ => ?_
  by_cases hb : b.id = a.id <;> simp [hb]

theorem Sound.setAgent (h : Sound org) {a : Agent} (ha : Agrees org.roles a) :
    Sound (org.setAgent a) := by
  refine { h with
    agentIds := by
      rw [setAgent_ids]
      exact h.agentIds
    agents := ?_ }
  intro b hb
  obtain ⟨old, hold, rfl⟩ := List.mem_map.mp hb
  split
  · exact ha
  · exact h.agents old hold

-- nothing that is kept is about the events
theorem Sound.emit (h : Sound org) (events : List Notice) : Sound { org with events } :=
  { h with }

theorem assign_ok {a : Agent} {r : Role} (h : org.assign a r = .ok org') :
    r.companyId = a.companyId ∧ org' = { org.setAgent (Org.moved a r) with
      events := org.events ++ org.assigned a r } := by
  unfold Org.assign at h
  split at h
  · cases h
  · next hcompany =>
    cases h
    exact ⟨not_not.mp hcompany, rfl⟩

/-- A pause or a return: the status changes, between the two of an agent that stays. -/
theorem pause_ok {a : Agent} (h : org.pause a = .ok org') :
    org' = org ∨ a.status ≠ .retired ∧ org' = org.setAgent { a with status := .paused } := by
  cases hs : a.status <;> simp only [Org.pause, hs] at h
  · cases h
    exact .inr ⟨by decide, rfl⟩
  · cases h
    exact .inl rfl
  · cases h

theorem resume_ok {a : Agent} (h : org.resume a = .ok org') :
    org' = org ∨ a.status ≠ .retired ∧ org' = org.setAgent { a with status := .active } := by
  cases hs : a.status <;> simp only [Org.resume, hs] at h
  · cases h
    exact .inl rfl
  · cases h
    exact .inr ⟨by decide, rfl⟩
  · cases h

theorem retire_ok {a : Agent} {openRun : Bool} {reason : Option String}
    (h : org.retire a openRun reason = .ok org') :
    org' = org ∨ org' = { org.setAgent { a with status := .retired } with
      events :=
        org.events ++ [⟨a.companyId, a.id, .agentRetired a.role a.displayName reason⟩] } := by
  unfold Org.retire at h
  split at h
  · cases h
    exact .inl rfl
  · split at h
    · cases h
    · cases h
      exact .inr rfl

theorem Sound.assign {a : Agent} {r : Role} (h : Sound org) (hr : r ∈ org.roles)
    (hok : org.assign a r = .ok org') : Sound org' := by
  obtain ⟨hcompany, rfl⟩ := assign_ok hok
  have hagrees : Agrees org.roles (Org.moved a r) := .inr ⟨r, hr, rfl, hcompany.symm, rfl, rfl⟩
  exact (h.setAgent hagrees).emit _

-- the status of an agent is no part of where it works
theorem Sound.setStatus {a : Agent} (h : Sound org) (ha : a ∈ org.agents) (status : AgentStatus) :
    Sound (org.setAgent { a with status }) :=
  h.setAgent (h.agents a ha)

theorem Sound.act {x : Org.Act} (h : Sound org) (hact : org.act x = some (.ok org')) :
    Sound org' := by
  cases x with
  | addBusinessUnit unit => exact h.addBusinessUnit (Option.some.inj hact)
  | addDepartment department => exact h.addDepartment (Option.some.inj hact)
  | addRole role => exact h.addRole (Option.some.inj hact)
  | addProduct product => exact h.addProduct (Option.some.inj hact)
  | hire id companyId role displayName avatarKey capabilities position =>
    cases position with
    | none => exact h.hire (fun p hp => by cases hp) (Option.some.inj hact)
    | some position =>
      obtain ⟨p, hp, hok⟩ := Option.map_eq_some_iff.mp hact
      refine h.hire (fun q hq => ?_) hok
      rw [← Option.some.inj hq]
      exact (mem_of_role hp).1
  | assign agent role =>
    obtain ⟨r, hr, hact⟩ := Option.bind_eq_some_iff.mp hact
    obtain ⟨a, ha, hok⟩ := Option.map_eq_some_iff.mp hact
    exact h.assign (mem_of_role hr).1 hok
  | pause agent =>
    obtain ⟨a, ha, hok⟩ := Option.map_eq_some_iff.mp hact
    rcases pause_ok hok with rfl | ⟨-, rfl⟩
    · exact h
    · exact h.setStatus (mem_of_agent ha).1 _
  | resume agent =>
    obtain ⟨a, ha, hok⟩ := Option.map_eq_some_iff.mp hact
    rcases resume_ok hok with rfl | ⟨-, rfl⟩
    · exact h
    · exact h.setStatus (mem_of_agent ha).1 _
  | retire agent openRun reason =>
    obtain ⟨a, ha, hok⟩ := Option.map_eq_some_iff.mp hact
    rcases retire_ok hok with rfl | rfl
    · exact h
    · exact (h.setStatus (mem_of_agent ha).1 _).emit _

theorem step_cases {x : Org.Act} (h : org.step x = some org') :
    org' = org ∨ org.act x = some (.ok org') := by
  obtain ⟨result, hact, hresult⟩ := Option.map_eq_some_iff.mp h
  cases result with
  | error e => exact .inl hresult.symm
  | ok next =>
    cases hresult
    exact .inr hact

theorem Sound.step {x : Org.Act} (h : Sound org) (hstep : org.step x = some org') : Sound org' := by
  rcases step_cases hstep with rfl | hact
  · exact h
  · exact h.act hact

theorem Sound.empty : Sound ⟨[], [], [], [], [], []⟩ := by
  constructor
  case grown => exact .nil
  all_goals simp

theorem sound (h : organization.Reach anyStep org) : Sound org :=
  h.invariant (fun _ hinit => hinit ▸ Sound.empty) fun _ _ _ hs _ hstep => hs.step hstep

/-- The department of an agent is one of its company. -/
theorem Sound.home (h : Sound org) {a : Agent} (ha : a ∈ org.agents) {id : Id}
    (hid : a.departmentId = some id) :
    ∃ d ∈ org.departments, d.id = id ∧ d.companyId = a.companyId := by
  rcases h.agents a ha with ⟨-, hnone⟩ | ⟨r, hr, -, hcompany, -, hhome⟩
  · rw [hnone] at hid
    cases hid
  · obtain ⟨d, hd, hdid, hdc⟩ := h.roles r hr
    rw [hhome] at hid
    exact ⟨d, hd, hdid.trans (Option.some.inj hid), hdc.trans hcompany.symm⟩

/-! ## What never happens -/

/-- The department right above another. -/
def Above (org : Org) (upper lower : Id) : Prop :=
  ∃ d ∈ org.departments, d.id = lower ∧ d.parentDepartmentId = some upper

theorem organisation_agrees (h : organization.Reach anyStep org) :
    (∀ d ∈ org.departments, ∀ id, d.parentDepartmentId = some id → ∃ p ∈ org.departments,
      p.id = id ∧ d.companyId = p.companyId ∧ d.businessUnitId = p.businessUnitId) ∧
    (∀ id, ¬Relation.TransGen (Above org) id id) ∧
    (∀ r ∈ org.roles, ∀ r' ∈ org.roles, r.companyId = r'.companyId → r.key = r'.key → r = r') ∧
    ∀ a ∈ org.agents, (a.roleId = none ∧ a.departmentId = none) ∨ ∃ r ∈ org.roles,
      a.roleId = some r.id ∧ a.companyId = r.companyId ∧ a.role = r.key ∧
        a.departmentId = some r.departmentId := by
  have hs := sound h
  refine ⟨fun d hd id hp => hs.parent hd hp, fun id hloop => ?_,
    fun r hr r' hr' hcompany hkey => ?_, hs.agents⟩
  · obtain ⟨rank, hrank⟩ := hs.grown.rank
    have hlater : ∀ {upper lower : Id}, Relation.TransGen (Above org) upper lower →
        rank upper < rank lower := by
      intro upper lower habove
      induction habove with
      | single hstep =>
        obtain ⟨d, hd, rfl, hp⟩ := hstep
        exact (hrank d hd).2 _ hp
      | tail _ hstep ih =>
        obtain ⟨d, hd, rfl, hp⟩ := hstep
        exact ih.trans ((hrank d hd).2 _ hp)
    exact (hlater hloop).false
  · exact List.inj_on_of_nodup_map hs.roleKeys hr hr' (by rw [hcompany, hkey])

-- a newsroom with a team, whose business nobody may contradict
def founding : List Org.Act :=
  [.addBusinessUnit ⟨10, 1, "media", "AI Media"⟩,
    .addDepartment ⟨20, 1, some 10, none, "newsroom", "Newsroom", none⟩,
    .addDepartment ⟨21, 1, none, some 20, "research", "Research", some "newsroom"⟩,
    .addDepartment ⟨22, 1, none, none, "executive", "Executive", some "ceo"⟩,
    .addDepartment ⟨23, 1, some 11, some 20, "sports", "Sports", none⟩,
    .addRole ⟨30, 1, 21, "researcher", "Researcher", ["search"]⟩,
    .addRole ⟨31, 1, 20, "editor", "Editor", []⟩,
    .hire 40 1 "researcher" "Ada" "default" [] (some 30), .hire 41 1 "ceo" "Bo" "default" [] none,
    .hire 42 1 "researcher" "Cy" "default" [] (some 30), .assign 40 31, .retire 42 false none,
    .pause 41]

theorem founded {α : Type} {f : Org → α} {x : α}
    (h : (System.follow anyStep Org.step ⟨[], [], [], [], [], []⟩ founding).map f = some x) :
    ∃ org, organization.Reach anyStep org ∧ f org = x := by
  obtain ⟨org, horg, hf⟩ := Option.map_eq_some_iff.mp h
  exact ⟨org, ⟨_, rfl, System.follow_path (fun _ _ _ hs => hs) horg⟩, hf⟩

theorem organisation_agrees_founded : ∃ org, organization.Reach anyStep org ∧
    (org.departments.map fun d => (d.id, d.businessUnitId)) =
      [(20, some 10), (21, some 10), (22, none)] ∧ ¬Relation.TransGen (Above org) 21 21 := by
  obtain ⟨org, hreach, hdepartments⟩ := founded
    (f := fun org => org.departments.map fun d => (d.id, d.businessUnitId))
    (x := [(20, some 10), (21, some 10), (22, none)]) (by decide +kernel)
  exact ⟨org, hreach, hdepartments, (organisation_agrees hreach).2.1 21⟩

end Autora.Organization
