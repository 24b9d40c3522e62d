import Autora.Effects
import Autora.Lib.Tallies
import Autora.OrgRuns

/-! The office draws an agent where its department is, and everybody who works there: following
the events gives what reading the tables gives. -/

namespace Autora.Organization

open Systems UniqueRows
open Realtime (amend RealtimeState)

variable {org org' : Org} {c : Id}

/-! ## Where a department is -/

theorem Sound.department_of_mem (h : Sound org) {d : Department} (hd : d ∈ org.departments) :
    org.department d.id = some d :=
  Tallies.find?_of_mem h.grown.nodup hd

theorem Sound.unit_of_mem (h : Sound org) {u : BusinessUnit} (hu : u ∈ org.units) :
    org.unit u.id = some u :=
  Tallies.find?_of_mem h.unitIds hu

theorem orKey_left {zone : String} (hzone : zone ≠ "") (b : Option String) :
    Org.orKey (some zone) b = some zone :=
  if_neg hzone

/-- Up the parents nothing changes: the zone is set, and the business is theirs as well. -/
theorem Sound.climb_eq (h : Sound org) {zone : String} (hzone : zone ≠ "") {unit : Option Id}
    (n : Nat) (seen : List Id) {parentId : Option Id}
    (hup : ∀ id, parentId = some id → ∃ p ∈ org.departments, p.id = id ∧ unit = p.businessUnitId) :
    org.climb n seen (some zone) unit parentId = (some zone, unit) := by
  induction n generalizing seen parentId with
  | zero => rfl
  | succ n ih =>
    cases parentId with
    | none => rfl
    | some id =>
      obtain ⟨p, hp, rfl, hunit⟩ := hup id rfl
      unfold Org.climb
      dsimp only
      split
      · rfl
      · rw [h.department_of_mem hp]
        dsimp only
        rw [orKey_left hzone, ← hunit, Option.or_self]
        refine ih _ fun id' hid' => ?_
        obtain ⟨q, hq, hqid, -, hsame⟩ := h.parent hp hid'
        exact ⟨q, hq, hqid, hunit.trans hsame⟩

/-- The business of a department, if it has one. -/
theorem Sound.business (h : Sound org) {d : Department} (hd : d ∈ org.departments) :
    ∃ unit : Option BusinessUnit, d.businessUnitId = unit.map BusinessUnit.id ∧
      ∀ u, unit = some u → u ∈ org.units ∧ u.companyId = d.companyId := by
  cases hunit : d.businessUnitId with
  | none => exact ⟨none, rfl, fun u hu => by cases hu⟩
  | some id =>
    obtain ⟨u, hu, rfl, hcompany⟩ := h.serves d hd id hunit
    refine ⟨some u, rfl, fun u' hu' => ?_⟩
    cases hu'
    exact ⟨hu, hcompany⟩

-- a query that asks for more finds the same row, where that row is as asked
theorem find?_and {α : Type} {p q : α → Prop} [DecidablePred p] [DecidablePred q] {rows : List α}
    {row : α} (h : rows.find? (fun x => p x) = some row) (hq : q row) :
    rows.find? (fun x => q x ∧ p x) = some row := by
  obtain ⟨hp, before, after, rfl, hnone⟩ := List.find?_eq_some_iff_append.mp h
  refine List.find?_eq_some_iff_append.mpr ⟨?_, before, after, rfl, fun x hx => ?_⟩
  · exact decide_eq_true ⟨hq, of_decide_eq_true hp⟩
  · have hx := hnone x hx
    rw [Bool.not_eq_true', decide_eq_false_iff_not] at hx ⊢
    exact fun hboth => hx hboth.2

/-- What both ways of finding the place of a department come to. -/
def place (d : Department) (unit : Option BusinessUnit) : Placement :=
  ⟨some d.id, some d.key, d.officeZoneKey, unit.map BusinessUnit.key⟩

theorem Sound.placement_eq (h : Sound org) {d : Department} (hd : d ∈ org.departments)
    {unit : Option BusinessUnit} (hunit : d.businessUnitId = unit.map BusinessUnit.id)
    (hmem : ∀ u, unit = some u → u ∈ org.units) : org.placement (some d) = place d unit := by
  obtain ⟨zone, hzone, hne⟩ := h.zones d hd
  have hup : ∀ id, d.parentDepartmentId = some id → ∃ p ∈ org.departments, p.id = id ∧
      d.businessUnitId = p.businessUnitId := by
    intro id hid
    obtain ⟨p, hp, hpid, -, hsame⟩ := h.parent hd hid
    exact ⟨p, hp, hpid, hsame⟩
  have hclimb := h.climb_eq hne (org.departments.length + 1) [d.id] hup
  unfold Org.placement
  dsimp only
  rw [hzone, hclimb]
  unfold place
  rw [hzone, hunit]
  cases unit with
  | none => rfl
  | some u => rw [Option.map_some, Option.bind_some, h.unit_of_mem (hmem u rfl)]

theorem Sound.projected_eq (h : Sound org) {d : Department} (hd : d ∈ org.departments) {a : Agent}
    (ha : a.departmentId = some d.id) (hcompany : d.companyId = a.companyId)
    {unit : Option BusinessUnit} (hunit : d.businessUnitId = unit.map BusinessUnit.id)
    (hmem : ∀ u, unit = some u → u ∈ org.units ∧ u.companyId = d.companyId) :
    org.projected a = place d unit := by
  obtain ⟨zone, hzone, hne⟩ := h.zones d hd
  -- a parent has the same business, if there is one
  have hparent : d.businessUnitId.or
      ((d.parentDepartmentId.bind org.department).bind Department.businessUnitId) =
        d.businessUnitId := by
    cases hlink : d.parentDepartmentId with
    | none => rw [Option.bind_none, Option.bind_none, Option.or_none]
    | some id =>
      obtain ⟨p, hp, rfl, -, hsame⟩ := h.parent hd hlink
      rw [Option.bind_some, h.department_of_mem hp, Option.bind_some, hsame, Option.or_self]
  unfold Org.projected
  rw [ha, Option.bind_some, h.department_of_mem hd]
  dsimp only [Option.bind_some, Option.map_some]
  rw [hzone, orKey_left hne, hparent, hunit]
  unfold place
  rw [hzone]
  cases unit with
  | none => rfl
  | some u =>
    obtain ⟨hu, huc⟩ := hmem u rfl
    have hfind : (org.units.find? fun v => v.companyId = a.companyId ∧ v.id = u.id) = some u :=
      find?_and (h.unit_of_mem hu) (huc.trans hcompany)
    rw [Option.map_some, Option.bind_some, hfind]

theorem projected_none {a : Agent} (ha : a.departmentId = none) :
    org.projected a = ⟨none, none, none, none⟩ := by
  unfold Org.projected
  rw [ha]
  rfl

/-- Who holds a position is where its department is. -/
theorem Sound.placed (h : Sound org) {r : Role} (hr : r ∈ org.roles) {a : Agent}
    (ha : a.departmentId = some r.departmentId) (hcompany : r.companyId = a.companyId) :
    org.placement (org.department r.departmentId) = org.projected a ∧
      (org.projected a).departmentId = some r.departmentId := by
  obtain ⟨d, hd, hid, hdc⟩ := h.roles r hr
  obtain ⟨unit, hunit, hmem⟩ := h.business hd
  rw [← hid] at ha ⊢
  rw [h.department_of_mem hd, h.placement_eq hd hunit fun u hu => (hmem u hu).1,
    h.projected_eq hd ha (hdc.trans hcompany) hunit hmem]
  exact ⟨rfl, rfl⟩

/-- Nothing that is added later moves anybody. -/
theorem Sound.projected_grow (h : Sound org) (h' : Sound org')
    (hdepartments : org.departments ⊆ org'.departments) (hunits : org.units ⊆ org'.units)
    {a : Agent} (ha : a ∈ org.agents) : org'.projected a = org.projected a := by
  cases hid : a.departmentId with
  | none => rw [projected_none hid, projected_none hid]
  | some id =>
    obtain ⟨d, hd, rfl, hcompany⟩ := h.home ha hid
    obtain ⟨unit, hunit, hmem⟩ := h.business hd
    rw [h.projected_eq hd hid hcompany hunit hmem]
    refine h'.projected_eq (hdepartments hd) hid hcompany hunit fun u hu => ?_
    exact ⟨hunits (hmem u hu).1, (hmem u hu).2⟩

/-! ## Who is drawn where -/

/-- What the office shows of an agent, its activity apart. -/
structure Face where
  role : String
  displayName : String
  avatarKey : String
  place : Placement
  deriving DecidableEq, Repr

/-- A row of the snapshot: an agent of the company that has not left. -/
def Org.seat (org : Org) (c : Id) (a : Agent) : Option Face :=
  if a.companyId = c ∧ a.status ≠ .retired then
    some ⟨a.role, a.displayName, a.avatarKey, org.projected a⟩
  else none

def Org.desk (org : Org) (c : Id) (id : Id) : Option Face := (org.agent id).bind (org.seat c)

/-- What one event changes. -/
def note (c : Id) (faces : Id → Option Face) (n : Notice) : Id → Option Face :=
  if n.companyId = c then
    match n.payload with
    | .agentCreated role displayName _ avatarKey place =>
      Function.update faces n.agentId (some ⟨role, displayName, avatarKey, place⟩)
    | .agentAssigned role _ place =>
      amend faces (some n.agentId) fun face => { face with role, place }
    | .agentRetired .. => Function.update faces n.agentId none
    | _ => faces
  else faces

/-- The events tell what the tables say. -/
def Told (org : Org) : Prop := ∀ c, org.events.foldl (note c) (fun _ => none) = org.desk c

theorem desk_setAgent {a b : Agent} (ha : org.agent b.id = some a) :
    (org.setAgent b).desk c = Function.update (org.desk c) b.id (org.seat c b) := by
  funext id
  have hfind : (org.setAgent b).agent id =
      (org.agent id).map fun x => if x.id = b.id then b else x :=
    find?_map_key (fun x => by by_cases hx : x.id = b.id <;> simp [hx]) org.agents id
  rw [Org.desk, hfind]
  by_cases hid : id = b.id
  · rw [hid, ha, Function.update_self, Option.map_some, if_pos (mem_of_agent ha).2]
    rfl
  · rw [Function.update_of_ne hid, Org.desk]
    cases hx : org.agent id with
    | none => rfl
    | some x =>
      rw [Option.map_some, if_neg ((mem_of_agent hx).2 ▸ hid)]
      rfl

theorem agent_none {id : Id} (h : id ∉ org.agents.map Agent.id) : org.agent id = none :=
  Tallies.find?_of_not_mem h

theorem desk_insert {a : Agent} {events : List Notice} (hfresh : a.id ∉ org.agents.map Agent.id) :
    { org with agents := org.agents ++ [a], events }.desk c =
      Function.update (org.desk c) a.id (org.seat c a) := by
  funext id
  have hfind : { org with agents := org.agents ++ [a], events }.agent id =
      (org.agent id).or ([a].find? fun x => x.id = id) :=
    List.find?_append
  rw [Org.desk, hfind]
  by_cases hid : id = a.id
  · rw [hid, agent_none hfresh, Function.update_self]
    simp
    rfl
  · rw [Function.update_of_ne hid, Org.desk]
    have hother : [a].find? (fun x => x.id = id) = none := by
      simpa using Ne.symm hid
    rw [hother, Option.or_none]
    rfl

theorem Told.grow (ht : Told org) (h : Sound org) (h' : Sound org')
    (hdepartments : org.departments ⊆ org'.departments) (hunits : org.units ⊆ org'.units)
    (hagents : org'.agents = org.agents) (hevents : org'.events = org.events) : Told org' := by
  intro c
  rw [hevents, ht c]
  funext id
  have hagent : org'.agent id = org.agent id := by
    rw [Org.agent, hagents]
    rfl
  unfold Org.desk
  rw [hagent]
  cases ha : org.agent id with
  | none => rfl
  | some a =>
    rw [Option.bind_some, Option.bind_some, Org.seat, Org.seat,
      h.projected_grow h' hdepartments hunits (mem_of_agent ha).1]

theorem seat_elsewhere {a : Agent} (h : a.companyId ≠ c) : org.seat c a = none :=
  if_neg fun hboth => h hboth.1

theorem desk_of {id : Id} {a : Agent} (h : org.agent id = some a) :
    org.desk c id = org.seat c a := by
  rw [Org.desk, h, Option.bind_some]

theorem seat_stays {a : Agent} (h : a.status ≠ .retired) :
    org.seat c a = if a.companyId = c then
      some ⟨a.role, a.displayName, a.avatarKey, org.projected a⟩ else none := by
  simp only [Org.seat, h, ne_eq, not_false_iff, and_true]

theorem Told.hire {id companyId : Id} {role displayName avatarKey : String}
    {capabilities : List String} {position : Option Role} (ht : Told org) (h : Sound org)
    (hposition : ∀ p, position = some p → p ∈ org.roles)
    (hok : org.hire id companyId role displayName avatarKey capabilities position = .ok org') :
    Told org' := by
  obtain ⟨hagree, hfresh, rfl⟩ := hire_ok hok
  intro c
  rw [List.foldl_append, ht c, desk_insert hfresh]
  by_cases hc : companyId = c
  · subst hc
    have hplace : org.placement ((position.map Role.departmentId).bind org.department) =
        org.projected ⟨id, companyId, role, position.map Role.id,
          position.map Role.departmentId, displayName, avatarKey, .active⟩ := by
      cases position with
      | none => exact (projected_none rfl).symm
      | some p => exact (h.placed (hposition p rfl) rfl (hagree p rfl).1).1
    rw [hplace]
    simp [note, Org.seat]
  · rw [seat_elsewhere hc, List.foldl_cons, List.foldl_nil, note, if_neg hc, eq_comm,
      Function.update_eq_self_iff, Org.desk, agent_none hfresh, Option.bind_none]

theorem Told.setStatus {a : Agent} {status : AgentStatus} (ht : Told org)
    (ha : org.agent a.id = some a) (hstays : a.status ≠ .retired) (hstatus : status ≠ .retired) :
    Told (org.setAgent { a with status }) := by
  intro c
  have hsame : org.seat c { a with status } = org.desk c a.id := by
    rw [desk_of ha, seat_stays hstatus, seat_stays hstays]
    rfl
  rw [desk_setAgent (b := { a with status }) ha, hsame, Function.update_eq_self]
  exact ht c

theorem Told.retire {a : Agent} {openRun : Bool} {reason : Option String} (ht : Told org)
    (ha : org.agent a.id = some a) (hok : org.retire a openRun reason = .ok org') : Told org' := by
  rcases retire_ok hok with rfl | rfl
  · exact ht
  · intro c
    have hdesk : ({ org.setAgent { a with status := .retired } with
        events := org.events ++
          [⟨a.companyId, a.id, .agentRetired a.role a.displayName reason⟩] } : Org).desk c =
        Function.update (org.desk c) a.id none := by
      have hleft : org.seat c { a with status := .retired } = none := if_neg fun h => h.2 rfl
      rw [← hleft]
      exact desk_setAgent (b := { a with status := .retired }) ha
    rw [hdesk, List.foldl_append, ht c, List.foldl_cons, List.foldl_nil, note]
    split
    · rfl
    · next hc => rw [eq_comm, Function.update_eq_self_iff, desk_of ha, seat_elsewhere hc]

theorem agent_of {id : Id} {a : Agent} (h : org.agent id = some a) : org.agent a.id = some a := by
  rw [(mem_of_agent h).2]
  exact h

theorem projected_congr {a b : Agent} (hdepartment : a.departmentId = b.departmentId)
    (hcompany : a.companyId = b.companyId) : org.projected a = org.projected b := by
  unfold Org.projected
  rw [hdepartment, hcompany]

/-- An agent that moves: its role and its place change, and whether it is drawn does not. -/
theorem seat_moved (org : Org) (c : Id) (a : Agent) (r : Role) :
    org.seat c (Org.moved a r) = (org.seat c a).map fun face =>
      { face with role := r.key, place := org.projected (Org.moved a r) } := by
  have hwho : (Org.moved a r).companyId = a.companyId ∧ (Org.moved a r).status = a.status :=
    ⟨rfl, rfl⟩
  rw [Org.seat, Org.seat, hwho.1, hwho.2]
  split <;> rfl

theorem amend_eq {β : Type} (m : Id → Option β) (k : Id) (f : β → β) :
    amend m (some k) f = Function.update m k ((m k).map f) := by
  funext id
  unfold amend
  by_cases hid : id = k
  · rw [hid, if_pos rfl, Function.update_self]
  · rw [Function.update_of_ne hid, if_neg fun heq => hid (Option.some.inj heq).symm]

theorem Told.assign {a : Agent} {r : Role} (ht : Told org) (h : Sound org) (hr : r ∈ org.roles)
    (ha : org.agent a.id = some a) (hok : org.assign a r = .ok org') : Told org' := by
  obtain ⟨hcompany, rfl⟩ := assign_ok hok
  intro c
  have hdesk : { org.setAgent (Org.moved a r) with
      events := org.events ++ org.assigned a r }.desk c =
      Function.update (org.desk c) a.id ((org.desk c a.id).map fun face =>
        { face with role := r.key, place := org.projected (Org.moved a r) }) := by
    rw [desk_of ha, ← seat_moved]
    exact desk_setAgent (b := Org.moved a r) ha
  rw [hdesk, List.foldl_append, ht c]
  unfold Org.assigned
  split
  · -- nothing is emitted: neither the role nor the place changes
    next hsame =>
    obtain ⟨hdepartment, hrole⟩ := Prod.mk.inj hsame
    have hplace : org.projected (Org.moved a r) = org.projected a :=
      projected_congr hdepartment.symm rfl
    rw [eq_comm, List.foldl_nil, Function.update_eq_self_iff, desk_of ha, hplace, ← hrole, Org.seat]
    split <;> rfl
  · obtain ⟨hplacement, hdepartment⟩ := h.placed hr (a := Org.moved a r) rfl hcompany
    rw [hplacement, ← hdepartment, List.foldl_cons, List.foldl_nil, note]
    split
    · exact amend_eq _ _ _
    · next hc =>
      rw [eq_comm, Function.update_eq_self_iff, desk_of ha, seat_elsewhere hc, Option.map_none]

theorem Told.act {x : Org.Act} (ht : Told org) (h : Sound org)
    (hact : org.act x = some (.ok org')) : Told org' := by
  have h' := h.act hact
  cases x with
  | addBusinessUnit unit =>
    obtain ⟨-, -, rfl⟩ := addBusinessUnit_ok (Option.some.inj hact)
    exact ht.grow h h' (List.Subset.refl _) (List.subset_append_left _ _) rfl rfl
  | addDepartment department =>
    obtain ⟨_, -, -, -, -, -, rfl⟩ := addDepartment_ok (Option.some.inj hact)
    exact ht.grow h h' (List.subset_append_left _ _) (List.Subset.refl _) rfl rfl
  | addRole role =>
    obtain ⟨-, -, -, rfl⟩ := addRole_ok (Option.some.inj hact)
    exact ht.grow h h' (List.Subset.refl _) (List.Subset.refl _) rfl rfl
  | addProduct product =>
    obtain ⟨-, -, rfl⟩ := addProduct_ok (Option.some.inj hact)
    exact ht.grow h h' (List.Subset.refl _) (List.Subset.refl _) rfl rfl
  | hire id companyId role displayName avatarKey capabilities position =>
    cases position with
    | none => exact ht.hire h (fun p hp => by cases hp) (Option.some.inj hact)
    | some position =>
      obtain ⟨p, hp, hok⟩ := Option.map_eq_some_iff.mp hact
      refine ht.hire h (fun q hq => ?_) hok
      rw [← Option.some.inj hq]
      exact (mem_of_role hp).1
  | assign agent role =>
    obtain ⟨r, hr, hact⟩ := Option.bind_eq_some_iff.mp hact
    obtain ⟨a, ha, hok⟩ := Option.map_eq_some_iff.mp hact
    exact ht.assign h (mem_of_role hr).1 (agent_of ha) hok
  | pause agent =>
    obtain ⟨a, ha, hok⟩ := Option.map_eq_some_iff.mp hact
    rcases pause_ok hok with rfl | ⟨hstays, rfl⟩
    · exact ht
    · exact ht.setStatus (agent_of ha) hstays (by decide)
  | resume agent =>
    obtain ⟨a, ha, hok⟩ := Option.map_eq_some_iff.mp hact
    rcases resume_ok hok with rfl | ⟨hstays, rfl⟩
    · exact ht
    · exact ht.setStatus (agent_of ha) hstays (by decide)
  | retire agent openRun reason =>
    obtain ⟨a, ha, hok⟩ := Option.map_eq_some_iff.mp hact
    exact ht.retire (agent_of ha) hok

theorem Told.empty : Told ⟨[], [], [], [], [], []⟩ := fun _ => rfl

theorem told (h : organization.Reach anyStep org) : Told org := by
  have hboth : Sound org ∧ Told org := by
    refine h.invariant (I := fun org => Sound org ∧ Told org) (fun s hinit => ?_)
      fun s x t hs _ hstep => ?_
    · rw [show s = ⟨[], [], [], [], [], []⟩ from hinit]
      exact ⟨Sound.empty, Told.empty⟩
    · rcases step_cases hstep with rfl | hact
      · exact hs
      · exact ⟨hs.1.act hact, hs.2.act hs.1 hact⟩
  exact hboth.2

/-! ## Following the events -/

def faces (s : RealtimeState) (id : Id) : Option Face :=
  (s.agents id).map fun a => ⟨a.role, a.displayName, a.avatarKey, a.place⟩

/-- The events about who works where. -/
def tells : Realtime.Body → Bool
  | .runtime (.agentCreated ..) => true
  | .runtime (.agentAssigned ..) => true
  | .runtime (.agentRetired ..) => true
  | _ => false

def notice (e : Realtime.Event) : Option Notice :=
  match e.body, e.agentId with
  | .runtime payload, some id => if tells e.body then some ⟨e.companyId, id, payload⟩ else none
  | _, _ => none

/-- Numbered one after another, after the last one that was seen. -/
def Numbered : Nat → List Realtime.Event → Prop
  | _, [] => True
  | last, e :: events => ∃ seq, e.seq = some seq ∧ last < seq ∧ Numbered seq events

theorem Numbered.mono {last last' : Nat} {events : List Realtime.Event}
    (h : Numbered last' events) (hlast : last ≤ last') : Numbered last events := by
  cases events with
  | nil => trivial
  | cons e events =>
    obtain ⟨seq, hseq, hlt, hrest⟩ := h
    exact ⟨seq, hseq, hlast.trans_lt hlt, hrest⟩

theorem faces_amend (s : RealtimeState) (k : Option Id) {f : Realtime.Agent → Realtime.Agent}
    (hf : ∀ a, (f a).role = a.role ∧ (f a).displayName = a.displayName ∧
      (f a).avatarKey = a.avatarKey ∧ (f a).place = a.place) :
    faces { s with agents := amend s.agents k f } = faces s := by
  funext id
  unfold faces amend
  dsimp only
  split
  · rw [Option.map_map]
    refine congrFun (congrArg Option.map (funext fun a => ?_)) _
    obtain ⟨hrole, hname, havatar, hplace⟩ := hf a
    rw [Function.comp, hrole, hname, havatar, hplace]
  · rfl

/-- An agent at work stays where it is. -/
theorem faces_silent (s : RealtimeState) {e : Realtime.Event} (seq : Nat)
    (h : tells e.body = false) : faces (s.reduce e seq) = faces s := by
  unfold RealtimeState.reduce
  split
  · next hbody => simp [hbody, tells] at h
  · next hbody => simp [hbody, tells] at h
  · split <;> rfl
  · rfl
  · next hbody => simp [hbody, tells] at h
  · split <;> rfl
  · split
    · split
      · rfl
      · exact faces_amend s _ fun a => ⟨rfl, rfl, rfl, rfl⟩
    · split <;> rfl
  · split <;> rfl

theorem faces_update (s : RealtimeState) (id : Id) (a : Option Realtime.Agent) :
    faces { s with agents := Function.update s.agents id a } = Function.update (faces s) id
      (a.map fun a => ⟨a.role, a.displayName, a.avatarKey, a.place⟩) := by
  funext id'
  unfold faces
  dsimp only
  by_cases h : id' = id
  · rw [h, Function.update_self, Function.update_self]
  · rw [Function.update_of_ne h, Function.update_of_ne h]

theorem tells_cases {b : Realtime.Body} (h : tells b = true) :
    (∃ role displayName capabilities avatarKey place,
      b = .runtime (.agentCreated role displayName capabilities avatarKey place)) ∨
    (∃ role roleId place, b = .runtime (.agentAssigned role roleId place)) ∨
    ∃ role displayName reason, b = .runtime (.agentRetired role displayName reason) := by
  unfold tells at h
  split at h
  · exact .inl ⟨_, _, _, _, _, rfl⟩
  · exact .inr (.inl ⟨_, _, _, rfl⟩)
  · exact .inr (.inr ⟨_, _, _, rfl⟩)
  · cases h

theorem amend_map {α β : Type} {m : Id → Option α} {k : Option Id} {f : α → α} {g : α → β}
    {f' : β → β} (h : ∀ a, g (f a) = f' (g a)) :
    (fun id => (amend m k f id).map g) = amend (fun id => (m id).map g) k f' := by
  funext id
  unfold amend
  split
  · rw [Option.map_map, Option.map_map]
    exact congrFun (congrArg Option.map (funext h)) _
  · rfl

theorem faces_reduce (s : RealtimeState) {e : Realtime.Event} (seq : Nat)
    (hcompany : e.companyId = c) : faces (s.reduce e seq) =
      ((notice e).map (note c (faces s))).getD (faces s) := by
  cases hsilent : tells e.body with
  | false =>
    have hnone : notice e = none := by
      unfold notice
      split
      · rw [hsilent, if_neg Bool.false_ne_true]
      · rfl
    rw [hnone]
    exact faces_silent s seq hsilent
  | true =>
    unfold notice
    cases hid : e.agentId with
    | none =>
      obtain ⟨_, _, _, _, _, hbody⟩ | ⟨_, _, _, hbody⟩ | ⟨_, _, _, hbody⟩ := tells_cases hsilent
      · simp [RealtimeState.reduce, hbody, hid]
      · simp only [RealtimeState.reduce, hbody, hid]
        funext id
        simp [faces, amend]
      · simp [RealtimeState.reduce, hbody, hid]
    | some id =>
      obtain ⟨role, name, _, avatar, place, hbody⟩ | ⟨role, roleId, place, hbody⟩ |
        ⟨role, name, reason, hbody⟩ := tells_cases hsilent
      · simp only [RealtimeState.reduce, hbody, hid, tells, if_true, Option.map_some,
          Option.getD_some, note, hcompany]
        exact faces_update s id _
      · simp only [RealtimeState.reduce, hbody, hid, tells, if_true, Option.map_some,
          Option.getD_some, note, hcompany]
        exact amend_map fun a => rfl
      · simp only [RealtimeState.reduce, hbody, hid, tells, if_true, Option.map_some,
          Option.getD_some, note, hcompany]
        exact faces_update s id none

theorem reduce_frame (s : RealtimeState) (e : Realtime.Event) (seq : Nat) :
    (s.reduce e seq).companyId = s.companyId ∧ (s.reduce e seq).lastSeq = s.lastSeq := by
  unfold RealtimeState.reduce
  split
  · split <;> exact ⟨rfl, rfl⟩
  · exact ⟨rfl, rfl⟩
  · split <;> exact ⟨rfl, rfl⟩
  · exact ⟨rfl, rfl⟩
  · split <;> exact ⟨rfl, rfl⟩
  · split <;> exact ⟨rfl, rfl⟩
  · split
    · split <;> exact ⟨rfl, rfl⟩
    · split <;> exact ⟨rfl, rfl⟩
  · split <;> exact ⟨rfl, rfl⟩

theorem notice_company {e : Realtime.Event} {n : Notice} (h : notice e = some n) :
    n.companyId = e.companyId := by
  unfold notice at h
  split at h
  · split at h
    · cases h
      rfl
    · cases h
  · cases h

theorem faces_apply {s : RealtimeState} {e : Realtime.Event} {seq : Nat} (hseq : e.seq = some seq)
    (hlast : s.lastSeq < seq) (hs : s.companyId = c) :
    faces (s.apply e) = ((notice e).map (note c (faces s))).getD (faces s) ∧
      (s.apply e).companyId = c ∧ (s.apply e).lastSeq ≤ seq := by
  unfold RealtimeState.apply
  rw [hseq]
  dsimp only
  by_cases hcompany : e.companyId = s.companyId
  · rw [if_neg (by simp [hcompany, hlast])]
    obtain ⟨hc, hl⟩ := reduce_frame
      { s with lastSeq := seq, recent := (s.recent ++ [e]).rtake Realtime.recentEvents } e seq
    exact ⟨faces_reduce _ seq (hcompany.trans hs), hc.trans hs, hl.le⟩
  · rw [if_pos (Or.inr hcompany)]
    refine ⟨?_, hs, hlast.le⟩
    cases hn : notice e with
    | none => rfl
    | some n =>
      rw [Option.map_some, Option.getD_some, note, if_neg]
      rw [notice_company hn, ← hs]
      exact hcompany

/-- Following the stream does to the faces what the events about them do. -/
theorem faces_follow (events : List Realtime.Event) {s : RealtimeState} (hs : s.companyId = c)
    (hnumbered : Numbered s.lastSeq events) :
    faces (events.foldl RealtimeState.apply s) =
      (events.filterMap notice).foldl (note c) (faces s) := by
  induction events generalizing s with
  | nil => rfl
  | cons e events ih =>
    obtain ⟨seq, hseq, hlast, hrest⟩ := hnumbered
    obtain ⟨hfaces, hcompany, hseen⟩ := faces_apply hseq hlast hs
    rw [List.foldl_cons, ih hcompany (hrest.mono hseen), hfaces]
    cases hn : notice e with
    | none => rw [List.filterMap_cons_none hn, Option.map_none, Option.getD_none]
    | some n => rw [List.filterMap_cons_some hn, List.foldl_cons, Option.map_some, Option.getD_some]

/-- Walking up from the department, joining it with its parent and following the events give an
agent the same place. -/
theorem drawn_where_charted (h : organization.Reach anyStep org) {s : RealtimeState}
    (hagents : s.agents = fun _ => none) {events : List Realtime.Event}
    (hnumbered : Numbered s.lastSeq events) (htold : events.filterMap notice = org.events) :
    faces (events.foldl RealtimeState.apply s) = org.desk s.companyId ∧
      ∀ a ∈ org.agents, org.projected a = org.placement (a.departmentId.bind org.department) := by
  have hs := sound h
  constructor
  · have hblank : faces s = fun _ => none := by
      unfold faces
      rw [hagents]
      rfl
    rw [faces_follow events rfl hnumbered, htold, hblank]
    exact told h s.companyId
  · intro a ha
    cases hid : a.departmentId with
    | none => exact projected_none hid
    | some id =>
      obtain ⟨d, hd, rfl, hcompany⟩ := hs.home ha hid
      obtain ⟨unit, hunit, hmem⟩ := hs.business hd
      rw [Option.bind_some, hs.department_of_mem hd,
        hs.placement_eq hd hunit fun u hu => (hmem u hu).1]
      exact hs.projected_eq hd hid hcompany hunit hmem

-- where the newsroom is, and its team with it
def inNewsroom (id : Id) (key : String) : Placement :=
  ⟨some id, some key, some "newsroom", some "media"⟩

def numbered (seq : Nat) (agent : Id) (payload : Payload) : Realtime.Event :=
  ⟨some seq, 1, 0, some agent, none, none, none, none, .runtime payload⟩

-- what the founding emits, and in between an agent that rests
def stream : List Realtime.Event :=
  [numbered 1 40 (.agentCreated "researcher" "Ada" ["search"] "default" (inNewsroom 21 "research")),
    numbered 2 40 (.agentIdle .initialized),
    numbered 4 41 (.agentCreated "ceo" "Bo" [] "default" ⟨none, none, none, none⟩),
    numbered 5 42 (.agentCreated "researcher" "Cy" ["search"] "default" (inNewsroom 21 "research")),
    numbered 7 40 (.agentAssigned "editor" 31 (inNewsroom 20 "newsroom")),
    numbered 8 42 (.agentRetired "researcher" "Cy" none)]

theorem drawn_where_charted_founded : ∃ org, organization.Reach anyStep org ∧
    faces (stream.foldl RealtimeState.apply ⟨1, 0, none, fun _ => none, fun _ => none, []⟩) =
      org.desk 1 ∧
    org.desk 1 40 = some ⟨"editor", "Ada", "default", inNewsroom 20 "newsroom"⟩ ∧
    org.desk 1 42 = none := by
  obtain ⟨org, hreach, hrun⟩ := founded
    (f := fun org => (org.events, org.desk 1 40, org.desk 1 42))
    (x := (stream.filterMap notice,
      some ⟨"editor", "Ada", "default", inNewsroom 20 "newsroom"⟩, none)) rfl
  obtain ⟨hevents, hdesks⟩ := Prod.mk.inj hrun
  obtain ⟨hada, hcy⟩ := Prod.mk.inj hdesks
  have hnumbered : Numbered 0 stream := by simp [Numbered, stream, numbered]
  exact ⟨org, hreach, (drawn_where_charted (s := ⟨1, 0, none, fun _ => none, fun _ => none, []⟩)
    hreach rfl hnumbered hevents.symm).1, hada, hcy⟩

end Autora.Organization
