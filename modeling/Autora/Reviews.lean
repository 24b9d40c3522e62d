import Autora.AutoPause

/-! `Governance.review` over every company: it completes, it pauses what its criteria say and
a second review changes nothing, if and only if what it reads can be read. -/

namespace Autora.Governance

variable {F : Type} {pf : Platform F} {cycle : Cycle} {w t u : Company F}

def ProjectActive (cycle : Cycle) (w : Company F) (i : Nat) (p : Project) : Prop :=
  w.projects[i]? = some p ∧ p.companyId = cycle.companyId ∧ p.state = .active

def UnitActive (cycle : Cycle) (w : Company F) (k : Nat) (b : BusinessUnit) : Prop :=
  w.units[k]? = some b ∧ b.companyId = cycle.companyId ∧ b.state = .active

def AgentActive (cycle : Cycle) (w : Company F) (k : Nat) (a : Agent) : Prop :=
  w.agents[k]? = some a ∧ a.companyId = cycle.companyId ∧ a.status = .active

/-- An active business whose criterion is well formed and met. -/
def UnitStops (pf : Platform F) (cycle : Cycle) (w : Company F) (k : Nat) (b : BusinessUnit) :
    Prop :=
  UnitActive cycle w k b ∧ Met pf cycle w.snapshots (.businessUnit k) b.killCriteria

/-- An active project whose criterion is well formed and met, or whose business stops. -/
def ProjectStops (pf : Platform F) (cycle : Cycle) (w : Company F) (i : Nat) (p : Project) :
    Prop :=
  ProjectActive cycle w i p ∧
    (Met pf cycle w.snapshots (.project i) p.killCriteria ∨
      ∃ k b, p.businessUnitId = some k ∧ UnitStops pf cycle w k b)

/-- The review completes. A project or a business is paused if and only if it stops, and a
second review leaves everything but its own record as it is. -/
def Governs (pf : Platform F) (cycle : Cycle) (w : Company F) : Prop :=
  ∃ t, review pf cycle w = .ok t ∧
    (∀ (i : Nat) (p : Project), w.projects[i]? = some p →
      (ProjectStops pf cycle w i p → t.projects[i]? = some { p with state := .paused }) ∧
      (¬ ProjectStops pf cycle w i p → t.projects[i]? = some p)) ∧
    (∀ (k : Nat) (b : BusinessUnit), w.units[k]? = some b →
      (UnitStops pf cycle w k b → t.units[k]? = some { b with state := .paused }) ∧
      (¬ UnitStops pf cycle w k b → t.units[k]? = some b)) ∧
    ∃ u, review pf cycle t = .ok u ∧ u = { t with governance := u.governance }

/-- What the review reads can be read, and no project it is to pause was paused by this
cycle's rules before and is active again. -/
structure Legible (pf : Platform F) (cycle : Cycle) (w : Company F) : Prop where
  projects : ∀ i p, ProjectActive cycle w i p →
    Readable pf cycle w.snapshots (.project i) p.killCriteria
  units : ∀ k b, UnitActive cycle w k b →
    Readable pf cycle w.snapshots (.businessUnit k) b.killCriteria
  budgets : ∀ b ∈ w.budgets, b.companyId = cycle.companyId →
    BudgetReadable pf cycle w.snapshots b
  fresh : ∀ i p, ProjectStops pf cycle w i p →
    w.commands.lookup (cycle.id, .project i) = none

theorem mem_activeProjects {x : Id × Project} :
    x ∈ activeProjects cycle w ↔ ProjectActive cycle w x.1 x.2 := by
  obtain ⟨i, p⟩ := x
  simp only [activeProjects, List.mem_filterMap, Prod.exists, List.mem_zipIdx_iff_getElem?,
    ProjectActive]
  constructor
  · rintro ⟨q, j, hq, h⟩
    split at h
    · next hc =>
      cases h
      exact ⟨hq, hc⟩
    · cases h
  · rintro ⟨hp, hc⟩
    exact ⟨p, i, hp, by rw [if_pos hc]⟩

theorem mem_activeUnits {x : Id × BusinessUnit} :
    x ∈ activeUnits cycle w ↔ UnitActive cycle w x.1 x.2 := by
  obtain ⟨i, p⟩ := x
  simp only [activeUnits, List.mem_filterMap, Prod.exists, List.mem_zipIdx_iff_getElem?,
    UnitActive]
  constructor
  · rintro ⟨q, j, hq, h⟩
    split at h
    · next hc =>
      cases h
      exact ⟨hq, hc⟩
    · cases h
  · rintro ⟨hp, hc⟩
    exact ⟨p, i, hp, by rw [if_pos hc]⟩

theorem mem_activeAgents {x : Id × Agent} :
    x ∈ activeAgents cycle w ↔ AgentActive cycle w x.1 x.2 := by
  obtain ⟨i, p⟩ := x
  simp only [activeAgents, List.mem_filterMap, Prod.exists, List.mem_zipIdx_iff_getElem?,
    AgentActive]
  constructor
  · rintro ⟨q, j, hq, h⟩
    split at h
    · next hc =>
      cases h
      exact ⟨hq, hc⟩
    · cases h
  · rintro ⟨hp, hc⟩
    exact ⟨p, i, hp, by rw [if_pos hc]⟩

/-- The projects the criteria stop, as the loops find them. -/
def stopped (pf : Platform F) (cycle : Cycle) (w : Company F) (i : Id) : Bool :=
  ((activeProjects cycle w).any fun x => x.1 == i && projectBreaches pf cycle w.snapshots x) ||
    (activeUnits cycle w).any fun y => unitBreaches pf cycle w.snapshots y &&
      (activeProjects cycle w).any fun x => x.1 == i && x.2.businessUnitId == some y.1

def stoppedUnit (pf : Platform F) (cycle : Cycle) (w : Company F) (k : Id) : Bool :=
  (activeUnits cycle w).any fun y => y.1 == k && unitBreaches pf cycle w.snapshots y

/-- The criteria of the active projects and businesses can be read. -/
def CriteriaReadable (pf : Platform F) (cycle : Cycle) (w : Company F) : Prop :=
  (∀ x ∈ activeProjects cycle w, ProjectReadable pf cycle w.snapshots x) ∧
    ∀ y ∈ activeUnits cycle w, UnitReadable pf cycle w.snapshots y

theorem Halts.activeUnits_eq {S : Id → Bool} (h : Halts cycle S (fun _ => false) w t) :
    activeUnits cycle t = activeUnits cycle w := by
  have hu : t.units = w.units := by
    apply List.ext_getElem?
    intro k
    rw [h.units k]
    cases w.units[k]? <;> rfl
  unfold activeUnits
  rw [hu]

theorem Fixed.start {n : Nat} : Fixed cycle w { checkedProjects := n } :=
  fun _ h => absurd h List.not_mem_nil

theorem killCriteria_ok (h : CriteriaReadable pf cycle w) :
    ∃ t done, killCriteria pf cycle (w, {}) = .ok (t, done) ∧
      Halts cycle (stopped pf cycle w) (stoppedUnit pf cycle w) w t := by
  obtain ⟨t, done, ht, hh, hf⟩ := @judgeProjects_ok _ _ _ (activeProjects cycle w) _
    { checkedProjects := (activeProjects cycle w).length } h.1 Fixed.start
  have hunits := hh.activeUnits_eq
  obtain ⟨v, done', hv, hh'⟩ := @judgeUnits_ok _ pf _ (activeProjects cycle w)
    (activeUnits cycle w) t { done with checkedUnits := (activeUnits cycle w).length }
    (by rw [hh.snapshots]; exact h.2) hf
  refine ⟨v, done', ?_, ?_⟩
  · unfold killCriteria
    show (judgeProjects pf cycle (activeProjects cycle w) _ >>= _) = _
    rw [ht]
    show judgeUnits pf cycle (activeProjects cycle w) (activeUnits cycle t)
      (t, { done with checkedUnits := (activeUnits cycle t).length }) = _
    rw [hunits]
    exact hv
  · rw [hh.snapshots] at hh'
    exact (hh.trans hh').congr (fun i => rfl) (fun k => Bool.false_or _)

theorem killCriteria_readable {s : State F} (h : killCriteria pf cycle (w, {}) = .ok s) :
    CriteriaReadable pf cycle w := by
  unfold killCriteria at h
  change (judgeProjects pf cycle (activeProjects cycle w) _ >>= _) = _ at h
  cases hj : judgeProjects pf cycle (activeProjects cycle w)
      (w, { checkedProjects := (activeProjects cycle w).length }) with
  | error e =>
    rw [hj] at h
    cases h
  | ok s' =>
    have hp := judgeProjects_readable _ hj
    obtain ⟨t, done, ht, hh, hf⟩ := @judgeProjects_ok _ _ _ (activeProjects cycle w) _
      { checkedProjects := (activeProjects cycle w).length } hp Fixed.start
    rw [ht] at h
    have hu := @judgeUnits_readable _ _ cycle _ _ t
      { done with checkedUnits := (activeUnits cycle t).length } _ hf h
    rw [hh.activeUnits_eq, hh.snapshots] at hu
    exact ⟨hp, hu⟩

theorem review_ok_iff :
    review pf cycle w = .ok t ↔ ∃ s s', killCriteria pf cycle (w, {}) = .ok s ∧
      nearTheCap pf cycle (failingAgents cycle s) = .ok s' ∧ t = recordGoverned cycle s' := by
  unfold review
  cases hk : killCriteria pf cycle (w, {}) with
  | error e => exact ⟨nofun, fun ⟨_, _, h, _⟩ => by cases h⟩
  | ok s =>
    show (nearTheCap pf cycle (failingAgents cycle s) >>= _) = _ ↔ _
    cases hn : nearTheCap pf cycle (failingAgents cycle s) with
    | error e =>
      refine ⟨nofun, ?_⟩
      rintro ⟨_, _, h, h', _⟩
      cases h
      rw [hn] at h'
      cases h'
    | ok s' =>
      constructor
      · intro h
        cases h
        exact ⟨s, s', rfl, hn, rfl⟩
      · rintro ⟨_, _, h, h', rfl⟩
        cases h
        rw [hn] at h'
        cases h'
        rfl

theorem stopped_iff (h : CriteriaReadable pf cycle w) {i : Id} :
    stopped pf cycle w i = true ↔ ∃ p, ProjectStops pf cycle w i p := by
  simp only [stopped, Bool.or_eq_true, List.any_eq_true, Bool.and_eq_true, beq_iff_eq]
  constructor
  · rintro (⟨⟨j, p⟩, hx, rfl, hb⟩ | ⟨⟨k, b⟩, hy, hb, ⟨j, p⟩, hx, rfl, hu⟩)
    · exact ⟨p, mem_activeProjects.mp hx, .inl ((breaches_iff (h.1 _ hx)).mp hb)⟩
    · exact ⟨p, mem_activeProjects.mp hx, .inr ⟨k, b, hu, mem_activeUnits.mp hy,
        (breaches_iff (h.2 _ hy)).mp hb⟩⟩
  · rintro ⟨p, ha, hm | ⟨k, b, hu, hb, hm⟩⟩
    · have hx := mem_activeProjects (x := (i, p)).mpr ha
      exact .inl ⟨(i, p), hx, rfl, (breaches_iff (h.1 _ hx)).mpr hm⟩
    · have hy := mem_activeUnits (x := (k, b)).mpr hb
      exact .inr ⟨(k, b), hy, (breaches_iff (h.2 _ hy)).mpr hm, (i, p),
        mem_activeProjects.mpr ha, rfl, hu⟩

theorem stoppedUnit_iff (h : CriteriaReadable pf cycle w) {k : Id} :
    stoppedUnit pf cycle w k = true ↔ ∃ b, UnitStops pf cycle w k b := by
  simp only [stoppedUnit, List.any_eq_true, Bool.and_eq_true, beq_iff_eq]
  constructor
  · rintro ⟨⟨j, b⟩, hy, rfl, hb⟩
    exact ⟨b, mem_activeUnits.mp hy, (breaches_iff (h.2 _ hy)).mp hb⟩
  · rintro ⟨b, ha, hm⟩
    have hy := mem_activeUnits (x := (k, b)).mpr ha
    exact ⟨(k, b), hy, rfl, (breaches_iff (h.2 _ hy)).mpr hm⟩

theorem Halts.project (h : Halts cycle (stopped pf cycle w) (stoppedUnit pf cycle w) w t)
    (hr : CriteriaReadable pf cycle w) {i : Nat} {p : Project} (hp : w.projects[i]? = some p) :
    (ProjectStops pf cycle w i p → w.commands.lookup (cycle.id, .project i) = none →
      t.projects[i]? = some { p with state := .paused }) ∧
    ((¬ ProjectStops pf cycle w i p ∨ w.commands.lookup (cycle.id, .project i) ≠ none) →
      t.projects[i]? = some p) := by
  have hs := h.slots i
  have hrow : slot cycle w i = (some p, w.commands.lookup (cycle.id, .project i)) := by
    unfold slot
    rw [hp]
  have hslot : t.projects[i]? = (slot cycle t i).1 := rfl
  constructor
  · intro hstop hkey
    rw [hslot, hs, if_pos ((stopped_iff hr).mpr ⟨p, hstop⟩), hrow, hkey]
    simp only [halted, hstop.1.2.2, hstop.1.2.1, if_true]
  · intro hno
    rw [hslot, hs, hrow]
    split
    · next hstop =>
      obtain ⟨p', hstop⟩ := (stopped_iff hr).mp hstop
      obtain rfl := Option.some.inj (hp.symm.trans hstop.1.1)
      cases hk : w.commands.lookup (cycle.id, .project i) with
      | none =>
        rcases hno with hno | hno
        · exact absurd hstop hno
        · exact absurd hk hno
      | some b => rfl
    · rfl

theorem Halts.unit (h : Halts cycle (stopped pf cycle w) (stoppedUnit pf cycle w) w t)
    (hr : CriteriaReadable pf cycle w) {k : Nat} {b : BusinessUnit} (hb : w.units[k]? = some b) :
    (UnitStops pf cycle w k b → t.units[k]? = some { b with state := .paused }) ∧
    (¬ UnitStops pf cycle w k b → t.units[k]? = some b) := by
  rw [h.units k, hb]
  constructor
  · intro hstop
    rw [Option.map_some, if_pos ((stoppedUnit_iff hr).mpr ⟨b, hstop⟩)]
  · intro hno
    rw [Option.map_some, if_neg]
    intro hstop
    obtain ⟨b', hstop⟩ := (stoppedUnit_iff hr).mp hstop
    obtain rfl := Option.some.inj (hb.symm.trans hstop.1.1)
    exact hno hstop

/-- What a review that completes leaves. -/
structure Reviewed (pf : Platform F) (cycle : Cycle) (w t : Company F) : Prop where
  halts : ∃ v, Halts cycle (stopped pf cycle w) (stoppedUnit pf cycle w) w v ∧
    t.projects = v.projects ∧ t.units = v.units
  snapshots : t.snapshots = w.snapshots
  budgets : t.budgets = w.budgets
  agents : ∀ k a, AgentActive cycle t k a → keepsFailing a = true →
    t.commands.lookup (cycle.id, .agent k) ≠ none

def BudgetsReadable (pf : Platform F) (cycle : Cycle) (w : Company F) : Prop :=
  ∀ b ∈ companyBudgets cycle w, BudgetReadable pf cycle w.snapshots b

theorem review_completes (hr : CriteriaReadable pf cycle w) (hb : BudgetsReadable pf cycle w) :
    ∃ t, review pf cycle w = .ok t ∧ Reviewed pf cycle w t := by
  obtain ⟨v, d, hk, hh⟩ := killCriteria_ok hr
  obtain ⟨hrest, hkeys⟩ := @pauseFailing_rested _ cycle (activeAgents cycle v) v
    { d with checkedAgents := (activeAgents cycle v).length }
  change Rested cycle v (failingAgents cycle (v, d)).1 at hrest
  have hb' : BudgetsReadable pf cycle (failingAgents cycle (v, d)).1 := by
    unfold BudgetsReadable companyBudgets
    rw [hrest.budgets, hh.budgets, hrest.snapshots, hh.snapshots]
    exact hb
  obtain ⟨d', hn⟩ := @announce_ok _ _ _ _ _ { (failingAgents cycle (v, d)).2 with
    checkedBudgets := (companyBudgets cycle (failingAgents cycle (v, d)).1).length } hb'
  refine ⟨recordGoverned cycle ((failingAgents cycle (v, d)).1, d'),
    review_ok_iff.mpr ⟨_, _, hk, hn, rfl⟩, ⟨v, hh, hrest.projects, hrest.units⟩,
    hrest.snapshots.trans hh.snapshots, hrest.budgets.trans hh.budgets, ?_⟩
  rintro k a ⟨ha, hc, hs⟩ hfail
  exact hkeys (k, a) (mem_activeAgents.mpr ⟨hrest.agents k a ha hs, hc, hs⟩) hfail

theorem review_reads (h : review pf cycle w = .ok t) :
    CriteriaReadable pf cycle w ∧ BudgetsReadable pf cycle w := by
  obtain ⟨s, s', hk, hn, -⟩ := review_ok_iff.mp h
  have hr := killCriteria_readable hk
  obtain ⟨v, d, hk', hh⟩ := killCriteria_ok hr
  rw [hk'] at hk
  cases hk
  have hrest := (@pauseFailing_rested _ cycle (activeAgents cycle v) v
    { d with checkedAgents := (activeAgents cycle v).length }).1
  change Rested cycle v (failingAgents cycle (v, d)).1 at hrest
  refine ⟨hr, ?_⟩
  have hb := announce_readable _ hn
  unfold companyBudgets at hb
  rw [hrest.budgets, hh.budgets, hrest.snapshots, hh.snapshots] at hb
  exact hb

/-- With nothing left in breach and no agent left to pause, a review writes its record only. -/
theorem review_quiet (hr : CriteriaReadable pf cycle w) (hb : BudgetsReadable pf cycle w)
    (hp : ∀ i p, ProjectActive cycle w i p → ¬ ProjectStops pf cycle w i p)
    (hu : ∀ k b, UnitActive cycle w k b → ¬ UnitStops pf cycle w k b)
    (ha : ∀ k a, AgentActive cycle w k a → keepsFailing a = true →
      w.commands.lookup (cycle.id, .agent k) ≠ none) :
    ∃ t, review pf cycle w = .ok t ∧ t = { w with governance := t.governance } := by
  have hquiet : ∀ x ∈ activeProjects cycle w, ProjectReadable pf cycle w.snapshots x ∧
      projectBreaches pf cycle w.snapshots x = false := by
    intro x hx
    refine ⟨hr.1 x hx, Bool.eq_false_iff.mpr fun hbreach => ?_⟩
    have hact := mem_activeProjects.mp hx
    exact hp _ _ hact ⟨hact, .inl ((breaches_iff (hr.1 x hx)).mp hbreach)⟩
  have huquiet : ∀ y ∈ activeUnits cycle w, UnitReadable pf cycle w.snapshots y ∧
      unitBreaches pf cycle w.snapshots y = false := by
    intro y hy
    refine ⟨hr.2 y hy, Bool.eq_false_iff.mpr fun hbreach => ?_⟩
    have hact := mem_activeUnits.mp hy
    exact hu _ _ hact ⟨hact, (breaches_iff (hr.2 y hy)).mp hbreach⟩
  obtain ⟨d, hd⟩ := @judgeProjects_quiet _ _ _ _ (activeProjects cycle w)
    { checkedProjects := (activeProjects cycle w).length } hquiet
  obtain ⟨d', hd'⟩ := @judgeUnits_quiet _ _ _ _ (activeProjects cycle w) (activeUnits cycle w)
    { d with checkedUnits := (activeUnits cycle w).length } huquiet
  have hk : killCriteria pf cycle (w, {}) = .ok (w, d') := by
    unfold killCriteria
    show (judgeProjects pf cycle (activeProjects cycle w) _ >>= _) = _
    rw [hd]
    exact hd'
  have hstill : (failingAgents cycle (w, d')).1 = w :=
    pauseFailing_still _ fun x hx => ha x.1 x.2 (mem_activeAgents.mp hx)
  obtain ⟨d'', hn⟩ := @announce_ok _ _ _ (companyBudgets cycle w) _
    { (failingAgents cycle (w, d')).2 with
      checkedBudgets := (companyBudgets cycle w).length } hb
  refine ⟨recordGoverned cycle (w, d''), review_ok_iff.mpr ⟨_, _, hk, ?_, rfl⟩, rfl⟩
  unfold nearTheCap
  rw [hstill]
  exact hn

theorem Reviewed.project (h : Reviewed pf cycle w t) (hr : CriteriaReadable pf cycle w)
    {i : Nat} {p : Project} (hp : w.projects[i]? = some p) :
    (ProjectStops pf cycle w i p → w.commands.lookup (cycle.id, .project i) = none →
      t.projects[i]? = some { p with state := .paused }) ∧
    ((¬ ProjectStops pf cycle w i p ∨ w.commands.lookup (cycle.id, .project i) ≠ none) →
      t.projects[i]? = some p) := by
  obtain ⟨v, hh, hproj, -⟩ := h.halts
  rw [hproj]
  exact hh.project hr hp

theorem Reviewed.unit (h : Reviewed pf cycle w t) (hr : CriteriaReadable pf cycle w)
    {k : Nat} {b : BusinessUnit} (hb : w.units[k]? = some b) :
    (UnitStops pf cycle w k b → t.units[k]? = some { b with state := .paused }) ∧
    (¬ UnitStops pf cycle w k b → t.units[k]? = some b) := by
  obtain ⟨v, hh, -, hunits⟩ := h.halts
  rw [hunits]
  exact hh.unit hr hb

theorem Reviewed.projectActive (h : Reviewed pf cycle w t) (hl : Legible pf cycle w)
    (hr : CriteriaReadable pf cycle w) {i : Nat} {p : Project} (hp : ProjectActive cycle t i p) :
    ProjectActive cycle w i p ∧ ¬ ProjectStops pf cycle w i p := by
  obtain ⟨v, hh, hproj, -⟩ := h.halts
  cases hw : w.projects[i]? with
  | none =>
    have hslot : t.projects[i]? = (slot cycle v i).1 := by
      rw [hproj]
      rfl
    have hnone : slot cycle w i = (none, w.commands.lookup (cycle.id, .project i)) := by
      unfold slot
      rw [hw]
    obtain ⟨hp, -⟩ := hp
    rw [hslot, hh.slots, hnone] at hp
    split at hp <;> cases hp
  | some q =>
    by_cases hstop : ProjectStops pf cycle w i q
    · have ht := (h.project hr hw).1 hstop (hl.fresh i q hstop)
      obtain rfl := Option.some.inj (ht.symm.trans hp.1)
      exact absurd hp.2.2 nofun
    · have ht := (h.project hr hw).2 (.inl hstop)
      obtain rfl := Option.some.inj (ht.symm.trans hp.1)
      exact ⟨⟨hw, hp.2⟩, hstop⟩

theorem Reviewed.unitActive (h : Reviewed pf cycle w t) (hr : CriteriaReadable pf cycle w)
    {k : Nat} {b : BusinessUnit} (hb : UnitActive cycle t k b) :
    UnitActive cycle w k b ∧ ¬ UnitStops pf cycle w k b := by
  obtain ⟨v, hh, -, hunits⟩ := h.halts
  cases hw : w.units[k]? with
  | none =>
    obtain ⟨hb, -⟩ := hb
    rw [hunits, hh.units k, hw] at hb
    cases hb
  | some c =>
    by_cases hstop : UnitStops pf cycle w k c
    · obtain rfl := Option.some.inj (((h.unit hr hw).1 hstop).symm.trans hb.1)
      exact absurd hb.2.2 nofun
    · obtain rfl := Option.some.inj (((h.unit hr hw).2 hstop).symm.trans hb.1)
      exact ⟨⟨hw, hb.2⟩, hstop⟩

/-- A review of the rules completes, pauses the scopes whose criteria are well formed and met
with the projects of the businesses it pauses, and does nothing when it is made again, if and
only if what it reads can be read. -/
theorem governs_iff : Governs pf cycle w ↔ Legible pf cycle w := by
  constructor
  · rintro ⟨t, ht, hp, -, -⟩
    obtain ⟨hr, hb⟩ := review_reads ht
    obtain ⟨t', ht', hdone⟩ := review_completes hr hb
    rw [ht] at ht'
    cases ht'
    refine ⟨fun i p ha => hr.1 (i, p) (mem_activeProjects.mpr ha),
      fun k b ha => hr.2 (k, b) (mem_activeUnits.mpr ha), fun b hmem hc => ?_, ?_⟩
    · exact hb b (List.mem_filter.mpr ⟨hmem, by simpa using hc⟩)
    · intro i p hstop
      by_contra hkey
      have hpaused := (hp i p hstop.1.1).1 hstop
      have hkept := (hdone.project hr hstop.1.1).2 (.inr hkey)
      have hsame := Option.some.inj (hpaused.symm.trans hkept)
      have hstate := congrArg Project.state hsame
      rw [hstop.1.2.2] at hstate
      cases hstate
  · intro hl
    have hr : CriteriaReadable pf cycle w :=
      ⟨fun x hx => hl.projects x.1 x.2 (mem_activeProjects.mp hx),
        fun y hy => hl.units y.1 y.2 (mem_activeUnits.mp hy)⟩
    have hb : BudgetsReadable pf cycle w := by
      intro b hmem
      obtain ⟨hmem, hc⟩ := List.mem_filter.mp hmem
      exact hl.budgets b hmem (by simpa using hc)
    obtain ⟨t, ht, hdone⟩ := review_completes hr hb
    refine ⟨t, ht, ?_, fun k b hbk => hdone.unit hr hbk, ?_⟩
    · intro i p hp
      have hrow := hdone.project hr hp
      exact ⟨fun hstop => hrow.1 hstop (hl.fresh i p hstop), fun hno => hrow.2 (.inl hno)⟩
    · apply review_quiet
      · refine ⟨fun x hx => ?_, fun y hy => ?_⟩
        · have ha := (hdone.projectActive hl hr (mem_activeProjects.mp hx)).1
          show Readable _ _ t.snapshots _ _
          rw [hdone.snapshots]
          exact hl.projects _ _ ha
        · have ha := (hdone.unitActive hr (mem_activeUnits.mp hy)).1
          show Readable _ _ t.snapshots _ _
          rw [hdone.snapshots]
          exact hl.units _ _ ha
      · unfold BudgetsReadable companyBudgets
        rw [hdone.budgets, hdone.snapshots]
        exact hb
      · intro i p hact hstop
        obtain ⟨hactw, hno⟩ := hdone.projectActive hl hr hact
        refine hno ⟨hactw, ?_⟩
        rcases hstop.2 with hm | ⟨k, b, hu, hb', hm⟩
        · rw [hdone.snapshots] at hm
          exact .inl hm
        · obtain ⟨hbw, hnou⟩ := hdone.unitActive hr hb'
          rw [hdone.snapshots] at hm
          exact absurd ⟨hbw, hm⟩ hnou
      · intro k b hact hstop
        obtain ⟨hactw, hno⟩ := hdone.unitActive hr hact
        have hm := hstop.2
        rw [hdone.snapshots] at hm
        exact hno ⟨hactw, hm⟩
      · exact hdone.agents

/-- A text of digits. -/
def digits (text : String) : Option Int :=
  if text ≠ "" ∧ text.toList.all Char.isDigit then
    some (text.toList.foldl (fun n c => 10 * n + (c.toNat - '0'.toNat)) 0)
  else none

/-- Exact numbers, and texts that are whole numbers. -/
def exact : Platform Rat where
  ofInt n := n
  ofRat q := q
  inf negative := if negative then -1 else 1
  readFloat text := (digits text).map fun n => (n : Rat)
  readInt := digits
  holds
    | .gt, a, b => b < a
    | .ge, a, b => b ≤ a
    | .lt, a, b => a < b
    | .le, a, b => a ≤ b
    | .eq, a, b => a = b
    | .ne, a, b => a ≠ b
  maxLimit := 2147483647
  measuredRatio cost cap := cost / cap
  ledgerRatio spent cap := spent / cap
  quiet r := r < 4 / 5 ∨ 1 ≤ r
  percent r := some (r * 100).floor

def costly (op cycles : Value) : Value :=
  .dict [("auto_pause_if", .dict [("metric", .str "cost"), ("op", op), ("value", .int 3),
    ("consecutive_cycles", cycles)])]

/-- A company with one project, which cost more than its criterion allows. -/
def oneProject (criteria : Value) : Company Rat where
  projects := [⟨0, .active, none, some criteria⟩]
  units := []
  agents := []
  snapshots := [⟨0, some 7, .project 0, [("cost", .int 4)]⟩]
  budgets := []
  commands := []
  governance _ := none

def seventh : Cycle := ⟨7, 0, 7⟩

theorem review_raises : ¬ Governs exact seventh (oneProject (costly (.str ">") (.str "three"))) ∧
    ¬ Governs exact seventh (oneProject (costly (.list []) (.int 1))) ∧
    ¬ Governs exact seventh (oneProject (costly (.str ">") (.int (-1)))) := by
  refine ⟨?_, ?_, ?_⟩
  · rintro ⟨t, ht, -⟩
    have hraise : review exact seventh (oneProject (costly (.str ">") (.str "three"))) =
      .error .valueError := rfl
    rw [hraise] at ht
    cases ht
  · rintro ⟨t, ht, -⟩
    have hraise : review exact seventh (oneProject (costly (.list []) (.int 1))) =
      .error .typeError := rfl
    rw [hraise] at ht
    cases ht
  · rintro ⟨t, ht, -⟩
    have hraise : review exact seventh (oneProject (costly (.str ">") (.int (-1)))) =
      .error .databaseError := rfl
    rw [hraise] at ht
    cases ht

end Autora.Governance
