import Autora.KillCriteria

/-! What one review of the rules leaves of a company, and what a second one leaves of that. -/

namespace Autora.Governance

variable {F : Type} {pf : Platform F} {cycle : Cycle} {w t u : Company F} {done : Governed F}
  {S S' U U' : Id → Bool}

/-- A project, with the auto-pause command of the cycle there is for it. -/
abbrev Slot := Option Project × Option Bool

def slot (cycle : Cycle) (w : Company F) (i : Id) : Slot :=
  (w.projects[i]?, w.commands.lookup (cycle.id, .project i))

/-- What pausing a project leaves of it: nothing happens unless it is active, and a command
that is already there is not run again. -/
def halted (company : Id) : Slot → Slot
  | (some p, none) =>
    if p.state = .active then
      if p.companyId = company then (some { p with state := .paused }, some true)
      else (some p, some false)
    else (some p, none)
  | s => s

theorem halted_halted (company : Id) (x : Slot) :
    halted company (halted company x) = halted company x := by
  obtain ⟨o, b⟩ := x
  cases o with
  | none => rfl
  | some p =>
    cases b with
    | some b => rfl
    | none =>
      by_cases ha : p.state = .active
      · by_cases hc : p.companyId = company <;> simp [halted, ha, hc]
      · simp [halted, ha]

/-- The projects of `S` were paused and the businesses of `U`; nothing else was touched. -/
structure Halts (cycle : Cycle) (S U : Id → Bool) (w t : Company F) : Prop where
  slots : ∀ i, slot cycle t i =
    if S i then halted cycle.companyId (slot cycle w i) else slot cycle w i
  units : ∀ k : Nat, t.units[k]? =
    (w.units[k]?).map fun u => if U k then { u with state := .paused } else u
  agentKeys : ∀ k, t.commands.lookup (cycle.id, .agent k) =
    w.commands.lookup (cycle.id, .agent k)
  agents : t.agents = w.agents
  snapshots : t.snapshots = w.snapshots
  budgets : t.budgets = w.budgets
  governance : t.governance = w.governance

theorem Halts.refl : Halts cycle (fun _ => false) (fun _ => false) w w := by
  refine ⟨fun _ => rfl, fun k => ?_, fun _ => rfl, rfl, rfl, rfl, rfl⟩
  cases w.units[k]? <;> rfl

theorem Halts.trans (h : Halts cycle S U w t) (h' : Halts cycle S' U' t u) :
    Halts cycle (fun i => S i || S' i) (fun k => U k || U' k) w u where
  slots i := by
    rw [h'.slots, h.slots]
    cases S i <;> cases S' i <;> simp [halted_halted]
  units k := by
    rw [h'.units, h.units, Option.map_map]
    congr 1
    funext x
    cases U k <;> cases U' k <;> simp
  agentKeys k := (h'.agentKeys k).trans (h.agentKeys k)
  agents := h'.agents.trans h.agents
  snapshots := h'.snapshots.trans h.snapshots
  budgets := h'.budgets.trans h.budgets
  governance := h'.governance.trans h.governance

theorem Halts.congr (h : Halts cycle S U w t) (hS : ∀ i, S i = S' i) (hU : ∀ k, U k = U' k) :
    Halts cycle S' U' w t := by
  obtain rfl : S = S' := funext hS
  obtain rfl : U = U' := funext hU
  exact h

theorem lookup_recorded {key key' : Id × Target} {b : Bool} {l : List ((Id × Target) × Bool)} :
    (l ++ [(key, b)]).lookup key' =
      (l.lookup key').or (if key' = key then some b else none) := by
  rw [List.lookup_append]
  congr 1
  by_cases h : key' = key
  · subst h
    simp
  · have hb : (key' == key) = false := beq_eq_false_iff_ne.mpr h
    simp only [List.lookup_cons, List.lookup_nil, hb, if_neg h]

theorem pauseProject_halts (i : Id) :
    Halts cycle (fun j => j == i) (fun _ => false) w (pauseProject cycle i w).1 := by
  have still : (halted cycle.companyId (slot cycle w i) = slot cycle w i) →
      Halts cycle (fun j => j == i) (fun _ => false) w w := by
    intro h
    refine ⟨fun j => ?_, (@Halts.refl _ cycle w).units, fun _ => rfl, rfl, rfl, rfl, rfl⟩
    by_cases hj : j = i
    · subst hj
      simp [h]
    · simp [hj]
  unfold pauseProject submit
  cases hp : w.projects[i]? with
  | none => exact still (by simp [slot, hp, halted])
  | some p =>
    by_cases ha : p.state = .active
    · simp only [Option.any_some, ha, decide_true, if_true]
      cases hk : w.commands.lookup (cycle.id, .project i) with
      | some b => exact still (by simp [slot, hp, hk, halted])
      | none =>
        by_cases hc : p.companyId = cycle.companyId
        · simp only [pauseProjectHandler, hp, ha, hc, and_self, if_true]
          refine ⟨fun j => ?_, (@Halts.refl _ cycle w).units, fun k => ?_, rfl, rfl, rfl, rfl⟩
          · by_cases hj : j = i
            · subst hj
              have hlt := (List.getElem?_eq_some_iff.mp hp).1
              simp only [slot, hp, hk, halted, ha, hc, lookup_recorded, beq_self_eq_true,
                List.getElem?_set_self hlt, Option.none_or, if_true]
            · simp [slot, hj, lookup_recorded, Ne.symm hj]
          · simp [lookup_recorded]
        · simp only [pauseProjectHandler, hp, hc, false_and, if_false]
          refine ⟨fun j => ?_, (@Halts.refl _ cycle w).units, fun k => ?_, rfl, rfl, rfl, rfl⟩
          · by_cases hj : j = i
            · subst hj
              simp [slot, hp, hk, halted, ha, hc, lookup_recorded]
            · simp [slot, hj, lookup_recorded]
          · simp [lookup_recorded]
    · simp only [Option.any_some, ha, decide_false]
      exact still (by
        cases hk : w.commands.lookup (cycle.id, .project i) <;> simp [slot, hp, hk, halted, ha])

/-- The projects recorded as paused are not there to be paused again. -/
def Fixed (cycle : Cycle) (w : Company F) (done : Governed F) : Prop :=
  ∀ i ∈ done.pausedProjects, halted cycle.companyId (slot cycle w i) = slot cycle w i

theorem Halts.fixed (h : Halts cycle S U w t) (hf : Fixed cycle w done) :
    Fixed cycle t done := by
  intro i hi
  rw [h.slots]
  split
  · exact halted_halted _ _
  · exact hf i hi

theorem Fixed.pause {i : Id} {paused : Bool} (hf : Fixed cycle w done)
    (breaches : List (Breach F)) :
    Fixed cycle (pauseProject cycle i w).1 { done with
      breaches := breaches
      pausedProjects := if paused then done.pausedProjects ++ [i] else done.pausedProjects } := by
  have hh := @pauseProject_halts _ cycle w i
  intro j hj
  have hmem : j ∈ done.pausedProjects ∨ j = i := by
    cases paused with
    | true => simpa using hj
    | false => exact .inl hj
  rcases hmem with hj | rfl
  · exact hh.fixed hf j hj
  · rw [hh.slots, if_pos (by simp)]
    exact halted_halted _ _

def breaches (pf : Platform F) (cycle : Cycle) (snapshots : List KpiSnapshot) (scope : Scope)
    (criteria : Option Value) : Bool :=
  match breached pf cycle snapshots scope criteria with
  | .ok (some _) => true
  | _ => false

theorem breaches_iff {snapshots : List KpiSnapshot} {scope : Scope} {criteria : Option Value}
    (h : Readable pf cycle snapshots scope criteria) :
    breaches pf cycle snapshots scope criteria = true ↔ Met pf cycle snapshots scope criteria := by
  obtain ⟨r, hr, hiff⟩ := breached_readable h
  rw [← hiff]
  unfold breaches
  rw [hr]
  cases r <;> simp

def ProjectReadable (pf : Platform F) (cycle : Cycle) (snapshots : List KpiSnapshot)
    (x : Id × Project) : Prop :=
  Readable pf cycle snapshots (.project x.1) x.2.killCriteria

def UnitReadable (pf : Platform F) (cycle : Cycle) (snapshots : List KpiSnapshot)
    (x : Id × BusinessUnit) : Prop :=
  Readable pf cycle snapshots (.businessUnit x.1) x.2.killCriteria

def projectBreaches (pf : Platform F) (cycle : Cycle) (snapshots : List KpiSnapshot)
    (x : Id × Project) : Bool :=
  breaches pf cycle snapshots (.project x.1) x.2.killCriteria

def unitBreaches (pf : Platform F) (cycle : Cycle) (snapshots : List KpiSnapshot)
    (x : Id × BusinessUnit) : Bool :=
  breaches pf cycle snapshots (.businessUnit x.1) x.2.killCriteria

theorem judgeProjects_ok (l : List (Id × Project)) :
    ∀ {w : Company F} {done : Governed F}, (∀ x ∈ l, ProjectReadable pf cycle w.snapshots x) →
      Fixed cycle w done → ∃ t done', judgeProjects pf cycle l (w, done) = .ok (t, done') ∧
        Halts cycle (fun i => l.any fun x => x.1 == i && projectBreaches pf cycle w.snapshots x)
          (fun _ => false) w t ∧ Fixed cycle t done' := by
  induction l with
  | nil => exact fun _ hf => ⟨_, _, rfl, Halts.refl, hf⟩
  | cons x l ih =>
    intro w done hr hf
    obtain ⟨i, p⟩ := x
    obtain ⟨r, hb, -⟩ := breached_readable (hr (i, p) List.mem_cons_self)
    have hrest : ∀ x ∈ l, ProjectReadable pf cycle w.snapshots x := fun x hx =>
      hr x (List.mem_cons_of_mem _ hx)
    simp only [judgeProjects]
    change ∃ t done', (breached pf cycle w.snapshots (.project i) p.killCriteria >>= _) = _ ∧ _
    have hb' : breached pf cycle w.snapshots (.project i) p.killCriteria = .ok r := hb
    rw [hb']
    cases r with
    | none =>
      obtain ⟨t, done', ht, hh, hf'⟩ := ih hrest hf
      refine ⟨t, done', ht, hh.congr (fun j => ?_) (fun _ => rfl), hf'⟩
      simp [projectBreaches, breaches, hb']
    | some b =>
      have hp := @pauseProject_halts _ cycle w i
      have hsnap := hp.snapshots
      obtain ⟨t, done', ht, hh, hf'⟩ := @ih (pauseProject cycle i w).1
        { done with
          breaches := done.breaches ++ [b]
          pausedProjects := if (pauseProject cycle i w).2 then done.pausedProjects ++ [i]
            else done.pausedProjects }
        (by rw [hsnap]; exact hrest) (hf.pause _)
      refine ⟨t, done', ht, ?_, hf'⟩
      rw [hsnap] at hh
      refine (hp.trans hh).congr (fun j => ?_) (fun _ => rfl)
      have hcomm : (j == i) = (i == j) := Bool.beq_comm
      simp [projectBreaches, breaches, hb', hcomm]

theorem judgeProjects_quiet (l : List (Id × Project)) :
    ∀ {done : Governed F}, (∀ x ∈ l, ProjectReadable pf cycle w.snapshots x ∧
      projectBreaches pf cycle w.snapshots x = false) →
        ∃ done', judgeProjects pf cycle l (w, done) = .ok (w, done') := by
  induction l with
  | nil => exact fun _ => ⟨_, rfl⟩
  | cons x l ih =>
    intro done h
    obtain ⟨i, p⟩ := x
    obtain ⟨hr, hq⟩ := h (i, p) List.mem_cons_self
    obtain ⟨r, hb, -⟩ := breached_readable hr
    have hb' : breached pf cycle w.snapshots (.project i) p.killCriteria = .ok r := hb
    simp only [projectBreaches, breaches, hb'] at hq
    simp only [judgeProjects]
    rw [hb']
    cases r with
    | none => exact ih fun y hy => h y (List.mem_cons_of_mem _ hy)
    | some b => cases hq

theorem judgeUnits_quiet (projects : List (Id × Project)) (l : List (Id × BusinessUnit)) :
    ∀ {done : Governed F}, (∀ x ∈ l, UnitReadable pf cycle w.snapshots x ∧
      unitBreaches pf cycle w.snapshots x = false) →
        ∃ done', judgeUnits pf cycle projects l (w, done) = .ok (w, done') := by
  induction l with
  | nil => exact fun _ => ⟨_, rfl⟩
  | cons x l ih =>
    intro done h
    obtain ⟨k, b⟩ := x
    obtain ⟨hr, hq⟩ := h (k, b) List.mem_cons_self
    obtain ⟨r, hb, -⟩ := breached_readable hr
    have hb' : breached pf cycle w.snapshots (.businessUnit k) b.killCriteria = .ok r := hb
    simp only [unitBreaches, breaches, hb'] at hq
    simp only [judgeUnits]
    rw [hb']
    cases r with
    | none => exact ih fun y hy => h y (List.mem_cons_of_mem _ hy)
    | some breach => cases hq

theorem judgeProjects_readable (l : List (Id × Project)) :
    ∀ {w : Company F} {done : Governed F} {s : State F},
      judgeProjects pf cycle l (w, done) = .ok s →
        ∀ x ∈ l, ProjectReadable pf cycle w.snapshots x := by
  induction l with
  | nil => exact fun _ x hx => absurd hx List.not_mem_nil
  | cons x l ih =>
    intro w done s h
    obtain ⟨i, p⟩ := x
    have hr : ProjectReadable pf cycle w.snapshots (i, p) := by
      by_contra hno
      obtain ⟨e, he⟩ := breached_unreadable hno
      simp only [judgeProjects] at h
      rw [show breached pf cycle w.snapshots (.project i) p.killCriteria = .error e from he] at h
      cases h
    obtain ⟨r, hb, -⟩ := breached_readable hr
    have hb' : breached pf cycle w.snapshots (.project i) p.killCriteria = .ok r := hb
    simp only [judgeProjects] at h
    rw [hb'] at h
    have hrest : ∀ x ∈ l, ProjectReadable pf cycle w.snapshots x := by
      cases r with
      | none => exact ih h
      | some b =>
        have hh := ih h
        rw [(@pauseProject_halts _ cycle w i).snapshots] at hh
        exact hh
    intro x hx
    rcases List.mem_cons.mp hx with rfl | hx
    · exact hr
    · exact hrest x hx

theorem pauseWith_halts (k : Id) (l : List (Id × Project)) :
    ∀ {w : Company F} {done : Governed F}, Fixed cycle w done →
      Halts cycle (fun i => l.any fun x => x.1 == i && x.2.businessUnitId == some k)
        (fun _ => false) w (pauseWith cycle k l (w, done)).1 ∧
      Fixed cycle (pauseWith cycle k l (w, done)).1 (pauseWith cycle k l (w, done)).2 := by
  induction l with
  | nil => exact fun hf => ⟨Halts.refl, hf⟩
  | cons x l ih =>
    intro w done hf
    obtain ⟨i, p⟩ := x
    by_cases hc : p.businessUnitId = some k ∧ i ∉ done.pausedProjects
    · simp only [pauseWith, hc, not_false_eq_true, and_self, if_true]
      have hp := @pauseProject_halts _ cycle w i
      obtain ⟨hh, hf'⟩ := ih (@Fixed.pause _ cycle w done i (pauseProject cycle i w).2 hf done.breaches)
      refine ⟨(hp.trans hh).congr (fun j => ?_) (fun _ => rfl), hf'⟩
      have hcomm : (j == i) = (i == j) := Bool.beq_comm
      simp [hcomm, hc.1]
    · have hskip : pauseWith cycle k ((i, p) :: l) (w, done) = pauseWith cycle k l (w, done) := by
        simp only [pauseWith, hc, if_false]
      rw [hskip]
      obtain ⟨hh, hf'⟩ := ih hf
      refine ⟨⟨fun j => ?_, hh.units, hh.agentKeys, hh.agents, hh.snapshots, hh.budgets,
        hh.governance⟩, hf'⟩
      rw [hh.slots j, List.any_cons]
      by_cases hj : i = j ∧ p.businessUnitId = some k
      · obtain ⟨rfl, hu⟩ := hj
        have hfixed := hf i (by by_contra hno; exact hc ⟨hu, hno⟩)
        rw [hfixed]
        split <;> split <;> rfl
      · have hno : ((i == j) && p.businessUnitId == some k) = false := by
          rw [Bool.and_eq_false_iff, beq_eq_false_iff_ne, beq_eq_false_iff_ne]
          exact not_and_or.mp hj
        rw [hno, Bool.false_or]

theorem pauseUnit_halts (k : Id) :
    Halts cycle (fun _ => false) (fun j => j == k) w (pauseUnit k w) := by
  refine ⟨fun _ => rfl, fun j => ?_, fun _ => rfl, rfl, rfl, rfl, rfl⟩
  show (w.units.modify k _)[j]? = _
  rw [List.getElem?_modify]
  cases w.units[j]? with
  | none => rfl
  | some x =>
    by_cases hj : k = j
    · simp [hj]
    · simp [hj, Ne.symm hj]

theorem judgeUnits_ok (projects : List (Id × Project)) (l : List (Id × BusinessUnit)) :
    ∀ {w : Company F} {done : Governed F}, (∀ x ∈ l, UnitReadable pf cycle w.snapshots x) →
      Fixed cycle w done → ∃ t done', judgeUnits pf cycle projects l (w, done) = .ok (t, done') ∧
        Halts cycle
          (fun i => l.any fun y => unitBreaches pf cycle w.snapshots y &&
            projects.any fun x => x.1 == i && x.2.businessUnitId == some y.1)
          (fun k => l.any fun y => y.1 == k && unitBreaches pf cycle w.snapshots y) w t := by
  induction l with
  | nil => exact fun _ _ => ⟨_, _, rfl, Halts.refl⟩
  | cons y l ih =>
    intro w done hr hf
    obtain ⟨k, b⟩ := y
    obtain ⟨r, hb, -⟩ := breached_readable (hr (k, b) List.mem_cons_self)
    have hb' : breached pf cycle w.snapshots (.businessUnit k) b.killCriteria = .ok r := hb
    have hrest : ∀ x ∈ l, UnitReadable pf cycle w.snapshots x := fun x hx =>
      hr x (List.mem_cons_of_mem _ hx)
    simp only [judgeUnits]
    rw [hb']
    cases r with
    | none =>
      obtain ⟨t, done', ht, hh⟩ := ih hrest hf
      refine ⟨t, done', ht, hh.congr (fun j => ?_) (fun j => ?_)⟩ <;>
        simp [unitBreaches, breaches, hb']
    | some breach =>
      have hu := @pauseUnit_halts _ cycle w k
      obtain ⟨hp, hf'⟩ := @pauseWith_halts _ cycle k projects (pauseUnit k w)
        { done with
          breaches := done.breaches ++ [breach]
          pausedUnits := done.pausedUnits ++ [k] } (hu.fixed hf)
      have hup := hu.trans hp
      obtain ⟨t, done', ht, hh⟩ := ih (by rw [hup.snapshots]; exact hrest) hf'
      refine ⟨t, done', ht, ?_⟩
      rw [hup.snapshots] at hh
      refine (hup.trans hh).congr (fun j => ?_) (fun j => ?_)
      · simp [unitBreaches, breaches, hb']
      · have hcomm : (j == k) = (k == j) := Bool.beq_comm
        simp [unitBreaches, breaches, hb', hcomm]

theorem judgeUnits_readable (projects : List (Id × Project)) (l : List (Id × BusinessUnit)) :
    ∀ {w : Company F} {done : Governed F} {s : State F}, Fixed cycle w done →
      judgeUnits pf cycle projects l (w, done) = .ok s →
        ∀ x ∈ l, UnitReadable pf cycle w.snapshots x := by
  induction l with
  | nil => exact fun _ _ x hx => absurd hx List.not_mem_nil
  | cons y l ih =>
    intro w done s hf h
    obtain ⟨k, b⟩ := y
    have hr : UnitReadable pf cycle w.snapshots (k, b) := by
      by_contra hno
      obtain ⟨e, he⟩ := breached_unreadable hno
      simp only [judgeUnits] at h
      rw [show breached pf cycle w.snapshots (.businessUnit k) b.killCriteria = .error e from he]
        at h
      cases h
    obtain ⟨r, hb, -⟩ := breached_readable hr
    have hb' : breached pf cycle w.snapshots (.businessUnit k) b.killCriteria = .ok r := hb
    simp only [judgeUnits] at h
    rw [hb'] at h
    have hrest : ∀ x ∈ l, UnitReadable pf cycle w.snapshots x := by
      cases r with
      | none => exact ih hf h
      | some breach =>
        have hu := @pauseUnit_halts _ cycle w k
        obtain ⟨hp, hf'⟩ := @pauseWith_halts _ cycle k projects (pauseUnit k w)
          { done with
            breaches := done.breaches ++ [breach]
            pausedUnits := done.pausedUnits ++ [k] } (hu.fixed hf)
        have hh := ih hf' h
        rw [hp.snapshots] at hh
        exact hh
    intro x hx
    rcases List.mem_cons.mp hx with rfl | hx
    · exact hr
    · exact hrest x hx

/-- Agents may have been paused; the rest of the company is as it was. -/
structure Rested (cycle : Cycle) (w t : Company F) : Prop where
  projects : t.projects = w.projects
  units : t.units = w.units
  snapshots : t.snapshots = w.snapshots
  budgets : t.budgets = w.budgets
  projectKeys : ∀ i, t.commands.lookup (cycle.id, .project i) =
    w.commands.lookup (cycle.id, .project i)
  agents : ∀ (k : Nat) (a : Agent), t.agents[k]? = some a → a.status = .active →
    w.agents[k]? = some a
  keys : ∀ k, w.commands.lookup (cycle.id, .agent k) ≠ none →
    t.commands.lookup (cycle.id, .agent k) ≠ none

theorem Rested.refl : Rested cycle w w :=
  ⟨rfl, rfl, rfl, rfl, fun _ => rfl, fun _ _ h _ => h, fun _ h => h⟩

theorem Rested.trans (h : Rested cycle w t) (h' : Rested cycle t u) : Rested cycle w u where
  projects := h'.projects.trans h.projects
  units := h'.units.trans h.units
  snapshots := h'.snapshots.trans h.snapshots
  budgets := h'.budgets.trans h.budgets
  projectKeys i := (h'.projectKeys i).trans (h.projectKeys i)
  agents k a ha hact := h.agents k a (h'.agents k a ha hact) hact
  keys k hk := h'.keys k (h.keys k hk)

theorem submit_agent (i : Id) :
    Rested cycle w (submit cycle w (.agent i) (pauseAgentHandler cycle i)).1 ∧
      (submit cycle w (.agent i) (pauseAgentHandler cycle i)).1.commands.lookup
        (cycle.id, .agent i) ≠ none := by
  have keep : ∀ b k, w.commands.lookup (cycle.id, .agent k) ≠ none →
      (w.commands ++ [((cycle.id, Target.agent i), b)]).lookup (cycle.id, Target.agent k) ≠
        none := by
    intro b k hk
    rw [lookup_recorded]
    cases hl : w.commands.lookup (cycle.id, .agent k) with
    | none => exact absurd hl hk
    | some c => simp
  unfold submit
  cases hk : w.commands.lookup (cycle.id, .agent i) with
  | some b => exact ⟨Rested.refl, by simp [hk]⟩
  | none =>
    cases hr : pauseAgentHandler cycle i w with
    | none =>
      exact ⟨⟨rfl, rfl, rfl, rfl, fun j => by simp [lookup_recorded], fun _ _ h _ => h,
        keep false⟩, by simp [lookup_recorded]⟩
    | some t =>
      unfold pauseAgentHandler at hr
      split at hr
      · next a ha =>
        split at hr
        · cases hr
          refine ⟨⟨rfl, rfl, rfl, rfl, fun j => by simp [lookup_recorded], ?_, keep true⟩,
            by simp [lookup_recorded]⟩
          intro k b hb hact
          by_cases hki : i = k
          · subst hki
            have hlt := (List.getElem?_eq_some_iff.mp ha).1
            simp only [List.getElem?_set_self hlt, Option.some.injEq] at hb
            subst hb
            cases hact
          · simpa only [List.getElem?_set_ne hki] using hb
        · cases hr
      · cases hr

theorem pauseFailing_rested (l : List (Id × Agent)) :
    ∀ {w : Company F} {done : Governed F}, Rested cycle w (pauseFailing cycle l (w, done)).1 ∧
      ∀ x ∈ l, keepsFailing x.2 = true →
        (pauseFailing cycle l (w, done)).1.commands.lookup (cycle.id, .agent x.1) ≠ none := by
  induction l with
  | nil => exact ⟨Rested.refl, fun x hx => absurd hx List.not_mem_nil⟩
  | cons x l ih =>
    intro w done
    obtain ⟨i, a⟩ := x
    by_cases hk : keepsFailing a = true
    · simp only [pauseFailing, hk, if_true]
      obtain ⟨hs, hkey⟩ := @submit_agent _ cycle w i
      obtain ⟨hr, hl⟩ := @ih (submit cycle w (.agent i) (pauseAgentHandler cycle i)).1
        { done with
          pausedAgents := if (submit cycle w (.agent i) (pauseAgentHandler cycle i)).2 then
            done.pausedAgents ++ [i] else done.pausedAgents }
      refine ⟨hs.trans hr, ?_⟩
      intro y hy hfail
      rcases List.mem_cons.mp hy with rfl | hy
      · exact hr.keys i hkey
      · exact hl y hy hfail
    · simp only [pauseFailing, hk]
      obtain ⟨hr, hl⟩ := @ih w done
      refine ⟨hr, ?_⟩
      intro y hy hfail
      rcases List.mem_cons.mp hy with rfl | hy
      · exact absurd hfail hk
      · exact hl y hy hfail

theorem pauseFailing_still (l : List (Id × Agent)) :
    ∀ {w : Company F} {done : Governed F}, (∀ x ∈ l, keepsFailing x.2 = true →
      w.commands.lookup (cycle.id, .agent x.1) ≠ none) →
        (pauseFailing cycle l (w, done)).1 = w := by
  induction l with
  | nil => exact fun _ => rfl
  | cons x l ih =>
    intro w done h
    obtain ⟨i, a⟩ := x
    have hrest := fun y hy => h y (List.mem_cons_of_mem _ hy)
    by_cases hk : keepsFailing a = true
    · simp only [pauseFailing, hk, if_true]
      have hsub : (submit cycle w (.agent i) (pauseAgentHandler cycle i)).1 = w := by
        unfold submit
        cases hl : w.commands.lookup (cycle.id, .agent i) with
        | none => exact absurd hl (h (i, a) List.mem_cons_self hk)
        | some b => rfl
      rw [hsub]
      exact ih hrest
    · simp only [pauseFailing, hk]
      exact ih hrest

/-- A budget whose ratio is over the warning line and under the cap has a percentage. -/
def BudgetReadable (pf : Platform F) (cycle : Cycle) (snapshots : List KpiSnapshot) (b : Budget) :
    Prop :=
  0 < b.amount → pf.quiet (ratio pf cycle snapshots b) = false →
    (pf.percent (ratio pf cycle snapshots b)).isSome = true

theorem announce_ok (l : List Budget) :
    ∀ {w : Company F} {done : Governed F}, (∀ b ∈ l, BudgetReadable pf cycle w.snapshots b) →
      ∃ done', announce pf cycle l (w, done) = .ok (w, done') := by
  induction l with
  | nil => exact fun _ => ⟨_, rfl⟩
  | cons b l ih =>
    intro w done h
    have hrest := fun y hy => h y (List.mem_cons_of_mem b hy)
    unfold announce
    split
    · exact ih hrest
    · next hc =>
      rw [not_or, Rat.not_le, Bool.not_eq_true] at hc
      obtain ⟨p, hp⟩ := Option.isSome_iff_exists.mp (h b List.mem_cons_self hc.1 hc.2)
      rw [hp]
      exact ih hrest

theorem announce_readable (l : List Budget) :
    ∀ {w : Company F} {done : Governed F} {s : State F}, announce pf cycle l (w, done) = .ok s →
      ∀ b ∈ l, BudgetReadable pf cycle w.snapshots b := by
  induction l with
  | nil => exact fun _ b hb => absurd hb List.not_mem_nil
  | cons b l ih =>
    intro w done s h
    unfold announce at h
    intro y hy
    split at h
    · next hc =>
      rcases List.mem_cons.mp hy with rfl | hy
      · intro hpos hq
        rw [hq] at hc
        rcases hc with hc | hc
        · exact absurd hpos (Rat.not_lt.mpr hc)
        · cases hc
      · exact ih h y hy
    · next hc =>
      split at h
      · cases h
      · next p hp =>
        rcases List.mem_cons.mp hy with rfl | hy
        · intro _ _
          rw [hp]
          rfl
        · exact ih h y hy

end Autora.Governance
