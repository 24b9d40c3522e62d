import Autora.ApprovalSteps

/-! Approvals over every run of requests, decisions, cancellations and passes. -/

namespace Autora.Approvals

open Systems

variable {cfg : ApprovalService} {s u v : Desk} {a b : Approval} {t : Nat} {pass : Pass}

/-! The pass. -/

theorem expire_row {i : Nat} (fallen : List Nat) (h : Sound s) (hget : s.get i = some a)
    (hp : a.state = .pending) :
    Sound ((s.releaseDelegate a none fallen).amend i fun a => { a with state := .expired }) := by
  obtain ⟨ha, rfl⟩ := get_some hget
  have he := releaseDelegate_eases s a none fallen
  have hs := h.eases he
  refine hs.settled (a := a) (f := fun a => { a with state := .expired }) ⟨fun _ => rfl,
    fun _ => rfl, fun _ => rfl, fun _ => rfl, fun _ => rfl, fun _ => rfl, fun _ => rfl⟩
    (fun _ => rfl) (fun _ => rfl) (he.approvals ▸ ha) hp nofun rfl rfl
    (fun t state hst => ⟨state, hst, fun _ => rfl, .inl⟩) (fun t ht => ⟨ht, fun _ => rfl⟩)
    fun t ht => ?_
  obtain ⟨state, hst, _⟩ := h.delegates a ha t ht
  rcases releaseDelegate_final none fallen ht hst with ⟨_, hnone⟩ | hfinal
  · cases hnone
  · exact .inr hfinal

theorem delegate_some (h : s.delegate cfg pass a = some u) :
    a.delegated = none ∧ a.delegatedBefore = false ∧ u = s.handed a.id := by
  unfold Desk.delegate at h
  split at h
  · next hd => exact ⟨hd.2.1, hd.2.2.1, (Option.some.inj h).symm⟩
  · cases h

/-- The rows still to hand over were asked for until now at the latest. -/
def Awaiting (s : Desk) (due : List Nat) : Prop :=
  ∀ a ∈ s.approvals, a.id ∈ due → a.state = .pending ∧ a.askedUntil ≤ s.now

theorem awaiting_handed {i : Nat} {due : List Nat} (hdue : Awaiting s (i :: due)) :
    Awaiting (s.handed i) due := by
  intro b hb hi
  obtain ⟨x, hx, rfl⟩ := mem_amend hb
  have hid : (if x.id = i then
      { x with delegated := some s.tasks.length, expiresAt := s.now + delegateWindow }
    else x).id = x.id := by
    split
    · rfl
    · rfl
  rw [hid] at hi
  obtain ⟨hpx, hlx⟩ := hdue x hx (List.mem_cons_of_mem _ hi)
  split
  · exact ⟨hpx, hlx⟩
  · exact ⟨hpx, hlx⟩

theorem handOver_sound {due : List Nat} (h : Sound s) (hdue : Awaiting s due) :
    Sound (s.handOver cfg pass due).1 ∧ (s.handOver cfg pass due).1.now = s.now := by
  induction due generalizing s with
  | nil => exact ⟨h, rfl⟩
  | cons i due ih =>
    unfold Desk.handOver
    cases hd : (s.get i).bind (s.delegate cfg pass) with
    | none =>
      exact ih h fun a ha hi => hdue a ha (List.mem_cons_of_mem _ hi)
    | some u =>
      obtain ⟨a, hget, hdel⟩ := Option.bind_eq_some_iff.mp hd
      obtain ⟨ha, rfl⟩ := get_some hget
      obtain ⟨hnone, hbefore, rfl⟩ := delegate_some hdel
      obtain ⟨hp, hlate⟩ := hdue a ha List.mem_cons_self
      exact ih (h.handed ha hp hnone hbefore hlate) (awaiting_handed hdue)

theorem due_awaiting (h : Sound s) : Awaiting s (s.due pass) := by
  intro a ha hi
  obtain ⟨b, hb, hid⟩ := List.mem_map.mp hi
  obtain ⟨hb, hcond⟩ := List.mem_filter.mp hb
  obtain rfl := h.unique hb ha hid
  simp only [Approval.isPending, Bool.and_eq_true, beq_iff_eq, decide_eq_true_eq] at hcond
  obtain ⟨⟨hp, hexp⟩, _⟩ := hcond
  refine ⟨hp, ?_⟩
  by_cases hd : b.delegated = none
  · rw [h.dates b ha hd]
    exact hexp
  · exact h.late b ha hd

theorem expire_sound {rest : List Nat} (h : Sound s) (he : s.expire pass rest = some u) :
    Sound u ∧ u.now = s.now := by
  induction rest generalizing s with
  | nil => exact ⟨Option.some.inj he ▸ h, by rw [← Option.some.inj he]⟩
  | cons i rest ih =>
    unfold Desk.expire at he
    split at he
    · cases he
    · next a hget =>
      split at he
      · cases he
      · next hp =>
        obtain ⟨hu, hnow⟩ := ih (expire_row (pass.fallen i) h hget (not_not.mp hp)) he
        exact ⟨hu, hnow.trans (releaseDelegate_eases s a none (pass.fallen i)).now⟩

/-- A task of `renew_waiting` is passed over, or asked for again. -/
theorem renewWaiting_cons {rest : List Nat} (hr : s.renewWaiting cfg pass (t :: rest) = some u) :
    ∃ v, v.renewWaiting cfg pass rest = some u ∧
      ((v = s ∧ ∀ a, s.latest t = some a → ¬ (s.stateOf t = some .waitingApproval ∧
          t ∉ pass.lockedTasks ∧ a.state = .expired)) ∨
        ∃ a, s.stateOf t = some .waitingApproval ∧ s.latest t = some a ∧ a.state = .expired ∧
          s.create cfg ⟨a.refType, a.refId, a.taskId, a.runId, a.action, none⟩
            (a.delegated.isSome || a.delegatedBefore) a.chain = some v) := by
  unfold Desk.renewWaiting at hr
  split at hr
  · next hnone => exact ⟨s, hr, .inl ⟨rfl, fun a ha => by rw [hnone] at ha; cases ha⟩⟩
  · next a ha =>
    split at hr
    · next hcond =>
      obtain ⟨v, hv, hrest⟩ := Option.bind_eq_some_iff.mp hr
      exact ⟨v, hrest, .inr ⟨a, hcond.1, ha, hcond.2.2, hv⟩⟩
    · next hcond =>
      refine ⟨s, hr, .inl ⟨rfl, fun b hb => ?_⟩⟩
      rw [Option.some.inj (hb.symm.trans ha)]
      exact hcond

theorem renewWaiting_sound {rest : List Nat} (h : Sound s)
    (hr : s.renewWaiting cfg pass rest = some u) : Sound u ∧ u.now = s.now := by
  induction rest generalizing s with
  | nil => exact ⟨Option.some.inj hr ▸ h, by rw [← Option.some.inj hr]⟩
  | cons t rest ih =>
    obtain ⟨v, hrest, ⟨rfl, _⟩ | ⟨a, hwait, hlatest, hexp, hc⟩⟩ := renewWaiting_cons hr
    · exact ih h hrest
    · obtain ⟨hu, hnow⟩ := ih (h.renewed hwait hlatest hexp hc) hrest
      obtain ⟨_, rfl⟩ := create_some hc
      exact ⟨hu, hnow⟩

/-- The three stages of a pass. -/
theorem expireDue_some (hx : s.expireDue cfg pass = some u) : ∃ v,
    (s.handOver cfg pass (s.due pass)).1.expire pass ((s.handOver cfg pass (s.due pass)).2 ++
      (s.handOver cfg pass (s.due pass)).1.failedDelegations pass (s.due pass)) = some v ∧
    v.renewWaiting cfg pass (List.range v.tasks.length) = some u :=
  Option.bind_eq_some_iff.mp hx

theorem expireDue_sound (h : Sound s) (hx : s.expireDue cfg pass = some u) : Sound u := by
  obtain ⟨v, he, hr⟩ := expireDue_some hx
  exact (renewWaiting_sound (expire_sound (handOver_sound h (due_awaiting h)).1 he).1 hr).1

/-! Decisions. -/

theorem settle_some {i : Nat} {outcome : DecisionOutcome} {actor : Actor} {reason : Option String}
    {raises : Bool} {fallen : List Nat} (hs : s.settle i outcome actor reason raises fallen = some u) :
    ∃ a, s.get i = some a ∧ a.state = .pending ∧
      let v := (s.releaseDelegate a (some actor) fallen).amend i fun a =>
        { a with state := outcome.target, decidedBy := some actor, reason }
      (u = v ∧ ∀ t, a.taskId = some t → v.stateOf t ≠ some .waitingApproval) ∨
        ∃ t, a.taskId = some t ∧ v.stateOf t = some .waitingApproval ∧
          u = v.setTask t (outcome.taskState a.runId) := by
  unfold Desk.settle at hs
  split at hs
  · cases hs
  · next a ha =>
    refine ⟨a, ha, ?_⟩
    split at hs
    · cases hs
    · next hp =>
      split at hs
      · cases hs
      · split at hs
        · cases hs
        · refine ⟨not_not.mp hp, ?_⟩
          split at hs
          · next hnone =>
            exact .inl ⟨(Option.some.inj hs).symm, fun t ht => by rw [hnone] at ht; cases ht⟩
          · next t ht =>
            dsimp only at hs
            split at hs
            · next hw => exact .inr ⟨t, ht, hw, (Option.some.inj hs).symm⟩
            · next hw =>
              refine .inl ⟨(Option.some.inj hs).symm, fun t' ht' => ?_⟩
              rw [← Option.some.inj (ht.symm.trans ht')]
              exact hw

theorem taskState_not_waiting (outcome : DecisionOutcome) (runId : Option Nat) :
    outcome.taskState runId ≠ .waitingApproval := by
  cases outcome <;> cases runId <;> nofun

theorem settle_sound {i : Nat} {outcome : DecisionOutcome} {actor : Actor} {reason : Option String}
    {raises : Bool} {fallen : List Nat} (h : Sound s)
    (hs : s.settle i outcome actor reason raises fallen = some u) : Sound u := by
  obtain ⟨a, hget, hp, hu⟩ := settle_some hs
  obtain ⟨ha, rfl⟩ := get_some hget
  have he := releaseDelegate_eases s a (some actor) fallen
  have hr := h.eases he
  let f : Approval → Approval := fun a =>
    { a with state := outcome.target, decidedBy := some actor, reason }
  have hf : Keeps f := ⟨fun _ => rfl, fun _ => rfl, fun _ => rfl, fun _ => rfl, fun _ => rfl,
    fun _ => rfl, fun _ => rfl⟩
  have hend : (f a).state ≠ .pending := by
    show outcome.target ≠ .pending
    cases outcome <;> nofun
  have hdone : ∀ t, a.delegated = some t → (∃ agent, some actor = some (.agent agent)) ∨
      ∃ state, (s.releaseDelegate a (some actor) fallen).stateOf t = some state ∧
        state.final = true := by
    intro t ht
    obtain ⟨state, hst, _⟩ := h.delegates a ha t ht
    exact releaseDelegate_final (some actor) fallen ht hst
  rcases hu with ⟨rfl, hnot⟩ | ⟨t, ht, hwait, rfl⟩
  · exact hr.settled (f := f) hf (fun _ => rfl) (fun _ => rfl) (he.approvals ▸ ha) hp hend rfl rfl
      (fun t state hst => ⟨state, hst, fun _ => rfl, .inl⟩)
      (fun t hw => ⟨hw, fun ht => absurd hw (hnot t ht)⟩) hdone
  · have hstate := stateOf_setTask hwait (outcome.taskState a.runId)
    have hkept : ∀ i state, (s.releaseDelegate a (some actor) fallen).stateOf i = some state →
        (((s.releaseDelegate a (some actor) fallen).amend a.id f).setTask t
          (outcome.taskState a.runId)).stateOf i =
          some (if t = i then outcome.taskState a.runId else state) := by
      intro i state hst
      refine (hstate i).trans ?_
      split
      · rfl
      · exact hst
    refine hr.settled (f := f) hf (fun _ => rfl) (fun _ => rfl) (he.approvals ▸ ha) hp hend rfl rfl
      (fun i state hst => ⟨_, hkept i state hst, fun hfin => ?_, fun hw => ?_⟩) (fun i hw => ?_)
      fun i hi => (hdone i hi).imp_right fun ⟨state, hst, hfin⟩ => ?_
    · split
      · next hti =>
        rw [← hti] at hst
        rw [Option.some.inj (hst.symm.trans hwait)] at hfin
        cases hfin
      · rfl
    · split
      · next hti => exact .inr (.inr (hti ▸ ht))
      · exact .inl hw
    · have hi := (hstate i).symm.trans hw
      split at hi
      · exact absurd (Option.some.inj hi) (taskState_not_waiting outcome a.runId)
      · next hti => exact ⟨hi, fun hi' => absurd (Option.some.inj (ht.symm.trans hi')) hti⟩
    · refine ⟨_, hkept i state hst, ?_⟩
      split
      · next hti =>
        rw [← hti] at hst
        rw [Option.some.inj (hst.symm.trans hwait)] at hfin
        cases hfin
      · exact hfin

theorem not_final_of_can {current state : TaskState} (h : taskFsm.can current state = true) :
    current.final = false := by
  cases current <;> first | rfl | (cases state <;> cases h)

theorem stateOf_task {task : Task} {state : TaskState} (hs : s.stateOf t = some state)
    (ht : s.tasks[t]? = some task) : task.state = state := by
  rw [Desk.stateOf, ht] at hs
  exact Option.some.inj hs

/-- A task that does not wait and has not ended is asked about, and waits. -/
theorem ask_sound {r : Request} {state : TaskState} (h : Sound s)
    (hc : s.create cfg r false s.approvals.length = some u) (ht : r.taskId = some t)
    (hs : s.stateOf t = some state) (hwait : state ≠ .waitingApproval)
    (hfinal : state.final = false) : Sound (u.setTask t .waitingApproval) := by
  have happ := (create_some hc).2
  have hstate : ∀ i, (u.setTask t .waitingApproval).stateOf i =
      if t = i then some .waitingApproval else s.stateOf i := by
    intro i
    rw [happ]
    exact stateOf_setTask (s := { s with approvals := _ }) hs .waitingApproval i
  refine h.requested hc (fun a ha t' hr hta hp => ?_) rfl (by rw [happ]; rfl)
    (fun i state' hi => ?_) (fun i hi => ?_) fun i hi => ?_
  · obtain rfl := Option.some.inj (ht.symm.trans hr)
    obtain ⟨state', hs', hst⟩ := h.blocks a ha t hp hta
    obtain rfl := Option.some.inj (hs.symm.trans hs')
    rcases hst with hw | hf
    · exact hwait hw
    · rw [hfinal] at hf
      cases hf
  · rw [hstate]
    split
    · next hti =>
      subst hti
      obtain rfl := Option.some.inj (hs.symm.trans hi)
      exact ⟨.waitingApproval, rfl, fun hf => absurd hf (by rw [hfinal]; nofun),
        fun hw => hw.symm⟩
    · exact ⟨state', hi, fun _ => rfl, fun _ => rfl⟩
  · rw [hstate] at hi
    split at hi
    · next hti => exact .inr (hti ▸ ht)
    · exact .inl hi
  · rw [hstate, if_pos (Option.some.inj (ht.symm.trans hi))]

theorem decide_some {i : Nat} {outcome : DecisionOutcome} {actor : Actor} {reason : Option String}
    {raises : Bool} {fallen : List Nat} (hd : s.decide i outcome actor reason raises fallen = some u) :
    (∃ person, actor = .human person) ∧ s.settle i outcome actor reason raises fallen = some u := by
  unfold Desk.decide at hd
  split at hd
  · next person => exact ⟨⟨person, rfl⟩, hd⟩
  · cases hd

theorem decideDelegated_some {i : Nat} {outcome : DecisionOutcome} {actor : Actor}
    {reason : String} {raises : Bool}
    (hd : s.decideDelegated cfg i outcome actor reason t raises = some u) :
    (∃ agent, actor = .agent agent) ∧ (∃ a, s.get i = some a ∧ a.delegated = some t) ∧
      s.settle i outcome actor (some reason) raises [] = some u := by
  unfold Desk.decideDelegated at hd
  split at hd
  · next agent =>
    split at hd
    · cases hd
    · split at hd
      · cases hd
      · next a ha =>
        split at hd
        · next hmarked => exact ⟨⟨agent, rfl⟩, ⟨a, ha, hmarked.2⟩, hd⟩
        · cases hd
  · cases hd

theorem delegated_act_some {i : Nat} {outcome : DecisionOutcome} {actor : Actor} {reason : String}
    {raises : Bool}
    (hs : s.step cfg (.decideDelegated i outcome actor reason t raises) = some u) :
    (∃ task, s.tasks[t]? = some task ∧ ∃ agent ∈ task.agents, actor = .agent agent) ∧
      s.decideDelegated cfg i outcome actor reason t raises = some u := by
  simp only [Desk.step] at hs
  split at hs
  · next hclaimed =>
    obtain ⟨task, htask, hagent⟩ := (Option.any_eq_true _ _).mp hclaimed
    obtain ⟨agent, hmem, heq⟩ := List.any_eq_true.mp hagent
    exact ⟨⟨task, htask, agent, hmem, beq_iff_eq.mp heq⟩, hs⟩
  · cases hs

theorem step_sound {act : Act} (h : Sound s) (hs : s.step cfg act = some u) : Sound u := by
  cases act with
  | tick d =>
    obtain rfl := Option.some.inj hs
    refine ⟨h.order, h.ids, h.threads, h.blocks, h.asked, h.delegates, fun a ha hd => ?_, h.dates,
      h.undecided⟩
    have hlate := h.late a ha hd
    show a.askedUntil ≤ s.now + d
    omega
  | addTask =>
    obtain rfl := Option.some.inj hs
    refine h.eases ⟨rfl, rfl, fun i state hi => ?_, fun i hi => ?_⟩
    · exact ⟨state, stateOf_append_some (s := s) rfl hi, fun _ => rfl, .inl⟩
    · rw [stateOf_append (s := s) rfl] at hi
      split at hi
      · cases hi
      · exact hi
  | moveTask i state =>
    simp only [Desk.step] at hs
    split at hs
    · cases hs
    · next current hcurrent =>
      split at hs
      · next hcan =>
        obtain rfl := Option.some.inj hs
        refine h.eases (eases_modify fun task htask => ?_)
        have htask := stateOf_task hcurrent htask
        have hfinal := not_final_of_can hcan.1
        rw [htask]
        exact ⟨fun hf => absurd hf (by rw [hfinal]; nofun), fun hw => absurd hw hcan.2.1,
          fun hw => absurd hw hcan.2.2⟩
      · cases hs
  | claim i agent =>
    simp only [Desk.step] at hs
    split at hs
    · next hready =>
      obtain rfl := Option.some.inj hs
      refine h.eases (eases_modify fun task htask => ?_)
      rw [stateOf_task hready htask]
      exact ⟨nofun, nofun, nofun⟩
    · cases hs
  | cancel i =>
    obtain rfl := Option.some.inj hs
    exact h.eases (cancel_eases s i)
  | requestForRun i run action expiresAfter =>
    simp only [Desk.step] at hs
    split at hs
    · next hrunning =>
      obtain ⟨v, hc, rfl⟩ := Option.map_eq_some_iff.mp hs
      exact ask_sound h hc rfl hrunning nofun rfl
    · cases hs
  | requestForTask i action expiresAfter =>
    simp only [Desk.step] at hs
    split at hs
    · next hready =>
      obtain ⟨v, hc, rfl⟩ := Option.map_eq_some_iff.mp hs
      exact ask_sound h hc rfl hready nofun rfl
    · cases hs
  | request refType refId action expiresAfter =>
    obtain ⟨_, happ⟩ := create_some hs
    have hstate : ∀ i, u.stateOf i = s.stateOf i := fun i => by rw [happ]; rfl
    refine h.requested hs (fun _ _ _ ht => (nomatch ht)) rfl (by rw [happ]) (fun i state hi => ?_)
      (fun i hi => .inl (hstate i ▸ hi)) fun _ ht => (nomatch ht)
    exact ⟨state, (hstate i).trans hi, fun _ => rfl, fun _ => rfl⟩
  | decide i outcome actor reason raises fallen => exact settle_sound h (decide_some hs).2
  | decideDelegated i outcome actor reason t raises =>
    exact settle_sound h (decideDelegated_some (delegated_act_some hs).2).2.2
  | expireDue pass => exact expireDue_sound h hs

theorem sound_of_reach (h : (approvals cfg).Reach anyStep s) : Sound s := by
  refine h.invariant (I := Sound) ?_ fun x act y hx _ hstep => step_sound hx hstep
  rintro s ⟨happ, htasks⟩
  have hstate : ∀ t, s.stateOf t = none := fun t => by rw [Desk.stateOf, htasks]; rfl
  have hnone : ∀ a, a ∉ s.approvals := fun a => by rw [happ]; exact List.not_mem_nil
  refine ⟨happ ▸ .nil, fun a ha => absurd ha (hnone a), fun a ha => absurd ha (hnone a),
    fun a ha => absurd ha (hnone a), fun t ht => ?_, fun a ha => absurd ha (hnone a),
    fun a ha => absurd ha (hnone a), fun a ha => absurd ha (hnone a),
    fun a ha => absurd ha (hnone a)⟩
  rw [hstate] at ht
  cases ht

/-! Rows that are settled, and who settles them. -/

/-- No settled row changes, and no delegation is forgotten. -/
structure Onward (s u : Desk) : Prop where
  settled : ∀ a ∈ s.approvals, a.state ≠ .pending → a ∈ u.approvals
  marked : ∀ a ∈ s.approvals, ∀ t, a.delegated = some t →
    ∃ b ∈ u.approvals, b.id = a.id ∧ b.chain = a.chain ∧ b.delegated = some t

/-- Nor is a row newly approved or rejected. -/
structure Steady (s u : Desk) : Prop extends Onward s u where
  decided : ∀ a ∈ u.approvals, a.state = .approved ∨ a.state = .rejected → a ∈ s.approvals

theorem Onward.trans (h : Onward s u) (h' : Onward u v) : Onward s v := by
  refine ⟨fun a ha hp => h'.settled a (h.settled a ha hp) hp, fun a ha t ht => ?_⟩
  obtain ⟨b, hb, hid, hchain, htb⟩ := h.marked a ha t ht
  obtain ⟨c, hc, hid', hchain', htc⟩ := h'.marked b hb t htb
  exact ⟨c, hc, hid'.trans hid, hchain'.trans hchain, htc⟩

theorem Steady.trans (h : Steady s u) (h' : Steady u v) : Steady s v :=
  ⟨h.toOnward.trans h'.toOnward, fun a ha hd => h.decided a (h'.decided a ha hd) hd⟩

theorem onward_of_eq (happ : u.approvals = s.approvals) : Onward s u :=
  ⟨fun _ ha _ => happ ▸ ha, fun a ha _ ht => ⟨a, happ ▸ ha, rfl, rfl, ht⟩⟩

theorem steady_of_eq (happ : u.approvals = s.approvals) : Steady s u :=
  ⟨onward_of_eq happ, fun _ ha _ => happ ▸ ha⟩

theorem steady_create {r : Request} {before : Bool} {chain : Nat}
    (hc : s.create cfg r before chain = some u) : Steady s u := by
  obtain ⟨_, rfl⟩ := create_some hc
  refine ⟨⟨fun a ha _ => List.mem_append_left _ ha,
    fun a ha t ht => ⟨a, List.mem_append_left _ ha, rfl, rfl, ht⟩⟩, fun a ha hd => ?_⟩
  rcases List.mem_append.mp ha with ha | ha
  · exact ha
  · obtain rfl := List.mem_singleton.mp ha
    rcases hd with hd | hd
    · cases hd
    · cases hd

/-- A pending row is rewritten. -/
theorem onward_amend {f : Approval → Approval} (h : Sound s) (hf : Keeps f)
    (ha : a ∈ s.approvals) (hp : a.state = .pending)
    (hm : ∀ t, a.delegated = some t → (f a).delegated = some t)
    (happ : u.approvals = (s.amend a.id f).approvals) : Onward s u := by
  rw [Desk.amend] at happ
  refine ⟨fun b hb hpb => ?_, fun b hb t ht => ?_⟩
  · rw [happ]
    refine List.mem_map.mpr ⟨b, hb, if_neg fun hid => ?_⟩
    obtain rfl := h.unique hb ha hid
    exact hpb hp
  · refine ⟨if b.id = a.id then f b else b, by rw [happ]; exact List.mem_map_of_mem hb, ?_⟩
    split
    · next hid =>
      obtain rfl := h.unique hb ha hid
      exact ⟨hf.id b, hf.chain b, hm t ht⟩
    · exact ⟨rfl, rfl, ht⟩

theorem steady_amend {f : Approval → Approval} (h : Sound s) (hk : Keeps f)
    (ha : a ∈ s.approvals) (hp : a.state = .pending)
    (hm : ∀ t, a.delegated = some t → (f a).delegated = some t)
    (hf : (f a).state = .pending ∨ (f a).state = .expired)
    (happ : u.approvals = (s.amend a.id f).approvals) : Steady s u := by
  refine ⟨onward_amend h hk ha hp hm happ, fun b hb hd => ?_⟩
  obtain ⟨x, hx, rfl⟩ := mem_amend (happ ▸ hb)
  by_cases hid : x.id = a.id
  · obtain rfl := h.unique hx ha hid
    rw [if_pos rfl] at hd
    rcases hf with hf | hf
    · rw [hf] at hd
      rcases hd with hd | hd
      · cases hd
      · cases hd
    · rw [hf] at hd
      rcases hd with hd | hd
      · cases hd
      · cases hd
  · rw [if_neg hid]
    exact hx

/-- A rewriting that names other columns only. -/
theorem keeps_expired : Keeps fun a => { a with state := .expired } :=
  ⟨fun _ => rfl, fun _ => rfl, fun _ => rfl, fun _ => rfl, fun _ => rfl, fun _ => rfl, fun _ => rfl⟩

theorem keeps_handed (task : Nat) (expiresAt : Int) :
    Keeps fun a => { a with delegated := some task, expiresAt } :=
  ⟨fun _ => rfl, fun _ => rfl, fun _ => rfl, fun _ => rfl, fun _ => rfl, fun _ => rfl, fun _ => rfl⟩

theorem keeps_settled (state : ApprovalState) (by_ : Option Actor) (reason : Option String) :
    Keeps fun a => { a with state, decidedBy := by_, reason } :=
  ⟨fun _ => rfl, fun _ => rfl, fun _ => rfl, fun _ => rfl, fun _ => rfl, fun _ => rfl, fun _ => rfl⟩

theorem handOver_steady {due : List Nat} (h : Sound s) (hdue : Awaiting s due) :
    Steady s (s.handOver cfg pass due).1 := by
  induction due generalizing s with
  | nil => exact steady_of_eq rfl
  | cons i due ih =>
    unfold Desk.handOver
    cases hd : (s.get i).bind (s.delegate cfg pass) with
    | none => exact ih h fun a ha hi => hdue a ha (List.mem_cons_of_mem _ hi)
    | some u =>
      obtain ⟨a, hget, hdel⟩ := Option.bind_eq_some_iff.mp hd
      obtain ⟨ha, rfl⟩ := get_some hget
      obtain ⟨hnone, hbefore, rfl⟩ := delegate_some hdel
      obtain ⟨hp, hlate⟩ := hdue a ha List.mem_cons_self
      have hone : Steady s (s.handed a.id) := steady_amend h (keeps_handed _ _) ha hp
        (fun t ht => absurd (hnone.symm.trans ht) nofun) (.inl hp) rfl
      exact hone.trans (ih (h.handed ha hp hnone hbefore hlate) (awaiting_handed hdue))

theorem expire_steady {rest : List Nat} (h : Sound s) (he : s.expire pass rest = some u) :
    Steady s u := by
  induction rest generalizing s with
  | nil => exact steady_of_eq (by rw [← Option.some.inj he])
  | cons i rest ih =>
    unfold Desk.expire at he
    split at he
    · cases he
    · next a hget =>
      split at he
      · cases he
      · next hp =>
        have hnext := expire_row (pass.fallen i) h hget (not_not.mp hp)
        obtain ⟨ha, rfl⟩ := get_some hget
        have hease := releaseDelegate_eases s a none (pass.fallen a.id)
        exact ((steady_of_eq hease.approvals).trans (steady_amend (h.eases hease) keeps_expired
          (hease.approvals ▸ ha) (not_not.mp hp) (fun t ht => ht) (.inr rfl) rfl)).trans
            (ih hnext he)

theorem renewWaiting_steady {rest : List Nat} (hr : s.renewWaiting cfg pass rest = some u) :
    Steady s u := by
  induction rest generalizing s with
  | nil => exact steady_of_eq (by rw [← Option.some.inj hr])
  | cons t rest ih =>
    obtain ⟨v, hrest, ⟨rfl, _⟩ | ⟨a, _, _, _, hc⟩⟩ := renewWaiting_cons hr
    · exact ih hrest
    · exact (steady_create hc).trans (ih hrest)

theorem expireDue_steady (h : Sound s) (hx : s.expireDue cfg pass = some u) : Steady s u := by
  obtain ⟨v, he, hr⟩ := expireDue_some hx
  have hdue : Awaiting s (s.due pass) := due_awaiting h
  exact (handOver_steady h hdue).trans
    ((expire_steady (handOver_sound h hdue).1 he).trans (renewWaiting_steady hr))

/-- After a decision, the row is as decided or was there before. -/
theorem settle_row {i : Nat} {outcome : DecisionOutcome} {actor : Actor} {reason : Option String}
    {raises : Bool} {fallen : List Nat} (h : Sound s)
    (hs : s.settle i outcome actor reason raises fallen = some u) :
    ∃ a, s.get i = some a ∧ a.state = .pending ∧
      Onward s u ∧ ∀ b ∈ u.approvals, b ∈ s.approvals ∨ (b.id = i ∧ b.decidedBy = some actor) := by
  obtain ⟨a, hget, hp, hu⟩ := settle_some hs
  obtain ⟨ha, rfl⟩ := get_some hget
  have hease := releaseDelegate_eases s a (some actor) fallen
  have happ : u.approvals = ((s.releaseDelegate a (some actor) fallen).amend a.id fun a =>
      { a with state := outcome.target, decidedBy := some actor, reason }).approvals := by
    rcases hu with ⟨rfl, _⟩ | ⟨t, _, _, rfl⟩
    · rfl
    · rfl
  refine ⟨a, hget, hp, ?_, fun b hb => ?_⟩
  · exact (onward_of_eq hease.approvals).trans (onward_amend (h.eases hease)
      (keeps_settled outcome.target (some actor) reason) (hease.approvals ▸ ha) hp (fun t ht => ht) happ)
  · obtain ⟨x, hx, rfl⟩ := mem_amend (happ ▸ hb)
    split
    · next hid => exact .inr ⟨hid, rfl⟩
    · exact .inl (hease.approvals ▸ hx)

/-- Who decides. -/
def Act.by_ : Act → Option Actor
  | .decide _ _ actor _ _ _ => some actor
  | .decideDelegated _ _ actor _ _ _ => some actor
  | _ => none

/-- A person, or past the deadline an agent whose task the approval was delegated to. -/
def Entitled (s : Desk) (a : Approval) (by_ : Option Actor) : Prop :=
  (∃ person, by_ = some (.human person)) ∨ ∃ agent t task, by_ = some (.agent agent) ∧
    a.delegated = some t ∧ a.askedUntil ≤ s.now ∧ s.tasks[t]? = some task ∧ agent ∈ task.agents

theorem step_onward {act : Act} (h : Sound s) (hs : s.step cfg act = some u) : Onward s u := by
  cases act with
  | tick | addTask | cancel =>
    obtain rfl := Option.some.inj hs
    exact onward_of_eq rfl
  | moveTask i state =>
    simp only [Desk.step] at hs
    split at hs
    · cases hs
    · split at hs
      · obtain rfl := Option.some.inj hs
        exact onward_of_eq rfl
      · cases hs
  | claim i agent =>
    simp only [Desk.step] at hs
    split at hs
    · obtain rfl := Option.some.inj hs
      exact onward_of_eq rfl
    · cases hs
  | requestForRun i run action expiresAfter =>
    simp only [Desk.step] at hs
    split at hs
    · obtain ⟨v, hc, rfl⟩ := Option.map_eq_some_iff.mp hs
      exact (steady_create hc).toOnward.trans (onward_of_eq rfl)
    · cases hs
  | requestForTask i action expiresAfter =>
    simp only [Desk.step] at hs
    split at hs
    · obtain ⟨v, hc, rfl⟩ := Option.map_eq_some_iff.mp hs
      exact (steady_create hc).toOnward.trans (onward_of_eq rfl)
    · cases hs
  | request refType refId action expiresAfter => exact (steady_create hs).toOnward
  | decide i outcome actor reason raises fallen =>
    obtain ⟨_, _, _, honward, _⟩ := settle_row h (decide_some hs).2
    exact honward
  | decideDelegated i outcome actor reason t raises =>
    obtain ⟨_, _, _, honward, _⟩ := settle_row h (decideDelegated_some (delegated_act_some hs).2).2.2
    exact honward
  | expireDue pass => exact (expireDue_steady h hs).toOnward

theorem step_entitled {act : Act} (h : Sound s) (hs : s.step cfg act = some u)
    (ha : a ∈ s.approvals) (hp : a.state = .pending) (hb : b ∈ u.approvals) (hid : b.id = a.id)
    (hdecided : b.state = .approved ∨ b.state = .rejected) :
    b.decidedBy = act.by_ ∧ Entitled s a act.by_ := by
  have hold : b ∉ s.approvals := by
    intro hb
    obtain rfl := h.unique hb ha hid
    rw [hp] at hdecided
    rcases hdecided with hd | hd
    · cases hd
    · cases hd
  cases act with
  | tick | addTask | cancel =>
    obtain rfl := Option.some.inj hs
    exact absurd hb hold
  | moveTask i state =>
    simp only [Desk.step] at hs
    split at hs
    · cases hs
    · split at hs
      · obtain rfl := Option.some.inj hs
        exact absurd hb hold
      · cases hs
  | claim i agent =>
    simp only [Desk.step] at hs
    split at hs
    · obtain rfl := Option.some.inj hs
      exact absurd hb hold
    · cases hs
  | requestForRun i run action expiresAfter =>
    simp only [Desk.step] at hs
    split at hs
    · obtain ⟨v, hc, rfl⟩ := Option.map_eq_some_iff.mp hs
      exact absurd ((steady_create hc).decided b hb hdecided) hold
    · cases hs
  | requestForTask i action expiresAfter =>
    simp only [Desk.step] at hs
    split at hs
    · obtain ⟨v, hc, rfl⟩ := Option.map_eq_some_iff.mp hs
      exact absurd ((steady_create hc).decided b hb hdecided) hold
    · cases hs
  | request refType refId action expiresAfter =>
    exact absurd ((steady_create hs).decided b hb hdecided) hold
  | decide i outcome actor reason raises fallen =>
    obtain ⟨⟨person, rfl⟩, hsettle⟩ := decide_some hs
    obtain ⟨_, _, _, _, hrow⟩ := settle_row h hsettle
    exact ⟨((hrow b hb).resolve_left hold).2, .inl ⟨person, rfl⟩⟩
  | decideDelegated i outcome actor reason t raises =>
    obtain ⟨⟨task, htask, agent, hagent, rfl⟩, hdelegated⟩ := delegated_act_some hs
    obtain ⟨_, ⟨c, hget, hmarked⟩, hsettle⟩ := decideDelegated_some hdelegated
    obtain ⟨_, _, _, _, hrow⟩ := settle_row h hsettle
    obtain ⟨hi, hby⟩ := (hrow b hb).resolve_left hold
    obtain ⟨hc, hci⟩ := get_some hget
    obtain rfl := h.unique hc ha (hci.trans (hi.symm.trans hid))
    exact ⟨hby, .inr ⟨agent, t, task, rfl, hmarked, h.late c ha (by rw [hmarked]; nofun), htask,
      hagent⟩⟩
  | expireDue pass => exact absurd ((expireDue_steady h hs).decided b hb hdecided) hold

/-! What a pass leaves to nobody. -/

theorem handOver_prompt {due : List Nat} (Q : Nat → Prop) (h : Sound s) (hdue : Awaiting s due)
    (hp : ∀ a ∈ s.approvals, a.state = .pending → s.now < a.expiresAt ∨ a.id ∈ due ∨ Q a.id) :
    ∀ a ∈ (s.handOver cfg pass due).1.approvals, a.state = .pending →
      s.now < a.expiresAt ∨ a.id ∈ (s.handOver cfg pass due).2 ∨ Q a.id := by
  induction due generalizing s Q with
  | nil => exact hp
  | cons i due ih =>
    have hrest : Awaiting s due := fun a ha hi => hdue a ha (List.mem_cons_of_mem _ hi)
    unfold Desk.handOver
    cases hd : (s.get i).bind (s.delegate cfg pass) with
    | none =>
      intro a ha hpa
      have hnext := ih (fun j => Q j ∨ j = i) h hrest (fun b hb hpb => ?_) a ha hpa
      · rcases hnext with hlt | hmem | hq | rfl
        · exact .inl hlt
        · exact .inr (.inl (List.mem_cons_of_mem _ hmem))
        · exact .inr (.inr hq)
        · exact .inr (.inl List.mem_cons_self)
      · rcases hp b hb hpb with hlt | hmem | hq
        · exact .inl hlt
        · rcases List.mem_cons.mp hmem with rfl | hmem
          · exact .inr (.inr (.inr rfl))
          · exact .inr (.inl hmem)
        · exact .inr (.inr (.inl hq))
    | some u =>
      obtain ⟨a, hget, hdel⟩ := Option.bind_eq_some_iff.mp hd
      obtain ⟨ha, rfl⟩ := get_some hget
      obtain ⟨hnone, hbefore, rfl⟩ := delegate_some hdel
      obtain ⟨hpa, hlate⟩ := hdue a ha List.mem_cons_self
      refine ih Q (h.handed ha hpa hnone hbefore hlate) (awaiting_handed hdue) fun b hb hpb => ?_
      obtain ⟨x, hx, rfl⟩ := mem_amend hb
      by_cases hid : x.id = a.id
      · rw [if_pos hid]
        refine .inl ?_
        show s.now < s.now + 21600000000
        omega
      · rw [if_neg hid] at hpb ⊢
        rcases hp x hx hpb with hlt | hmem | hq
        · exact .inl hlt
        · exact .inr (.inl ((List.mem_cons.mp hmem).resolve_left hid))
        · exact .inr (.inr hq)

theorem expire_prompt {rest : List Nat} (he : s.expire pass rest = some u)
    (hp : ∀ a ∈ s.approvals, a.state = .pending → s.now < a.expiresAt ∨ a.id ∈ rest) :
    ∀ a ∈ u.approvals, a.state = .pending → u.now < a.expiresAt := by
  induction rest generalizing s with
  | nil =>
    obtain rfl := Option.some.inj he
    exact fun a ha hpa => (hp a ha hpa).resolve_right List.not_mem_nil
  | cons i rest ih =>
    unfold Desk.expire at he
    split at he
    · cases he
    · next a hget =>
      split at he
      · cases he
      · have hease := releaseDelegate_eases s a none (pass.fallen i)
        refine ih he fun b hb hpb => ?_
        obtain ⟨x, hx, rfl⟩ := mem_amend hb
        by_cases hid : x.id = i
        · rw [if_pos hid] at hpb
          cases hpb
        · rw [if_neg hid] at hpb ⊢
          rcases hp x (hease.approvals ▸ hx) hpb with hlt | hmem
          · exact .inl (lt_of_eq_of_lt hease.now hlt)
          · exact .inr ((List.mem_cons.mp hmem).resolve_left hid)

/-- Every waiting task has someone to ask, in time, or is still to be seen to. -/
structure Covered (s : Desk) (rest : List Nat) : Prop where
  prompt : ∀ a ∈ s.approvals, a.state = .pending → s.now < a.expiresAt
  waiting : ∀ t, s.stateOf t = some .waitingApproval →
    t ∈ rest ∨ ∃ a ∈ s.approvals, a.state = .pending ∧ a.taskId = some t

theorem renewWaiting_covered {rest : List Nat} (h : Sound s) (hlock : pass.lockedTasks = [])
    (hr : s.renewWaiting cfg pass rest = some u) (hc : Covered s rest) : Covered u [] := by
  induction rest generalizing s with
  | nil => exact Option.some.inj hr ▸ hc
  | cons t rest ih =>
    obtain ⟨v, hrest, ⟨rfl, hskip⟩ | ⟨a, hwait, hlatest, hexp, hcreate⟩⟩ := renewWaiting_cons hr
    · refine ih h hrest ⟨hc.prompt, fun t' ht' => ?_⟩
      rcases hc.waiting t' ht' with hmem | hasked
      · rcases List.mem_cons.mp hmem with rfl | hmem
        · obtain ⟨a, hlatest, hstate⟩ := h.asked t' ht'
          rcases hstate with hp | hexp
          · exact .inr ⟨a, (latest_mem hlatest).1, hp, (latest_mem hlatest).2⟩
          · exact absurd ⟨ht', by rw [hlock]; exact List.not_mem_nil, hexp⟩ (hskip a hlatest)
        · exact .inl hmem
      · exact .inr hasked
    · refine ih (h.renewed hwait hlatest hexp hcreate) hrest ?_
      obtain ⟨_, rfl⟩ := create_some hcreate
      refine ⟨fun b hb hpb => ?_, fun t' ht' => ?_⟩
      · rcases List.mem_append.mp hb with hb | hb
        · exact hc.prompt b hb hpb
        · obtain rfl := List.mem_singleton.mp hb
          have := cfg.positive
          show s.now < s.now + cfg.defaultExpiry
          omega
      · rcases hc.waiting t' ht' with hmem | ⟨b, hb, hpb, htb⟩
        · rcases List.mem_cons.mp hmem with rfl | hmem
          · exact .inr ⟨_, List.mem_append_right _ (List.mem_singleton.mpr rfl), rfl,
              (latest_mem hlatest).2⟩
          · exact .inl hmem
        · exact .inr ⟨b, List.mem_append_left _ hb, hpb, htb⟩

theorem expireDue_covered (h : Sound s) (hx : s.expireDue cfg pass = some u)
    (hrows : pass.lockedApprovals = []) (hlock : pass.lockedTasks = []) : Covered u [] := by
  obtain ⟨v, he, hr⟩ := expireDue_some hx
  have hdue : Awaiting s (s.due pass) := due_awaiting h
  obtain ⟨hs, hnow⟩ : Sound (s.handOver cfg pass (s.due pass)).1 ∧ _ := handOver_sound h hdue
  have hlisted : ∀ a ∈ s.approvals, a.state = .pending →
      s.now < a.expiresAt ∨ a.id ∈ s.due pass ∨ False := by
    intro a ha hp
    by_cases hlt : s.now < a.expiresAt
    · exact .inl hlt
    · refine .inr (.inl (List.mem_map.mpr ⟨a, List.mem_filter.mpr ⟨ha, ?_⟩, rfl⟩))
      simp [Approval.isPending, hp, hrows, Int.not_lt.mp hlt]
  refine renewWaiting_covered (expire_sound hs he).1 hlock hr ⟨expire_prompt he fun a ha hp => ?_,
    fun t ht => .inl (List.mem_range.mpr (stateOf_lt ht))⟩
  rcases handOver_prompt (fun _ => False) h hdue hlisted a ha hp with hlt | hmem | hfalse
  · exact .inl (hnow ▸ hlt)
  · exact .inr (List.mem_append_left _ hmem)
  · exact absurd hfalse id

theorem path_onward (h : (approvals cfg).Reach anyStep s)
    (hp : (approvals cfg).Path anyStep s v) : Onward s v ∧ Sound v := by
  induction hp with
  | refl => exact ⟨onward_of_eq rfl, sound_of_reach h⟩
  | tail _ hn ih =>
    obtain ⟨act, _, hstep⟩ := hn
    exact ⟨ih.1.trans (step_onward ih.2 hstep), step_sound ih.2 hstep⟩

/-- The rows of a chain that were delegated are one row. -/
theorem Sound.one_delegate (h : Sound s) (ha : a ∈ s.approvals) (hb : b ∈ s.approvals)
    (hchain : a.chain = b.chain) (hda : a.delegated ≠ none) (hdb : b.delegated ≠ none) : a = b := by
  rcases related h.order ha hb with heq | hab | hba
  · exact heq
  · exact absurd (hab.delegation hchain (.inl hda)).1 hdb
  · exact absurd (hba.delegation hchain.symm (.inl hdb)).1 hda

theorem approvals_answered (h : (approvals cfg).Reach anyStep s) :
    -- one open request per thing being decided
    (∀ a ∈ s.approvals, ∀ b ∈ s.approvals, a.refType = b.refType → a.refId = b.refId →
      a.state = .pending → b.state = .pending → a = b) ∧
    -- what has left PENDING stays as it is, in every later state
    (∀ v, (approvals cfg).Path anyStep s v → ∀ a ∈ s.approvals, a.state ≠ .pending →
      a ∈ v.approvals ∧ ∀ b ∈ v.approvals, b.id = a.id → b = a) ∧
    -- only a person approves or rejects, or past the deadline the delegate
    (∀ act u, s.step cfg act = some u → ∀ a ∈ s.approvals, a.state = .pending →
      ∀ b ∈ u.approvals, b.id = a.id → b.state = .approved ∨ b.state = .rejected →
      b.decidedBy = act.by_ ∧ Entitled s a act.by_) ∧
    -- after a pass that skipped nothing, each waiting task has one open request, in time
    (∀ pass u, pass.lockedApprovals = [] → pass.lockedTasks = [] →
      s.step cfg (.expireDue pass) = some u → ∀ t, u.stateOf t = some .waitingApproval →
      ∃ a ∈ u.approvals, (a.state = .pending ∧ a.taskId = some t ∧ u.now < a.expiresAt) ∧
        ∀ b ∈ u.approvals, b.state = .pending → b.taskId = some t → b = a) ∧
    -- one delegate's task for a chain of renewals, whenever it was started
    (∀ v, (approvals cfg).Path anyStep s v → ∀ a ∈ s.approvals, ∀ b ∈ v.approvals,
      a.chain = b.chain → ∀ t t', a.delegated = some t → b.delegated = some t' →
      b.id = a.id ∧ t' = t) ∧
    -- settled by a person or the clock, the delegate's task has ended
    (∀ a ∈ s.approvals, a.state ≠ .pending → (∀ agent, a.decidedBy ≠ some (.agent agent)) →
      ∀ t, a.delegated = some t → ∃ state, s.stateOf t = some state ∧ state.final = true) := by
  have hs := sound_of_reach h
  refine ⟨?_, ?_, ?_, ?_, ?_, ?_⟩
  · intro a ha b hb htype hid hpa hpb
    rcases related hs.order ha hb with heq | hab | hba
    · exact heq
    · exact absurd hpb (hab.ref htype hid hpa)
    · exact absurd hpa (hba.ref htype.symm hid.symm hpb)
  · intro v hv a ha hp
    obtain ⟨honward, hsound⟩ := path_onward h hv
    have hmem := honward.settled a ha hp
    exact ⟨hmem, fun b hb hid => hsound.unique hb hmem hid⟩
  · intro act u hstep a ha hp b hb hid hdecided
    exact step_entitled hs hstep ha hp hb hid hdecided
  · intro pass u hrows hlock hstep t ht
    have hcovered := expireDue_covered hs hstep hrows hlock
    obtain ⟨a, ha, hp, hta⟩ := (hcovered.waiting t ht).resolve_left List.not_mem_nil
    refine ⟨a, ha, ⟨hp, hta, hcovered.prompt a ha hp⟩, fun b hb hpb htb => ?_⟩
    exact (step_sound hs hstep).one_per_task hb ha htb hta hpb hp
  · intro v hv a ha b hb hchain t t' ht ht'
    obtain ⟨honward, hsound⟩ := path_onward h hv
    obtain ⟨c, hc, hid, hcchain, htc⟩ := honward.marked a ha t ht
    obtain rfl := hsound.one_delegate hc hb (hcchain.trans hchain) (by rw [htc]; nofun)
      (by rw [ht']; nofun)
    exact ⟨hid, Option.some.inj (ht'.symm.trans htc)⟩
  · intro a ha hp hby t ht
    obtain ⟨state, hstate, hend⟩ := hs.delegates a ha t ht
    refine ⟨state, hstate, (hend hp).resolve_left fun ⟨agent, hagent⟩ => hby agent hagent⟩

/-- A draft is asked about, unanswered, delegated, and decided by its delegate. -/
def overnight : List Act :=
  [.addTask, .moveTask 0 .ready, .requestForTask 0 (some "approve_article") none,
    .tick 86400000000, .expireDue ⟨fun _ => .started, [], [], fun _ => []⟩, .claim 1 7,
    .decideDelegated 0 .approve (.agent 7) "well sourced" 1 false]

def newsroom : ApprovalService := ⟨["approve_article"], 86400000000, by decide⟩

def play (cfg : ApprovalService) (s : Desk) (acts : List Act) : Option Desk :=
  System.follow anyStep (fun s act => s.step cfg act) s acts

theorem play_reach {acts : List Act} (h : play cfg ⟨0, [], []⟩ acts = some s) :
    (approvals cfg).Reach anyStep s :=
  ⟨⟨0, [], []⟩, ⟨rfl, rfl⟩, System.follow_path (S := approvals cfg) (fun _ _ _ hs => hs) h⟩

theorem approvals_answered_overnight : ∃ s, play newsroom ⟨0, [], []⟩ overnight = some s ∧
    (∃ a ∈ s.approvals, a.state = .approved) ∧
    ∀ v, (approvals newsroom).Path anyStep s v → ∀ a ∈ s.approvals, a.state ≠ .pending →
      a ∈ v.approvals ∧ ∀ b ∈ v.approvals, b.id = a.id → b = a := by
  obtain ⟨s, hs, happroved⟩ : ∃ s, play newsroom ⟨0, [], []⟩ overnight = some s ∧
      (s.approvals.any fun a => a.state == .approved) = true := by
    refine Option.any_eq_true _ _ |>.mp ?_
    decide +kernel
  obtain ⟨a, ha, hstate⟩ := List.any_eq_true.mp happroved
  exact ⟨s, hs, ⟨a, ha, beq_iff_eq.mp hstate⟩, (approvals_answered (play_reach hs)).2.1⟩

end Autora.Approvals
