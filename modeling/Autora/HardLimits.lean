import Autora.WithinLimits

/-! What any number of calls together spend under a hard limit, over every run. -/

namespace Autora.Models

open Transactions Refusals Systems

variable {g : ModelGateway} {keys : Keys} {guard : DbCostGuard} {m : Meter} {ctx : CallContext}

/-! ## Every run -/

/-- What a run asks of its steps. A cycle's end does not take its budget's window back; an answer
costs what was estimated at most, and settles. -/
def Orderly (g : ModelGateway) (agentOf : Id → Option Id) (s : Traffic) : Act → Prop
  | .cycle company startedAt =>
    ∀ b ∈ s.meter.budgets, b.companyId = company → b.hardCap = true → b.period = .cycle →
      windowStart .cycle s.meter.now (s.meter.openCycle company) ≤
        windowStart .cycle s.meter.now startedAt
  | .ask _ request _ binding _ =>
    Proper agentOf request.context ∧ 0 ≤ estimateCost request binding
  | .next i => ∀ c reservation r, s.callers i = some c → c.stage = .closing reservation (.ok r) →
      0 ≤ g.replyCost c.binding r ∧ g.replyCost c.binding r ≤ c.amount ∧ Settles g s c reservation
  | _ => True

/-- Nobody is calling, and no limit is passed. -/
structure Opening (g : ModelGateway) (agentOf : Id → Option Id) (s : Traffic) : Prop where
  callers : ∀ i, s.callers i = none
  rows : s.meter.Kept
  kept : ∀ request : ModelRequest, Proper agentOf request.context →
    ∀ l ∈ limits g.costGuard s.meter request,
      spent g.costGuard s.meter request.context.companyId l ≤ l.amount

variable {agentOf : Id → Option Id} {s t : Traffic} {i : Id} {c : Caller}

theorem Within.of_opening (h : Opening g agentOf s) : Within g keys agentOf s := by
  have hnone : ∀ {i c}, s.callers i ≠ some c := by
    intro i c hc
    rw [h.callers i] at hc
    cases hc
  refine ⟨h.rows, fun i c hc => absurd hc hnone, fun i j c d id hc => absurd hc hnone,
    fun ctx hp l hl => ?_⟩
  -- any request made for the context
  let request : ModelRequest := ⟨"", ctx, 0, 0, none⟩
  refine h.kept request hp (l.at_ s.meter.now (s.meter.openCycle ctx.companyId)) ?_
  rw [limits_eq]
  exact List.mem_map_of_mem hl

/-- One statement of a call. -/
theorem Within.advance (h : Within g keys agentOf s) (hc : s.callers i = some c)
    (hpaid : ∀ reservation r, c.stage = .closing reservation (.ok r) →
      0 ≤ g.replyCost c.binding r ∧ g.replyCost c.binding r ≤ c.amount ∧ Settles g s c reservation)
    (hstep : s.advance g keys i c = some t) : Within g keys agentOf t := by
  have hok := h.callers i c hc
  have hat := hok.stage
  cases hs : c.stage with
  | asking =>
    simp only [Traffic.advance, hs, Option.some.injEq] at hstep
    subst hstep
    refine h.put hc ⟨hok.proper, hok.amount, hok.began, trivial⟩ fun id hid => ?_
    cases hid
  | waiting =>
    simp only [Traffic.advance, hs] at hstep
    split at hstep
    · next hfree =>
      cases hstep
      exact h.lock_put hfree ⟨hok.proper, hok.amount, hok.began, Function.update_self _ _ _⟩ rfl
    · cases hstep
  | locked =>
    rw [hs] at hat
    simp only [Traffic.advance, hs, Option.some.injEq] at hstep
    subst hstep
    refine h.put hc ⟨hok.proper, hok.amount, hok.began, hat, hok.listed⟩ fun id hid => ?_
    cases hid
  | listed todo =>
    rw [hs] at hat
    obtain ⟨hlock, cycleStart, hread, hall⟩ := hat
    have hchecked : c.Checked g.costGuard s.meter todo :=
      ⟨cycleStart, hread, fun l hl => .inl (hall l hl)⟩
    simp only [Traffic.advance, hs] at hstep
    split at hstep
    · split at hstep
      · next hfree =>
        cases hstep
        exact h.lock_put hfree ⟨hok.proper, hok.amount, hok.began,
          lock_own (keys.company c.company) hlock, fun _ => Function.update_self _ _ _,
          hchecked⟩ rfl
      · cases hstep
    · next hcap =>
      cases hstep
      refine h.put hc ⟨hok.proper, hok.amount, hok.began, hlock, fun h => absurd h hcap, hchecked⟩
        fun id hid => ?_
      cases hid
  | checking todo =>
    rw [hs] at hat
    obtain ⟨hlock, hdaily, hchecked⟩ := hat
    cases todo with
    | nil =>
      simp only [Traffic.advance, hs, Option.some.injEq] at hstep
      subst hstep
      exact h.commit hc hs
    | cons l todo =>
      simp only [Traffic.advance, hs, Option.some.injEq] at hstep
      subst hstep
      refine h.put hc ⟨hok.proper, hok.amount, hok.began, hlock, hdaily, hchecked, le_rfl⟩
        fun id hid => ?_
      cases hid
  | summed l todo x =>
    rw [hs] at hat
    obtain ⟨hlock, hdaily, -, -⟩ := hat
    simp only [Traffic.advance, hs] at hstep
    split at hstep
    · cases hstep
      exact h.refuse l _
    · next hroom =>
      cases hstep
      refine h.put hc ⟨hok.proper, hok.amount, hok.began, hlock, hdaily,
        hok.compared h.rows hs hroom⟩ fun id hid => ?_
      cases hid
  | holding reservation =>
    simp only [Traffic.advance, hs] at hstep
    cases hstep
  | closing reservation reply =>
    simp only [Traffic.advance, hs, Option.some.injEq] at hstep
    subst hstep
    refine h.close hc hs fun r hr => ?_
    rw [hr] at hs
    exact hpaid reservation r hs

-- only a cycle's budget asks when the cycle opened
theorem cycle_start {startedAt : Option Time}
    (ha : ∀ b ∈ m.budgets, b.companyId = ctx.companyId → b.hardCap = true → b.period = .cycle →
      windowStart .cycle m.now (m.openCycle ctx.companyId) ≤ windowStart .cycle m.now startedAt)
    {l : Standing} (hl : l ∈ standing guard m ctx) :
    l.start m.now (m.openCycle ctx.companyId) ≤ l.start m.now startedAt := by
  have hbudget : ∀ b ∈ m.budgets, b.companyId = ctx.companyId → b.hardCap = true →
      windowStart b.period m.now (m.openCycle ctx.companyId) ≤
        windowStart b.period m.now startedAt := by
    intro b hb hcompany hhard
    cases hp : b.period with
    | cycle => exact ha b hb hcompany hhard hp
    | day => exact le_rfl
    | month => exact le_rfl
  cases Stands.of_mem hl with
  | run hagent hrun hx => exact le_rfl
  | task htask hx => exact le_rfl
  | project hproject hb hcompany hhard hown => exact hbudget _ hb hcompany hhard
  | company hb hcompany hhard hproject hunit => exact hbudget _ hb hcompany hhard
  | daily hx => exact le_rfl

theorem Within.step {a : Act} (h : Within g keys agentOf s) (ha : Orderly g agentOf s a)
    (hstep : s.step g keys a = some t) : Within g keys agentOf t := by
  cases a with
  | tick now =>
    simp only [Traffic.step] at hstep
    split at hstep
    · next hnow =>
      cases hstep
      exact h.passed rfl rfl rfl rfl rfl (fun _ => rfl) hnow fun ctx l _ =>
        Standing.start_mono hnow _
    · cases hstep
  | cycle company startedAt =>
    cases hstep
    refine h.passed rfl rfl rfl rfl rfl (fun _ => rfl) (le_refl s.meter.now) fun ctx l hl => ?_
    by_cases hcompany : ctx.companyId = company
    · subst hcompany
      simp only [Function.update_self]
      exact cycle_start ha hl
    · simp [hcompany]
  | ask i request alias_ binding latencyMs =>
    simp only [Traffic.step] at hstep
    split at hstep
    · next hnone =>
      cases hstep
      refine h.moved (i := i) (e := s.meter.exhausted) rfl rfl (fun k j _ hk => hk) (fun d hd => ?_)
        fun d id hd hid => ?_
      · cases hd
        exact ⟨ha.1, ha.2, le_rfl, trivial⟩
      · cases hd
        cases hid
    · cases hstep
  | next i =>
    obtain ⟨c, hc, hstep⟩ := Option.bind_eq_some_iff.mp hstep
    exact h.advance hc (ha c · · hc) hstep
  | answered i reply =>
    obtain ⟨c, hc, hstep⟩ := Option.bind_eq_some_iff.mp hstep
    have hok := h.callers i c hc
    have hat := hok.stage
    split at hstep
    · next reservation hs =>
      cases hstep
      rw [hs] at hat
      refine h.put hc ⟨hok.proper, hok.amount, hok.began, ?_⟩ fun id hid => ?_
      · cases reservation with
        | none => exact hat
        | some id =>
          obtain ⟨r, hr, hid, hfor⟩ := hat
          exact ⟨r, hr, hid, hfor.open_, hfor.amount, hfor.company, hfor.project, hfor.task,
            hfor.run⟩
      · rw [hs]
        exact hid
    · cases hstep
  | leave i =>
    obtain ⟨c, hc, rfl⟩ := Option.map_eq_some_iff.mp hstep
    exact h.drop i

/-- However many calls are made at once, and wherever each of them is cancelled, no hard limit
is passed: what is recorded and what is held stay within it together. -/
theorem hard_limits_kept (hs : (traffic g keys (Opening g agentOf)).Reach (Orderly g agentOf) s)
    {request : ModelRequest} (hp : Proper agentOf request.context) :
    ∀ l ∈ limits g.costGuard s.meter request,
      recorded s.meter request.context.companyId l ≤ l.amount ∧
      spent g.costGuard s.meter request.context.companyId l ≤ l.amount := by
  have hwithin : Within g keys agentOf s :=
    hs.invariant (fun _ h => Within.of_opening h) fun _ _ _ h ha hstep => h.step ha hstep
  intro l hl
  rw [limits_eq] at hl
  obtain ⟨l', hl', rfl⟩ := List.mem_map.mp hl
  have hspent := hwithin.kept request.context hp l' hl'
  refine ⟨le_trans ?_ hspent, hspent⟩
  exact le_add_of_nonneg_right (Totals.total_nonneg hwithin.rows.amounts)

def soloReply (tokens : Nat) : ProviderResponse := ⟨[], .endTurn, { outputTokens := tokens }, [109]⟩

/-- Steps that record no answer. -/
def Unpaid (s : Traffic) : Act → Bool
  | .ask _ request _ binding _ =>
    request.context.runId.isNone && decide (0 ≤ estimateCost request binding)
  | .next i => (s.callers i).all fun c => !c.stage.holds.isSome
  | .cycle _ _ => false
  | _ => true

theorem Unpaid.orderly {a : Act} (h : Unpaid s a = true) : Orderly g agentOf s a := by
  cases a with
  | tick now => trivial
  | cycle company startedAt => cases h
  | ask i request alias_ binding latencyMs =>
    simp only [Unpaid, Bool.and_eq_true, Option.isNone_iff_eq_none, decide_eq_true_eq] at h
    refine ⟨fun run hrun => ?_, h.2⟩
    rw [h.1] at hrun
    cases hrun
  | next i =>
    intro c reservation r hc hstage
    simp [Unpaid, hc, hstage, Stage.holds] at h
  | answered i reply => trivial
  | leave i => trivial

-- a call that was reserved for and is answered for half of it
def soloClosing : Option Traffic :=
  System.follow (fun s a => a.caller = some 0 ∧ Unpaid s a = true)
    (fun s a => s.step soloGateway soloKeys a) budgeted
    (.ask 0 soloRequest "writer" soloBinding 0 :: List.replicate 7 (.next 0) ++
      [.answered 0 (.ok (soloReply 500000))])

theorem budgeted_opening : Opening soloGateway (fun _ => none) budgeted := by
  refine ⟨fun _ => rfl, ⟨?_, ?_, ?_, List.nodup_nil⟩, fun request _ l hl => ?_⟩
  · intro _ h
    cases h
  · intro _ h
    cases h
  · intro _ h
    cases h
  · have hspent : spent soloGateway.costGuard budgeted.meter request.context.companyId l = 0 := by
      simp [spent, budgeted, emptyMeter]
    rw [hspent]
    rw [limits_eq] at hl
    obtain ⟨l', hl', rfl⟩ := List.mem_map.mp hl
    have hbudget : ∀ b ∈ budgeted.meter.budgets, 0 ≤ soloGateway.costGuard.metered b := by
      intro b hb
      rw [List.mem_singleton.mp hb]
      exact zero_le_one
    cases Stands.of_mem hl' with
    | run hagent hrun hx => cases hx
    | task htask hx => cases hx
    | project hproject hb hcompany hhard hown => exact hbudget _ hb
    | company hb hcompany hhard hproject hunit => exact hbudget _ hb
    | daily hx => cases hx

/-- What the call's answer is held to, where nobody else calls. -/
def settlesAlone (s : Traffic) : Bool :=
  (s.callers 0).all fun c => match c.stage with
    | .closing _ (.ok r) => decide (0 ≤ soloGateway.replyCost c.binding r ∧
        soloGateway.replyCost c.binding r ≤ c.amount ∧
        ∀ row ∈ s.meter.reservations,
          s.meter.now ≤ row.createdAt + soloGateway.costGuard.reservationTtl ∧
          ∀ l ∈ limits soloGateway.costGuard s.meter c.request,
            l.windowStart.all (· ≤ c.opened) = true → l.windowStart.all (· ≤ row.createdAt) = true)
    | _ => true

theorem settlesAlone.orderly (h : settlesAlone s = true)
    (hothers : ∀ j, j ≠ 0 → s.callers j = none) :
    Orderly soloGateway agentOf s (.next 0) := by
  intro c reservation r hc hstage
  simp only [settlesAlone, hc, Option.all_some, hstage, decide_eq_true_eq] at h
  obtain ⟨hcost, hle, hrows⟩ := h
  refine ⟨hcost, hle, fun id hid row hrow hrid => hrows row hrow, fun j d l todo x hd hsummed => ?_⟩
  by_cases hj : j = 0
  · rw [hj, hc] at hd
    cases hd
    rw [hstage] at hsummed
    cases hsummed
  · rw [hothers j hj] at hd
    cases hd

theorem soloClosing_path (h : soloClosing = some s) :
    (traffic soloGateway soloKeys (Opening soloGateway agentOf)).Path
      (fun s a => a.caller = some 0 ∧ Unpaid s a = true) budgeted s :=
  System.follow_path (fun _ _ _ hstep => hstep) h

-- the answer is recorded, and half of the dollar is left
theorem hard_limits_kept_solo : ∃ s : Traffic, s.meter.calls.map (·.costUsd) = [1 / 2] ∧
    ∀ l ∈ limits soloGateway.costGuard s.meter soloRequest, recorded s.meter 0 l ≤ l.amount := by
  have hrun : (soloClosing.bind fun s => s.step soloGateway soloKeys (.next 0)).map
      (fun s => s.meter.calls.map (·.costUsd)) = some [1 / 2] := by decide +kernel
  obtain ⟨t, ht, hcalls⟩ := Option.map_eq_some_iff.mp hrun
  obtain ⟨s, hs, hstep⟩ := Option.bind_eq_some_iff.mp ht
  have hpath : (traffic soloGateway soloKeys (Opening soloGateway fun _ => none)).Path
      (fun s a => a.caller = some 0 ∧ Unpaid s a = true) budgeted s := soloClosing_path hs
  have hothers : ∀ j, j ≠ 0 → s.callers j = none := fun j hj =>
    path_callers (hpath.mono fun _ _ h => h.1) hj
  have hsettles : settlesAlone s = true := by
    have hdec : soloClosing.all settlesAlone = true := by decide +kernel
    rw [hs] at hdec
    exact hdec
  have hreach : (traffic soloGateway soloKeys (Opening soloGateway fun _ => none)).Reach
      (Orderly soloGateway fun _ => none) s :=
    ⟨budgeted, budgeted_opening, hpath.mono fun _ _ h => Unpaid.orderly h.2⟩
  have hproper : Proper (fun _ => none) soloRequest.context := by
    intro _ h
    cases h
  have hlast := hreach.step (settlesAlone.orderly hsettles hothers) hstep
  exact ⟨t, hcalls, fun l hl => (hard_limits_kept hlast hproper l hl).1⟩

/-- A call settled between the two sums of another is in neither: two dollars pass a limit
of one. -/
theorem overspent_between_sums :
    (System.follow anyStep (fun s a => s.step soloGateway soloKeys a) budgeted
      (.ask 0 soloRequest "writer" soloBinding 0 :: List.replicate 7 (.next 0) ++
        .ask 1 soloRequest "writer" soloBinding 0 :: List.replicate 5 (.next 1) ++
        [.answered 0 (.ok (soloReply 1000000)), .next 0, .next 1, .next 1,
          .answered 1 (.ok (soloReply 1000000)), .next 1])).map
      (fun s => (limits soloGateway.costGuard s.meter soloRequest).map fun l =>
        (l.amount, recorded s.meter 0 l)) = some [(1, 2)] := by
  decide +kernel

end Autora.Models
