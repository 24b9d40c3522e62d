import Autora.Cycles

/-! The ledger against the meter: what a cycle's expenses add up to. -/

namespace Autora.Company

open Transactions Systems

variable {b b' : Books}

/-! Costs, project by project. -/

/-- What a project's successful calls under a cycle cost. -/
def Books.share (b : Books) (cycle : Id) (project : Option Id) : Money :=
  cost ((b.settled cycle).filter fun c => c.projectId = project)

theorem cost_cons (c : ModelCall) (calls : List ModelCall) :
    cost (c :: calls) = c.costUsd + cost calls := by
  simp [cost]

theorem cost_append (calls calls' : List ModelCall) :
    cost (calls ++ calls') = cost calls + cost calls' := by
  simp [cost]

theorem cost_nonneg (calls : List ModelCall) : 0 ≤ cost calls := by
  induction calls with
  | nil => simp [cost]
  | cons c calls ih =>
    rw [cost_cons]
    exact Int.add_nonneg c.cost_nonneg ih

/-- One call's cost, looked up under the projects of a list. -/
theorem sum_single {projects : List (Option Id)} (hn : projects.Nodup) (q : Option Id)
    (k : Money) : (projects.map fun p => if q = p then k else 0).sum =
      if q ∈ projects then k else 0 := by
  induction projects with
  | nil => simp
  | cons p projects ih =>
    obtain ⟨hp, hn⟩ := List.nodup_cons.mp hn
    rw [List.map_cons, List.sum_cons, ih hn]
    by_cases hq : q = p
    · rw [if_pos hq, hq, if_neg hp, if_pos (by simp)]
      exact Int.add_zero k
    · simp [hq]

/-- The shares of the projects that cost something add up to the whole. -/
theorem sum_shares {calls : List ModelCall} {projects : List (Option Id)} (hn : projects.Nodup)
    (hall : ∀ c ∈ calls, 0 < c.costUsd → c.projectId ∈ projects) :
    (projects.map fun p => cost (calls.filter fun c => c.projectId = p)).sum = cost calls := by
  induction calls with
  | nil =>
    have hzero : ∀ ps : List (Option Id), (ps.map fun _ => (0 : Money)).sum = 0 := by
      intro ps
      induction ps with
      | nil => rfl
      | cons p ps ih => rw [List.map_cons, List.sum_cons, ih]; rfl
    exact hzero projects
  | cons c calls ih =>
    have hsplit : (projects.map fun p => cost ((c :: calls).filter fun c => c.projectId = p)).sum =
        (projects.map fun p => if c.projectId = p then c.costUsd else 0).sum +
          (projects.map fun p => cost (calls.filter fun c => c.projectId = p)).sum := by
      clear ih hall hn
      induction projects with
      | nil => rfl
      | cons p projects ih =>
        have hhead : cost ((c :: calls).filter fun c => c.projectId = p) =
            (if c.projectId = p then c.costUsd else 0) +
              cost (calls.filter fun c => c.projectId = p) := by
          by_cases hp : c.projectId = p
          · rw [List.filter_cons_of_pos (by simpa using hp), cost_cons, if_pos hp]
          · rw [List.filter_cons_of_neg (by simpa using hp), if_neg hp]
            exact (Int.zero_add _).symm
        simp only [List.map_cons, List.sum_cons, ih, hhead]
        ac_rfl
    rw [hsplit, sum_single hn, ih fun x hx => hall x (by simp [hx]), cost_cons]
    by_cases hc : c.projectId ∈ projects
    · rw [if_pos hc]
    · have hzero : c.costUsd = 0 := by
        have hnot : ¬ 0 < c.costUsd := fun hpos => hc (hall c (by simp) hpos)
        exact Int.le_antisymm (Int.not_lt.mp hnot) c.cost_nonneg
      rw [if_neg hc, hzero]

/-! What holds of the ledger. -/

/-- The row of a cycle's project holds what that project's calls cost. -/
structure Sound (b : Books) : Prop where
  keys : (b.transactions.map Transaction.idempotencyKey).Nodup
  shares : ∀ t ∈ b.transactions, ∀ c p, t.idempotencyKey = .cycleCost c p →
    t.kind = .expense ∧ t.category = modelCost ∧ t.refId = some c ∧ t.projectId = p ∧
      t.sourceAmount = some (b.share c p)
  others : ∀ t ∈ b.transactions, t.category = modelCost →
    ∃ c p, t.idempotencyKey = .cycleCost c p

/-- The stages before the cycle is settled. -/
def early (stage : CycleStage) : Bool := stage = .planning || stage = .executing

/-- Every project of the cycle that cost something has its row. -/
def Books.Settled (b : Books) (cycle : Id) : Prop :=
  ∀ p, 0 < b.share cycle p → b.used (.cycleCost cycle p) = true

structure Metered (b : Books) : Prop where
  sound : Sound b
  late : ∀ c ∈ b.cycles, early c.stage = false → b.Settled c.id

theorem used_iff {key : LedgerKey} :
    b.used key = true ↔ ∃ t ∈ b.transactions, t.idempotencyKey = key := by
  simp [Books.used]

/-- The meter, the cycles and the currencies stay as they are, and no row goes. -/
structure LedgerOnly (b b' : Books) : Prop where
  calls : b'.modelCalls = b.modelCalls
  cycles : b'.cycles = b.cycles
  fx : b'.fx = b.fx
  used : ∀ key, b.used key = true → b'.used key = true

theorem LedgerOnly.refl (b : Books) : LedgerOnly b b := ⟨rfl, rfl, rfl, fun _ h => h⟩

theorem LedgerOnly.trans {b'' : Books} (h : LedgerOnly b b') (h' : LedgerOnly b' b'') :
    LedgerOnly b b'' :=
  ⟨h'.calls.trans h.calls, h'.cycles.trans h.cycles, h'.fx.trans h.fx,
    fun key hk => h'.used key (h.used key hk)⟩

theorem share_congr (h : b'.modelCalls = b.modelCalls) (cycle : Id) (project : Option Id) :
    b'.share cycle project = b.share cycle project := by
  rw [Books.share, Books.share, Books.settled, Books.settled, h]

theorem LedgerOnly.settled {cycle : Id} (h : LedgerOnly b b') (hs : b.Settled cycle) :
    b'.Settled cycle := by
  intro p hp
  rw [share_congr h.calls] at hp
  exact h.used _ (hs p hp)

theorem booked_ledgerOnly (a : RecordArgs) (c : Converted) : LedgerOnly b (b.booked a c) := by
  refine ⟨rfl, rfl, rfl, fun key hk => ?_⟩
  obtain ⟨t, ht, he⟩ := used_iff.mp hk
  exact used_iff.mpr ⟨t, List.mem_append_left _ ht, he⟩

theorem booked_used (a : RecordArgs) (c : Converted) :
    (b.booked a c).used a.idempotencyKey = true :=
  used_iff.mpr ⟨a.row b c, by simp [Books.booked], rfl⟩

/-- A new row keeps the ledger sound when it is sound itself. -/
theorem Sound.booked (hb : Sound b) {a : RecordArgs} {c : Converted}
    (hnew : b.used a.idempotencyKey = false)
    (hshare : ∀ cyc p, a.idempotencyKey = .cycleCost cyc p →
      a.kind = .expense ∧ a.category = modelCost ∧ a.refId = some cyc ∧ a.projectId = p ∧
        c.sourceAmount = some (b.share cyc p))
    (hother : a.category = modelCost → ∃ cyc p, a.idempotencyKey = .cycleCost cyc p) :
    Sound (b.booked a c) := by
  refine ⟨?_, fun t ht cyc p hk => ?_, fun t ht hcat => ?_⟩
  · rw [Books.booked, List.map_append, List.nodup_append]
    refine ⟨hb.keys, by simp, fun k hk k' hk' he => ?_⟩
    obtain ⟨t, ht, rfl⟩ := List.mem_map.mp hk
    rw [List.map_singleton, List.mem_singleton] at hk'
    have hused : b.used a.idempotencyKey = true := used_iff.mpr ⟨t, ht, he.trans hk'⟩
    rw [hnew] at hused
    cases hused
  · rcases List.mem_append.mp ht with ht | ht
    · exact hb.shares t ht cyc p hk
    · rw [List.mem_singleton.mp ht] at hk ⊢
      exact hshare cyc p hk
  · rcases List.mem_append.mp ht with ht | ht
    · exact hb.others t ht hcat
    · rw [List.mem_singleton.mp ht] at hcat ⊢
      exact hother hcat

/-! Settling. -/

theorem toBase_source {fx : Fx} {amount : Money} {currency : String} {c : Converted}
    (hne : currency ≠ fx.base) (h : fx.toBase amount currency = .ok c) :
    c.sourceAmount = some amount := by
  unfold Fx.toBase at h
  rw [if_neg hne] at h
  cases hr : fx.rate currency with
  | error e =>
    rw [hr] at h
    cases h
  | ok rate =>
    rw [hr] at h
    cases h
    rfl

/-- Settling one project's share gives it its row, once. -/
theorem settleProject_sound {cycle : Cycle} {s s' : Settlement} {p : Option Id} {k : Money}
    (hb : Sound b) (hbase : meterCurrency ≠ b.fx.base) (hk : k = b.share cycle.id p)
    (h : Returns (settleProject cycle s (p, k)) b s' b') :
    Sound b' ∧ LedgerOnly b b' ∧ (0 < k → b'.used (.cycleCost cycle.id p) = true) := by
  unfold settleProject at h
  rcases returns_ite.mp h with ⟨hle, h⟩ | ⟨hpos, h⟩
  · obtain ⟨rfl, rfl⟩ := returns_pure.mp h
    exact ⟨hb, .refl _, fun hpos => absurd hle (by simpa using hpos)⟩
  · simp only [returns_bind, returns_get, returns_record] at h
    obtain ⟨_, _, ⟨rfl, rfl⟩, r, b₁, ⟨c, hc, _, hr⟩, h⟩ := h
    have hend : b' = b₁ := by
      cases r with
      | none => exact (returns_pure.mp h).2
      | some t => exact (returns_pure.mp h).2
    rw [hend]
    rcases hr with ⟨hused, _, rfl⟩ | ⟨hnew, _, rfl⟩
    · exact ⟨hb, .refl _, fun _ => hused⟩
    · refine ⟨hb.booked hnew (fun cyc p' hkey => ?_) fun _ => ⟨_, _, rfl⟩,
        booked_ledgerOnly _ _, fun _ => booked_used _ _⟩
      cases hkey
      refine ⟨rfl, rfl, rfl, rfl, ?_⟩
      rw [← hk]
      exact toBase_source hbase hc

theorem mem_perProject {calls : List ModelCall} {x : Option Id × Money}
    (h : x ∈ perProject calls) : x.2 = cost (calls.filter fun c => c.projectId = x.1) := by
  obtain ⟨p, _, rfl⟩ := List.mem_map.mp h
  rfl

theorem perProject_mem {calls : List ModelCall} {p : Option Id}
    (h : 0 < cost (calls.filter fun c => c.projectId = p)) :
    (p, cost (calls.filter fun c => c.projectId = p)) ∈ perProject calls := by
  refine List.mem_map.mpr ⟨p, List.mem_dedup.mpr (List.mem_map.mpr ?_), rfl⟩
  by_contra hno
  have hnil : calls.filter (fun c => c.projectId = p) = [] := by
    refine List.filter_eq_nil_iff.mpr fun c hc => ?_
    simp only [decide_eq_true_eq]
    exact fun he => hno ⟨c, hc, he⟩
  rw [hnil] at h
  exact absurd h (by simp [cost])

theorem settleCycle_sound {cycle : Cycle} {s : Settlement} (hb : Sound b)
    (hbase : meterCurrency ≠ b.fx.base) (h : Returns (settleCycle cycle) b s b') :
    Sound b' ∧ LedgerOnly b b' ∧ b'.Settled cycle.id := by
  simp only [settleCycle, returns_bind, returns_get] at h
  obtain ⟨_, b, ⟨rfl, rfl⟩, h⟩ := h
  -- each turn of the loop leaves a row for the share it was at
  have hloop := foldEach_prefix (I := fun pre _ b' => Sound b' ∧ LedgerOnly b b' ∧
      ∀ x ∈ pre, 0 < x.2 → b'.used (.cycleCost cycle.id x.1) = true)
    (fun pre x post he s₁ b₁ s₂ b₂ hI hstep => ?_) ⟨hb, .refl b, by simp⟩ h
  · obtain ⟨hsound, honly, hused⟩ := hloop
    refine ⟨hsound, honly, fun p hp => ?_⟩
    rw [share_congr honly.calls] at hp
    exact hused _ (perProject_mem hp) hp
  · obtain ⟨hsound, honly, hused⟩ := hI
    have hx : x ∈ perProject (b.settled cycle.id) := by
      rw [he]
      simp
    have hshare : x.2 = b₁.share cycle.id x.1 := by
      rw [share_congr honly.calls]
      exact mem_perProject hx
    have hbase₁ : meterCurrency ≠ b₁.fx.base := by
      rw [honly.fx]
      exact hbase
    obtain ⟨hsound', honly', hmine⟩ := settleProject_sound hsound hbase₁ hshare hstep
    refine ⟨hsound', honly.trans honly', fun y hy hpos => ?_⟩
    rcases List.mem_append.mp hy with hy | hy
    · exact honly'.used _ (hused y hy hpos)
    · rw [List.mem_singleton.mp hy] at hpos ⊢
      exact hmine hpos

/-! The steps of the company. -/

/-- The ledger, the meter, the cycles and the currencies stay as they are. -/
structure OffLedger (b b' : Books) : Prop where
  transactions : b'.transactions = b.transactions
  calls : b'.modelCalls = b.modelCalls
  cycles : b'.cycles = b.cycles
  fx : b'.fx = b.fx

instance : IsPreorder Books OffLedger where
  refl _ := ⟨rfl, rfl, rfl, rfl⟩
  trans _ _ _ h h' := ⟨h'.transactions.trans h.transactions, h'.calls.trans h.calls,
    h'.cycles.trans h.cycles, h'.fx.trans h.fx⟩

theorem OffLedger.ledgerOnly (h : OffLedger b b') : LedgerOnly b b' := by
  refine ⟨h.calls, h.cycles, h.fx, fun key hk => ?_⟩
  rw [Books.used, h.transactions]
  exact hk

theorem Sound.congr (hb : Sound b) (ht : b'.transactions = b.transactions)
    (hc : b'.modelCalls = b.modelCalls) : Sound b' := by
  refine ⟨?_, ?_, ?_⟩
  · rw [ht]
    exact hb.keys
  · intro t htr c p hk
    rw [ht] at htr
    rw [share_congr hc]
    exact hb.shares t htr c p hk
  · rw [ht]
    exact hb.others

theorem expireDue_offLedger (company : Id) (now : Time) (locked : List Id) :
    Keeps OffLedger (expireDue company now locked) := by
  refine Keeps.get.bind fun _ => Keeps.forEach _ fun m _ => ?_
  unfold expireOne churn
  refine Keeps.bind (Keeps.modify fun _ => ⟨rfl, rfl, rfl, rfl⟩) fun _ =>
    Keeps.bind (Keeps.modify fun _ => ⟨rfl, rfl, rfl, rfl⟩) fun _ => Keeps.get.bind fun b => ?_
  split
  · exact Keeps.pure _
  · refine Keeps.orRaise.bind fun c => ?_
    split
    · exact Keeps.pure _
    · exact Keeps.bind (Keeps.modify fun _ => ⟨rfl, rfl, rfl, rfl⟩) fun _ =>
        Keeps.modify fun _ => ⟨rfl, rfl, rfl, rfl⟩

theorem enterStage_sound {locked : List Id} {cycle : Cycle} {u : Unit} (hb : Sound b)
    (hbase : meterCurrency ≠ b.fx.base) (h : Returns (enterStage locked cycle) b u b') :
    Sound b' ∧ LedgerOnly b b' ∧ (cycle.stage = .measuring → b'.Settled cycle.id) := by
  unfold enterStage at h
  split at h
  · simp only [returns_bind, returns_get, returns_pure] at h
    obtain ⟨_, b, ⟨rfl, rfl⟩, _, b₁, hexpire, s, b₂, hsettle, _, rfl⟩ := h
    have hoff := expireDue_offLedger _ _ _ _ _ _ hexpire
    have hbase₁ : meterCurrency ≠ b₁.fx.base := by
      rw [hoff.fx]
      exact hbase
    obtain ⟨hsound, honly, hsettled⟩ :=
      settleCycle_sound (hb.congr hoff.transactions hoff.calls) hbase₁ hsettle
    exact ⟨hsound, hoff.ledgerOnly.trans honly, fun _ => hsettled⟩
  · next hno =>
    rw [(returns_pure.mp h).2]
    exact ⟨hb, .refl _, fun he => absurd he hno⟩

theorem advance_metered {locked : List Id} {c c' : Cycle} (hb : Metered b)
    (hbase : meterCurrency ≠ b.fx.base) (hc : c ∈ b.cycles)
    (h : Returns (advance locked c) b c' b') :
    Metered b' ∧ c' ∈ b'.cycles ∧ b'.fx = b.fx := by
  have hevents : ∃ events, Returns (enterStage locked (c.advanced b.now))
      { b.setCycle (c.advanced b.now) with events := events } () b' ∧ c' = c.advanced b.now := by
    simp only [advance, returns_bind, returns_get, returns_modify, returns_emit] at h
    obtain ⟨_, b, ⟨rfl, rfl⟩, _, _, rfl, _, _, rfl, h⟩ := h
    rcases returns_ite.mp h with ⟨_, h⟩ | ⟨_, h⟩
    · simp only [returns_bind, returns_emit, returns_pure] at h
      obtain ⟨_, _, rfl, _, _, henter, rfl, rfl⟩ := h
      exact ⟨_, henter, rfl⟩
    · simp only [returns_bind, returns_pure] at h
      obtain ⟨_, _, henter, rfl, rfl⟩ := h
      exact ⟨_, henter, rfl⟩
  obtain ⟨events, henter, rfl⟩ := hevents
  let b₁ : Books := { b.setCycle (c.advanced b.now) with events := events }
  have hsound₁ : Sound b₁ := hb.sound.congr rfl rfl
  obtain ⟨hsound, honly, hsettled⟩ := enterStage_sound hsound₁ hbase henter
  have hkeep : ∀ {i : Id}, b.Settled i → b'.Settled i := fun {i} hs =>
    honly.settled (b := b₁) (show b₁.Settled i from hs)
  refine ⟨⟨hsound, fun x hx hlate => ?_⟩, ?_, honly.fx⟩
  · rw [honly.cycles] at hx
    obtain ⟨y, hy, rfl⟩ := List.mem_map.mp hx
    by_cases hid : y.id = (c.advanced b.now).id
    · rw [if_pos hid] at hlate ⊢
      -- a cycle gets late by entering MEASURING, or it was late before
      cases hstage : c.stage with
      | planning => simp [Cycle.advanced, nextStage, hstage, early] at hlate
      | executing => exact hsettled (by simp [Cycle.advanced, nextStage, hstage])
      | measuring => exact hkeep (hb.late c hc (by simp [hstage, early]))
      | reviewing => exact hkeep (hb.late c hc (by simp [hstage, early]))
      | done => exact hkeep (hb.late c hc (by simp [hstage, early]))
    · rw [if_neg hid] at hlate ⊢
      exact hkeep (hb.late y hy hlate)
  · rw [honly.cycles]
    exact List.mem_map.mpr ⟨c, hc, if_pos rfl⟩

theorem advanceWhile_metered {locked : List Id} {moves : CycleStage → Bool} {n : Nat}
    {c c' : Cycle} (hb : Metered b) (hbase : meterCurrency ≠ b.fx.base) (hc : c ∈ b.cycles)
    (h : Returns (advanceWhile locked moves n c) b c' b') : Metered b' := by
  induction n generalizing b c with
  | zero =>
    rw [(returns_pure.mp h).2]
    exact hb
  | succ n ih =>
    unfold advanceWhile at h
    rcases returns_ite.mp h with ⟨_, h⟩ | ⟨_, h⟩
    · obtain ⟨c₁, b₁, hstep, hrest⟩ := returns_bind.mp h
      obtain ⟨hb₁, hc₁, hfx⟩ := advance_metered hb hbase hc hstep
      exact ih hb₁ (by rw [hfx]; exact hbase) hc₁ hrest
    · rw [(returns_pure.mp h).2]
      exact hb

theorem mem_of_openCycle {company : Id} {c : Cycle} (h : b.openCycle company = some c) :
    c ∈ b.cycles := by
  have hmem := List.mem_of_head? h
  rw [List.mem_mergeSort] at hmem
  exact (List.mem_filter.mp hmem).1

theorem tick_metered {company : Id} {moves : CycleStage → Bool} {locked : List Id}
    {r : Option Cycle} (hb : Metered b) (hbase : meterCurrency ≠ b.fx.base)
    (h : Returns (tick company moves locked) b r b') : Metered b' := by
  simp only [tick, returns_bind, returns_get] at h
  obtain ⟨_, b, ⟨rfl, rfl⟩, h⟩ := h
  split at h
  · rw [(returns_pure.mp h).2]
    exact hb
  · next c hopen =>
    simp only [returns_bind, returns_pure] at h
    obtain ⟨_, _, hloop, _, rfl⟩ := h
    exact advanceWhile_metered hb hbase (mem_of_openCycle hopen) hloop

theorem startCycle_metered {company : Id} {c : Cycle} (hb : Metered b)
    (h : Returns (startCycle company) b c b') : Metered b' := by
  simp only [startCycle, returns_bind, returns_get] at h
  obtain ⟨_, b, ⟨rfl, rfl⟩, h⟩ := h
  split at h
  · exact (returns_throw h).elim
  · simp only [returns_bind, returns_uuid7, returns_modify, returns_emit, returns_pure] at h
    obtain ⟨_, _, ⟨rfl, rfl⟩, _, _, rfl, _, _, rfl, rfl, rfl⟩ := h
    refine ⟨hb.sound.congr rfl rfl, fun x hx hlate => ?_⟩
    rcases List.mem_append.mp hx with hx | hx
    · exact hb.late x hx hlate
    · rw [List.mem_singleton.mp hx] at hlate
      cases hlate

/-- A call of this cost under that cycle and project. -/
def CallArgs.adds (a : CallArgs) (cycle : Id) (project : Option Id) : Money :=
  if a.cycleId = some cycle ∧ a.status = .ok ∧ a.projectId = project then a.costUsd else 0

theorem recordCall_share {a : CallArgs} {u : Unit} (h : Returns (recordCall a) b u b')
    (cycle : Id) (project : Option Id) :
    b'.share cycle project = b.share cycle project + a.adds cycle project ∧
      b'.transactions = b.transactions ∧ b'.cycles = b.cycles := by
  simp only [recordCall, returns_bind, returns_uuid7, returns_modify] at h
  obtain ⟨_, _, ⟨rfl, rfl⟩, rfl⟩ := h
  refine ⟨?_, rfl, rfl⟩
  simp only [Books.share, Books.settled, List.filter_append, cost_append]
  refine congrArg _ ?_
  by_cases hc : a.cycleId = some cycle ∧ a.status = .ok
  · by_cases hp : a.projectId = project
    · simp [CallArgs.adds, hc.1, hc.2, hp, cost]
    · simp [CallArgs.adds, hc.1, hc.2, hp, cost]
  · have hno : ¬ (a.cycleId = some cycle ∧ a.status = .ok ∧ a.projectId = project) :=
      fun hh => hc ⟨hh.1, hh.2.1⟩
    rw [CallArgs.adds, if_neg hno]
    simp [hc, cost]

/-! Every run whose calls come in time. -/

/-- The books are not kept in the meter's currency, and a call that cost something is
recorded before its cycle enters MEASURING and before its project's row is there. -/
def punctual : Books → Act → Prop
  | b, .recordCall a => meterCurrency ≠ b.fx.base ∧
    ∀ c, a.cycleId = some c → a.status = .ok → 0 < a.costUsd →
      b.used (.cycleCost c a.projectId) = false ∧
        ∀ row ∈ b.cycles, row.id = c → early row.stage = true
  | b, _ => meterCurrency ≠ b.fx.base

theorem recordCall_metered {a : CallArgs} {u : Unit} (hb : Metered b)
    (hok : punctual b (.recordCall a)) (h : Returns (recordCall a) b u b') : Metered b' := by
  have hshare := recordCall_share h
  obtain ⟨ht, hc⟩ := (hshare 0 none).2
  have hused : ∀ key, b'.used key = b.used key := fun key => by rw [Books.used, Books.used, ht]
  -- a call that adds to a share has no row yet, and its cycle is early
  have hadds : ∀ c p, a.adds c p ≠ 0 → b.used (.cycleCost c p) = false ∧
      ∀ row ∈ b.cycles, row.id = c → early row.stage = true := by
    intro c p hne
    unfold CallArgs.adds at hne
    split at hne
    · next hcond =>
      obtain ⟨hcyc, hstatus, rfl⟩ := hcond
      exact hok.2 c hcyc hstatus (lt_of_le_of_ne a.cost_nonneg (Ne.symm hne))
    · exact absurd rfl hne
  refine ⟨⟨?_, fun t htr c p hkey => ?_, ?_⟩, fun row hrow hlate p hp => ?_⟩
  · rw [ht]
    exact hb.sound.keys
  · rw [ht] at htr
    have hzero : a.adds c p = 0 := by
      by_contra hne
      have hfalse := (hadds c p hne).1
      rw [used_iff.mpr ⟨t, htr, hkey⟩] at hfalse
      cases hfalse
    rw [(hshare c p).1, hzero]
    simpa using hb.sound.shares t htr c p hkey
  · rw [ht]
    exact hb.sound.others
  · rw [hc] at hrow
    have hzero : a.adds row.id p = 0 := by
      by_contra hne
      have hearly := (hadds row.id p hne).2 row hrow rfl
      rw [hlate] at hearly
      cases hearly
    rw [(hshare row.id p).1, hzero] at hp
    rw [hused]
    exact hb.late row hrow hlate p (by simpa using hp)

theorem post_metered {a : RecordArgs} {r : Option Transaction} (hb : Metered b)
    (hcalled : (Act.post a).Called b) (h : Returns (record a) b r b') : Metered b' := by
  obtain ⟨c, _, _, ⟨_, _, rfl⟩ | ⟨hnew, _, rfl⟩⟩ := returns_record.mp h
  · exact hb
  · have honly := booked_ledgerOnly (b := b) a c
    refine ⟨hb.sound.booked hnew (fun cyc p hkey => absurd hkey (hcalled.1 cyc p))
      fun hcat => absurd hcat hcalled.2, fun row hrow hlate => ?_⟩
    exact honly.settled (hb.late row hrow hlate)

theorem commit_metered {act : Act} (hb : Metered b) (hok : punctual b act)
    (hcalled : act.Called b) : Metered (b.commit act.exec) := by
  unfold Books.commit
  split
  · next _ b' h =>
    have hreturns : Returns act.exec b _ b' := h
    cases act with
    | startCycle company =>
      obtain ⟨_, _, hh⟩ := returns_discard.mp hreturns
      exact startCycle_metered hb hh
    | tick company moves locked =>
      obtain ⟨_, _, hh⟩ := returns_discard.mp hreturns
      exact tick_metered hb hok hh
    | recordCall a => exact recordCall_metered hb hok hreturns
    | settleCycle cycle =>
      obtain ⟨_, _, hh⟩ := returns_discard.mp hreturns
      obtain ⟨hsound, honly, _⟩ := settleCycle_sound hb.sound hok hh
      refine ⟨hsound, fun row hrow hlate => ?_⟩
      rw [honly.cycles] at hrow
      exact honly.settled (hb.late row hrow hlate)
    | post a =>
      obtain ⟨_, _, hh⟩ := returns_discard.mp hreturns
      exact post_metered hb hcalled hh
  · exact hb

theorem reach_metered (h : operating.Reach punctual b) : Metered b := by
  refine System.Reach.invariant (fun b hb => ?_) (fun b act b' hb hok hstep => ?_) h
  · obtain ⟨hcycles, _, htransactions⟩ := hb
    exact ⟨⟨by simp [htransactions], by simp [htransactions], by simp [htransactions]⟩,
      by simp [hcycles]⟩
  · obtain ⟨hcalled, rfl⟩ := hstep
    exact commit_metered hb hok hcalled

/-! The ledger equals the meter. -/

/-- The model-cost expenses of a cycle. -/
def Books.costRows (b : Books) (cycle : Id) : List Transaction :=
  b.transactions.filter fun t =>
    t.kind = .expense && t.category = modelCost && t.refId = some cycle

/-- The row a call's cost went into. -/
def Transaction.Counts (t : Transaction) (call : ModelCall) : Prop :=
  call.status = .ok ∧ ∃ c, call.cycleId = some c ∧
    t.idempotencyKey = cycleCostKey c call.projectId

structure LedgerIsMeter (b : Books) (cycle : Id) : Prop where
  sum : ((b.costRows cycle).map fun t => t.sourceAmount.getD 0).sum = b.metered cycle
  once : ∀ call ∈ b.modelCalls, ∀ t ∈ b.transactions, ∀ t' ∈ b.transactions,
    t.Counts call → t'.Counts call → t = t'

theorem Sound.once (hb : Sound b) {call : ModelCall} {t t' : Transaction}
    (ht : t ∈ b.transactions) (ht' : t' ∈ b.transactions) (h : t.Counts call)
    (h' : t'.Counts call) : t = t' := by
  obtain ⟨_, c, hc, hkey⟩ := h
  obtain ⟨_, c', hc', hkey'⟩ := h'
  have hsame : c = c' := Option.some.inj (hc.symm.trans hc')
  rw [← hsame] at hkey'
  exact List.inj_on_of_nodup_map hb.keys ht ht' (hkey.trans hkey'.symm)

theorem Sound.costRow (hb : Sound b) {cycle : Id} {t : Transaction}
    (ht : t ∈ b.costRows cycle) : t ∈ b.transactions ∧
      t.idempotencyKey = .cycleCost cycle t.projectId ∧
      t.sourceAmount = some (b.share cycle t.projectId) := by
  obtain ⟨hmem, hcond⟩ := List.mem_filter.mp ht
  simp only [Bool.and_eq_true, decide_eq_true_eq] at hcond
  obtain ⟨c, p, hkey⟩ := hb.others t hmem hcond.1.2
  obtain ⟨_, _, href, hp, hsource⟩ := hb.shares t hmem c p hkey
  have hc : c = cycle := Option.some.inj (href.symm.trans hcond.2)
  rw [hp, ← hc]
  exact ⟨hmem, hkey, hsource⟩

theorem cost_pos_of_mem {calls : List ModelCall} {c : ModelCall} (hc : c ∈ calls)
    (hpos : 0 < c.costUsd) : 0 < cost calls := by
  induction calls with
  | nil => cases hc
  | cons x calls ih =>
    rw [cost_cons]
    rcases List.mem_cons.mp hc with rfl | hc
    · exact Int.add_pos_of_pos_of_nonneg hpos (cost_nonneg calls)
    · exact Int.add_pos_of_nonneg_of_pos x.cost_nonneg (ih hc)

theorem Metered.ledgerIsMeter (hb : Metered b) {cycle : Id} (hs : b.Settled cycle) :
    LedgerIsMeter b cycle := by
  refine ⟨?_, fun call _ t ht t' ht' => hb.sound.once ht ht'⟩
  let projects := (b.costRows cycle).map Transaction.projectId
  have hsource : (b.costRows cycle).map (fun t => t.sourceAmount.getD 0) =
      projects.map fun p => b.share cycle p := by
    rw [List.map_map]
    refine List.map_congr_left fun t ht => ?_
    rw [(hb.sound.costRow ht).2.2]
    rfl
  have hnodup : projects.Nodup := by
    have hkeys : (projects.map fun p => LedgerKey.cycleCost cycle p) =
        (b.costRows cycle).map Transaction.idempotencyKey := by
      rw [List.map_map]
      refine List.map_congr_left fun t ht => ?_
      exact (hb.sound.costRow ht).2.1.symm
    have hsub : ((b.costRows cycle).map Transaction.idempotencyKey).Sublist
        (b.transactions.map Transaction.idempotencyKey) := List.filter_sublist.map _
    exact List.Nodup.of_map _ (hkeys ▸ hsub.nodup hb.sound.keys)
  have hall : ∀ c ∈ b.settled cycle, 0 < c.costUsd → c.projectId ∈ projects := by
    intro c hc hpos
    have hshare : 0 < b.share cycle c.projectId :=
      cost_pos_of_mem (List.mem_filter.mpr ⟨hc, by simp⟩) hpos
    obtain ⟨t, ht, hkey⟩ := used_iff.mp (hs c.projectId hshare)
    obtain ⟨hkind, hcat, href, hp, _⟩ := hb.sound.shares t ht _ _ hkey
    refine List.mem_map.mpr ⟨t, List.mem_filter.mpr ⟨ht, ?_⟩, hp⟩
    simp [hkind, hcat, href]
  rw [hsource]
  exact sum_shares hnodup hall

theorem ledger_is_meter (b : Books) (h : operating.Reach punctual b) (c : Cycle)
    (hc : c ∈ b.cycles) (hdone : c.stage = .done) : LedgerIsMeter b c.id := by
  have hb := reach_metered h
  exact hb.ledgerIsMeter (hb.late c hc (by rw [hdone]; rfl))

/-! One cycle of a company with one project. -/

def opened : Books where
  fx := ⟨"TWD", [("USD", 32)]⟩
  now := 0
  nextId := 10
  customers := []
  products := []
  prices := []
  memberships := []
  payments := []
  orders := []
  transactions := []
  modelCalls := []
  cycles := []
  events := []

/-- A call of so many dollars for the project under the cycle. -/
def called (dollars : Nat) : Act :=
  .recordCall ⟨1, some 7, some 10, .ok, (dollars * 1000000 : Nat), Int.natCast_nonneg _⟩

/-- The cycle moves on while it is not in the stage. -/
def until_ (stage : CycleStage) : Act := .tick 1 (fun s => s ≠ stage) []

def Books.does (b : Books) (act : Act) : Books := b.commit act.exec

/-- Ten dollars while planning, and the cycle runs to its end. -/
def closed : Books := ((opened.does (.startCycle 1)).does (called 10)).does (until_ .done)

/-- Ten dollars while planning, and five more for the review. -/
def reviewed : Books :=
  ((((opened.does (.startCycle 1)).does (called 10)).does (until_ .reviewing)).does
    (called 5)).does (until_ .done)

theorem ledger_is_meter_closed :
    LedgerIsMeter closed 10 ∧ closed.metered 10 = 10000000 := by
  have hpath : operating.Path punctual opened closed := by
    have hcall : punctual (opened.does (.startCycle 1)) (called 10) := by
      have hnone : (opened.does (.startCycle 1)).transactions = [] := by decide +kernel
      refine ⟨by decide +kernel, fun c hc _ _ => ⟨?_, fun row hrow _ => ?_⟩⟩
      · rw [Books.used, hnone]
        rfl
      have hearly : ∀ row ∈ (opened.does (.startCycle 1)).cycles, early row.stage = true := by
        decide +kernel
      exact hearly row hrow
    have hbase : meterCurrency ≠ ((opened.does (.startCycle 1)).does (called 10)).fx.base := by
      decide +kernel
    exact .head ⟨.startCycle 1, (by decide : meterCurrency ≠ "TWD"), trivial, rfl⟩
      (.head ⟨called 10, hcall, trivial, rfl⟩ (.head ⟨until_ .done, hbase, trivial, rfl⟩ .refl))
  have hdone : (⟨10, 1, 1, .done, some 0⟩ : Cycle) ∈ closed.cycles := by decide +kernel
  exact ⟨ledger_is_meter closed ⟨opened, ⟨rfl, rfl, rfl⟩, hpath⟩ ⟨10, 1, 1, .done, some 0⟩ hdone rfl,
    by decide +kernel⟩

/-- The review's call comes after its project was settled: the ledger has ten dollars of
the fifteen. -/
theorem ledger_misses_review : operating.Reach anyStep reviewed ∧
    ∃ c ∈ reviewed.cycles, c.stage = .done ∧ ¬ LedgerIsMeter reviewed c.id := by
  have hpath : operating.Path anyStep opened reviewed :=
    .head ⟨.startCycle 1, trivial, trivial, rfl⟩ (.head ⟨called 10, trivial, trivial, rfl⟩
      (.head ⟨until_ .reviewing, trivial, trivial, rfl⟩ (.head ⟨called 5, trivial, trivial, rfl⟩
        (.head ⟨until_ .done, trivial, trivial, rfl⟩ .refl))))
  refine ⟨⟨opened, ⟨rfl, rfl, rfl⟩, hpath⟩, ⟨10, 1, 1, .done, some 0⟩, by decide +kernel, rfl,
    fun hmeter => ?_⟩
  have hsum := hmeter.sum
  have hledger : ((reviewed.costRows 10).map fun t => t.sourceAmount.getD 0).sum = 10000000 := by
    decide +kernel
  have hmetered : reviewed.metered 10 = 15000000 := by decide +kernel
  rw [hledger, hmetered] at hsum
  cases hsum

end Autora.Company
