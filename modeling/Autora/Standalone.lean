import Autora.ApprovalRuns

/-! What waits on an approval of its own: commands that a person must allow, and transcribed
reports that a person must check. -/

namespace Autora.Approvals

open Systems

inductive CommandOutcome where
  | done | refused | awaitingApproval
  deriving DecidableEq, Repr

inductive OfficialReportStatus where
  | pending | approved | rejected
  deriving DecidableEq, Repr

/-- A row that may wait on an approval. Its id is its place in the table; `key` is the column
no two rows share: the `idempotency_key` of a command, the `url` of a report. -/
structure Entry (σ : Type) where
  key : String
  state : σ
  approvalId : Option Nat

abbrev CommandRecord := Entry CommandOutcome

abbrev OfficialReport := Entry OfficialReportStatus

structure Office where
  desk : Desk
  commands : List CommandRecord
  reports : List OfficialReport

/-- The company's approvals: the actions with a delegate are the articles'. -/
structure OfficeService extends ApprovalService where
  articles : ∀ action ∈ delegates, action = "approve_article"

def commandRef : String := "command"
def commandAction : String := "command"
def reportRef : String := "official_report"
def reportAction : String := "approve_official_report"

/-- How a command's handler or a hook ends; a `CommandError` is a refusal. -/
inductive Ending where
  | returned | refused | raised
  deriving DecidableEq, Repr

/-- What the bus makes of a new command: its payload or the policy refuses it, a person must
decide, or it runs. -/
inductive Verdict where
  | refused
  | needsApproval
  | runs (ending : Ending)
  deriving DecidableEq, Repr

inductive OfficeAct where
  /-- A step of tasks and their approvals, or an expiry pass. -/
  | work (act : Act)
  | submit (key : String) (verdict : Verdict)
  /-- `refresh_official_trades` stores one report. -/
  | readReport (url : String)
  | decide (i : Nat) (outcome : DecisionOutcome) (actor : Actor) (reason : Option String)
      (ending : Ending) (fallen : List Nat)
  | decideDelegated (i : Nat) (outcome : DecisionOutcome) (actor : Actor) (reason : String)
      (t : Nat) (ending : Ending)

-- the standalone requests and the decisions are the office's own
def Act.isWork : Act → Bool
  | .request .. | .decide .. | .decideDelegated .. => false
  | _ => true

namespace Office

variable (cfg : OfficeService) (o : Office)

def setCommand (i : Nat) (outcome : CommandOutcome) : Office :=
  { o with commands := o.commands.modify i fun r => { r with state := outcome } }

/-- `_on_decided` of the bus. -/
def onCommandDecided (a : Approval) (outcome : DecisionOutcome) (ending : Ending) :
    Option Office :=
  match o.commands.findIdx? fun r => r.approvalId == some a.id with
  | none => some o
  | some i =>
    if outcome ≠ .approve then some (o.setCommand i .refused)
    else match ending with
      | .returned => some (o.setCommand i .done)
      | .refused => some (o.setCommand i .refused)
      -- also a command that is no longer registered
      | .raised => none

/-- `on_report_decided`; an id of another table is no report's. -/
def onReportDecided (a : Approval) (outcome : DecisionOutcome) : Office :=
  if a.refType = reportRef then
    { o with
      reports := o.reports.modify a.refId fun r =>
        { r with state := if outcome = .approve then .approved else .rejected } }
  else o

/-- The hook registered for the approval's action. -/
def hook (a : Approval) (outcome : DecisionOutcome) (ending : Ending) : Option Office :=
  if a.action = some commandAction then o.onCommandDecided a outcome ending
  else if a.action = some reportAction then some (o.onReportDecided a outcome)
  else if ending = .raised then none
  else some o

/-- A decision, with its hook in the same transaction. -/
def settle (i : Nat) (outcome : DecisionOutcome) (ending : Ending) (decided : Option Desk) :
    Option Office :=
  (o.desk.get i).bind fun a => (o.hook a outcome ending).bind fun o =>
    decided.map fun desk => { o with desk }

/-- `approvals.request` for the row that is about to be added. -/
def request (refType action : String) (refId : Nat) : Option Desk :=
  o.desk.create cfg.toApprovalService ⟨refType, refId, none, none, some action, none⟩ false
    o.desk.approvals.length

/-- `submit`; a key already used returns what it did the first time. -/
def submit (key : String) (verdict : Verdict) : Option Office :=
  if o.commands.any (·.key == key) = true then some o
  else match verdict with
    | .refused => some { o with commands := o.commands ++ [⟨key, .refused, none⟩] }
    | .runs .returned => some { o with commands := o.commands ++ [⟨key, .done, none⟩] }
    | .runs .refused => some { o with commands := o.commands ++ [⟨key, .refused, none⟩] }
    | .runs .raised => none
    | .needsApproval =>
      (o.request cfg commandRef commandAction o.commands.length).map fun desk =>
        { o with
          desk
          commands := o.commands ++
            [⟨key, .awaitingApproval, some o.desk.approvals.length⟩] }

def readReport (url : String) : Option Office :=
  if o.reports.any (·.key == url) = true then some o
  else (o.request cfg reportRef reportAction o.reports.length).map fun desk =>
    { o with
      desk
      reports := o.reports ++ [⟨url, .pending, some o.desk.approvals.length⟩] }

def step : OfficeAct → Option Office
  | .work act =>
    if act.isWork = true then
      (o.desk.step cfg.toApprovalService act).map fun desk => { o with desk }
    else none
  | .submit key verdict => o.submit cfg key verdict
  | .readReport url => o.readReport cfg url
  | .decide i outcome actor reason ending fallen =>
    o.settle i outcome ending (o.desk.decide i outcome actor reason false fallen)
  | .decideDelegated i outcome actor reason t ending =>
    o.settle i outcome ending
      (o.desk.step cfg.toApprovalService (.decideDelegated i outcome actor reason t false))

/-- Someone can decide what the row waits for. -/
def Asked (refType : String) (i : Nat) (s : Desk) : Prop :=
  ∃ a ∈ s.approvals, a.state = .pending ∧ a.refType = refType ∧ a.refId = i

/-- Every command that awaits its approval, and every report that is pending, has one. -/
structure Answerable (o : Office) : Prop where
  commands : ∀ i r, o.commands[i]? = some r → r.state = .awaitingApproval →
    Asked commandRef i o.desk
  reports : ∀ i r, o.reports[i]? = some r → r.state = .pending → Asked reportRef i o.desk

end Office

/-- An approval of a command or of a report. -/
def Approval.standalone (a : Approval) : Bool := a.refType == commandRef || a.refType == reportRef

/-- No expiry pass finds such an approval overdue, unless it skips its row. -/
def spared (o : Office) : OfficeAct → Prop
  | .work (.expireDue pass) => ∀ a ∈ o.desk.approvals, a.standalone = true → a.state = .pending →
      a.id ∉ pass.lockedApprovals → o.desk.now < a.expiresAt
  | _ => True

/-- No approval, task, command or report, at any time. -/
def office (cfg : OfficeService) : System Office OfficeAct where
  init := fun o => o.desk.approvals = [] ∧ o.desk.tasks = [] ∧ o.commands = [] ∧ o.reports = []
  step := fun o act u => o.step cfg act = some u

/-! ## The standalone rows of the desk -/

namespace Desk

def standalone (s : Desk) : List Approval := s.approvals.filter Approval.standalone

end Desk

variable {cfg : OfficeService} {s u v : Desk} {a b : Approval} {pass : Pass} {act : Act}

theorem mem_standalone : a ∈ s.standalone ↔ a ∈ s.approvals ∧ a.standalone = true :=
  List.mem_filter

theorem standalone_of_eq (h : u.approvals = s.approvals) : u.standalone = s.standalone := by
  rw [Desk.standalone, h]
  rfl

theorem standalone_filed {n : Approval} (h : u.approvals = s.approvals ++ [n])
    (hn : n.standalone = false) : u.standalone = s.standalone := by
  rw [Desk.standalone, h, List.filter_append, List.filter_singleton, hn]
  exact List.append_nil _

theorem standalone_amend {i : Nat} {f : Approval → Approval}
    (hf : ∀ a, (f a).refType = a.refType) :
    (s.amend i f).standalone = s.standalone.map fun a => if a.id = i then f a else a := by
  unfold Desk.standalone Desk.amend
  dsimp only
  rw [List.filter_map]
  congr 1
  refine List.filter_congr fun a _ => ?_
  dsimp only [Function.comp, Approval.standalone]
  by_cases h : a.id = i
  · rw [if_pos h, hf]
  · rw [if_neg h]

-- a row of another kind is amended
theorem standalone_amend_other {i : Nat} {f : Approval → Approval}
    (hf : ∀ a, (f a).refType = a.refType) (hi : ∀ a ∈ s.standalone, a.id ≠ i) :
    (s.amend i f).standalone = s.standalone := by
  rw [standalone_amend hf]
  refine (List.map_congr_left fun a ha => if_neg (hi a ha)).trans ?_
  exact List.map_id _

theorem create_other {r : Request} {before : Bool} {chain : Nat}
    (hc : s.create cfg.toApprovalService r before chain = some u)
    (hr : (r.refType == commandRef || r.refType == reportRef) = false) :
    u.standalone = s.standalone := by
  obtain ⟨-, rfl⟩ := create_some hc
  exact standalone_filed rfl hr

/-- A standalone approval has no task and no delegate. -/
def Alone (s : Desk) : Prop :=
  ∀ a ∈ s.standalone, a.taskId = none ∧ a.delegated = none ∧
    (a.action = some commandAction ∨ a.action = some reportAction)

theorem Alone.not_delegable (h : Alone s) (ha : a ∈ s.standalone) :
    (a.action.any fun action => cfg.delegates.contains action) = false := by
  obtain ⟨-, -, haction⟩ := h a ha
  rw [Bool.eq_false_iff]
  intro hany
  obtain ⟨action, hsome, hmem⟩ := (Option.any_eq_true _ _).mp hany
  have harticle := cfg.articles action (List.contains_iff_mem.mp hmem)
  rw [hsome, harticle] at haction
  rcases haction with h | h
  · exact absurd (Option.some.inj h) (by decide)
  · exact absurd (Option.some.inj h) (by decide)

theorem handOver_standalone {due : List Nat} (h : Sound s) (hdue : Awaiting s due)
    (halone : Alone s) :
    (s.handOver cfg.toApprovalService pass due).1.standalone = s.standalone ∧
      ∀ a ∈ s.standalone,
        a.id ∈ (s.handOver cfg.toApprovalService pass due).2 ↔ a.id ∈ due := by
  induction due generalizing s with
  | nil => exact ⟨rfl, fun a _ => .rfl⟩
  | cons i due ih =>
    have hrest : Awaiting s due := fun a ha hi => hdue a ha (List.mem_cons_of_mem _ hi)
    unfold Desk.handOver
    cases hd : (s.get i).bind (s.delegate cfg.toApprovalService pass) with
    | none =>
      obtain ⟨hsame, hmem⟩ := ih h hrest halone
      refine ⟨hsame, fun a ha => ?_⟩
      dsimp only
      rw [List.mem_cons, List.mem_cons, hmem a ha]
    | some u =>
      obtain ⟨a, hget, hdel⟩ := Option.bind_eq_some_iff.mp hd
      obtain ⟨ha, rfl⟩ := get_some hget
      have hother : ∀ b ∈ s.standalone, b.id ≠ a.id := by
        intro b hb hid
        obtain rfl := h.unique (mem_standalone.mp hb).1 ha hid
        unfold Desk.delegate at hdel
        rw [if_neg fun hcond => by cases hcond.1.symm.trans (halone.not_delegable hb)] at hdel
        cases hdel
      obtain ⟨hnone, hbefore, rfl⟩ := delegate_some hdel
      obtain ⟨hp, hlate⟩ := hdue a ha List.mem_cons_self
      have hsame : (s.handed a.id).standalone = s.standalone :=
        (standalone_of_eq rfl).trans
          (standalone_amend_other (keeps_handed ..).refType hother)
      have halone' : Alone (s.handed a.id) := by
        unfold Alone
        rw [hsame]
        exact halone
      obtain ⟨hfinal, hmem⟩ := ih (h.handed ha hp hnone hbefore hlate) (awaiting_handed hdue) halone'
      refine ⟨hfinal.trans hsame, fun b hb => ?_⟩
      dsimp only
      rw [hmem b (hsame ▸ hb), List.mem_cons]
      exact ⟨.inr, fun h' => h'.resolve_left (hother b hb)⟩

theorem expire_standalone {rest : List Nat} (he : s.expire pass rest = some u) :
    u.standalone = s.standalone.map fun a =>
      if a.id ∈ rest then { a with state := .expired } else a := by
  induction rest generalizing s with
  | nil =>
    obtain rfl := Option.some.inj he
    exact (List.map_id _).symm.trans (List.map_congr_left fun a _ => (if_neg List.not_mem_nil).symm)
  | cons i rest ih =>
    unfold Desk.expire at he
    cases hget : s.get i with
    | none =>
      rw [hget] at he
      cases he
    | some a =>
      rw [hget] at he
      dsimp only at he
      by_cases hp : a.state = .pending
      · rw [if_neg (not_not_intro hp)] at he
        have hease := releaseDelegate_eases s a none (pass.fallen i)
        rw [ih he, standalone_amend keeps_expired.refType, standalone_of_eq hease.approvals, List.map_map]
        refine List.map_congr_left fun b _ => ?_
        dsimp only [Function.comp]
        by_cases hid : b.id = i
        · simp [hid]
        · simp [hid]
      · rw [if_pos hp] at he
        cases he

theorem renewWaiting_standalone {rest : List Nat} (h : Sound s) (halone : Alone s)
    (hr : s.renewWaiting cfg.toApprovalService pass rest = some u) :
    u.standalone = s.standalone := by
  induction rest generalizing s with
  | nil => rw [← Option.some.inj hr]
  | cons t rest ih =>
    obtain ⟨v, hrest, ⟨rfl, -⟩ | ⟨a, hwait, hlatest, hexp, hc⟩⟩ := renewWaiting_cons hr
    · exact ih h halone hrest
    · obtain ⟨ha, htask⟩ := latest_mem hlatest
      have hnot : a.standalone = false := by
        rw [Bool.eq_false_iff]
        intro hown
        have hnone := (halone a (mem_standalone.mpr ⟨ha, hown⟩)).1
        cases hnone.symm.trans htask
      have hsame := create_other hc hnot
      have halone' : Alone v := by
        unfold Alone
        rw [hsame]
        exact halone
      exact (ih (h.renewed hwait hlatest hexp hc) halone' hrest).trans hsame

/-- Whether a pass finds the approval overdue. -/
def Overdue (s : Desk) (pass : Pass) (a : Approval) : Prop :=
  a.state = .pending ∧ a.expiresAt ≤ s.now ∧ a.id ∉ pass.lockedApprovals

instance (s : Desk) (pass : Pass) (a : Approval) : Decidable (Overdue s pass a) :=
  inferInstanceAs (Decidable (_ ∧ _ ∧ _))

theorem mem_due (h : Sound s) (ha : a ∈ s.approvals) : a.id ∈ s.due pass ↔ Overdue s pass a := by
  unfold Desk.due Overdue
  rw [List.mem_map]
  constructor
  · rintro ⟨b, hb, hid⟩
    obtain ⟨hmem, hcond⟩ := List.mem_filter.mp hb
    obtain rfl := h.unique hmem ha hid
    simpa [Approval.isPending, and_assoc] using hcond
  · rintro ⟨hp, hlate, hfree⟩
    exact ⟨a, List.mem_filter.mpr ⟨ha, by simp [Approval.isPending, hp, hlate, hfree]⟩, rfl⟩

/-- A pass expires the standalone approvals that are overdue, and asks for none again. -/
theorem expireDue_standalone (h : Sound s) (halone : Alone s)
    (hx : s.expireDue cfg.toApprovalService pass = some u) :
    u.standalone = s.standalone.map fun a =>
      if Overdue s pass a then { a with state := .expired } else a := by
  obtain ⟨v, he, hr⟩ := expireDue_some hx
  have hdue : Awaiting s (s.due pass) := due_awaiting h
  obtain ⟨hsound, -⟩ : Sound (s.handOver cfg.toApprovalService pass (s.due pass)).1 ∧ _ :=
    handOver_sound h hdue
  obtain ⟨hsame, hmem⟩ : (s.handOver cfg.toApprovalService pass (s.due pass)).1.standalone =
      s.standalone ∧ _ := handOver_standalone h hdue halone
  have hfailed : ∀ a ∈ s.standalone, a.id ∉
      (s.handOver cfg.toApprovalService pass (s.due pass)).1.failedDelegations pass (s.due pass) := by
    intro a ha hin
    obtain ⟨b, hb, hid⟩ := List.mem_map.mp hin
    obtain ⟨hbmem, hcond⟩ := List.mem_filter.mp hb
    have ha' := mem_standalone.mp (hsame ▸ ha)
    obtain rfl := hsound.unique hbmem ha'.1 hid
    rw [(halone b ha).2.1] at hcond
    simp at hcond
  have hexpired := expire_standalone he
  rw [hsame] at hexpired
  have halone' : Alone v := by
    intro b hb
    rw [hexpired] at hb
    obtain ⟨a, ha, rfl⟩ := List.mem_map.mp hb
    split
    · exact halone a ha
    · exact halone a ha
  rw [renewWaiting_standalone (expire_sound hsound he).1 halone' hr, hexpired]
  refine List.map_congr_left fun a ha => ?_
  have hiff : a.id ∈ (s.handOver cfg.toApprovalService pass (s.due pass)).2 ++
      (s.handOver cfg.toApprovalService pass (s.due pass)).1.failedDelegations pass (s.due pass) ↔
      Overdue s pass a := by
    rw [List.mem_append, or_iff_left (hfailed a ha), hmem a ha, mem_due h (mem_standalone.mp ha).1]
  by_cases hover : Overdue s pass a
  · rw [if_pos hover, if_pos (hiff.mpr hover)]
  · rw [if_neg hover, if_neg fun hin => hover (hiff.mp hin)]

/-- The other steps of tasks and their approvals leave the standalone ones alone. -/
theorem work_standalone (hwork : act.isWork = true) (hnot : ∀ pass, act ≠ .expireDue pass)
    (hs : s.step cfg.toApprovalService act = some u) : u.standalone = s.standalone := by
  cases act with
  | tick d =>
    cases hs
    rfl
  | addTask =>
    cases hs
    rfl
  | moveTask t state =>
    simp only [Desk.step] at hs
    cases hstate : s.stateOf t with
    | none =>
      rw [hstate] at hs
      cases hs
    | some current =>
      rw [hstate] at hs
      obtain ⟨-, hu⟩ := Option.ite_none_right_eq_some.mp hs
      cases hu
      rfl
  | claim t agent =>
    obtain ⟨-, hu⟩ := Option.ite_none_right_eq_some.mp hs
    cases hu
    rfl
  | cancel t =>
    cases hs
    rfl
  | requestForRun t run action expiresAfter =>
    obtain ⟨-, hu⟩ := Option.ite_none_right_eq_some.mp hs
    obtain ⟨v, hc, rfl⟩ := Option.map_eq_some_iff.mp hu
    have hsame : v.standalone = s.standalone := create_other hc rfl
    exact hsame
  | requestForTask t action expiresAfter =>
    obtain ⟨-, hu⟩ := Option.ite_none_right_eq_some.mp hs
    obtain ⟨v, hc, rfl⟩ := Option.map_eq_some_iff.mp hu
    have hsame : v.standalone = s.standalone := create_other hc rfl
    exact hsame
  | expireDue pass => exact absurd rfl (hnot pass)
  | _ => cases hwork

/-- A decision settles its row only. -/
theorem settle_standalone {i : Nat} {outcome : DecisionOutcome} {actor : Actor}
    {reason : Option String} {raises : Bool} {fallen : List Nat}
    (hs : s.settle i outcome actor reason raises fallen = some u) :
    (∃ a, s.get i = some a ∧ a.state = .pending) ∧
      u.standalone = s.standalone.map fun a => if a.id = i then
        { a with state := outcome.target, decidedBy := some actor, reason } else a := by
  obtain ⟨a, hget, hp, hu⟩ := settle_some hs
  refine ⟨⟨a, hget, hp⟩, ?_⟩
  have hease := releaseDelegate_eases s a (some actor) fallen
  rw [← standalone_of_eq hease.approvals, ← standalone_amend (keeps_settled ..).refType]
  rcases hu with ⟨rfl, -⟩ | ⟨t, -, -, rfl⟩
  · rfl
  · rfl

/-! ## The rows that wait -/

theorem getElem?_snoc {α : Type} {xs : List α} {x y : α} {i : Nat}
    (h : (xs ++ [x])[i]? = some y) : xs[i]? = some y ∨ i = xs.length ∧ x = y := by
  by_cases hi : i < xs.length
  · rw [List.getElem?_append_left hi] at h
    exact .inl h
  · have hlt := (List.getElem?_eq_some_iff.mp h).1
    rw [List.length_append, List.length_singleton] at hlt
    obtain rfl : i = xs.length := by omega
    rw [List.getElem?_concat_length] at h
    exact .inr ⟨rfl, Option.some.inj h⟩

/-- The states a waiting row's approval may be in, where passes may expire one or not. -/
def mayBe (lapses : Bool) (state : ApprovalState) : Prop :=
  state = .pending ∨ lapses = true ∧ state = .expired

/-- The rows of a table and their approvals. -/
structure Backed {σ : Type} (lapses : Bool) (refType : String) (waiting : σ)
    (rows : List (Entry σ)) (s : Desk) : Prop where
  -- a row's approval refers to it
  linked : ∀ (i : Nat) (r : Entry σ) (k : Nat), rows[i]? = some r → r.approvalId = some k →
    ∃ a ∈ s.standalone, a.id = k ∧ a.refType = refType ∧ a.refId = i
  waits : ∀ (i : Nat) (r : Entry σ), rows[i]? = some r → r.state = waiting →
    ∃ a ∈ s.standalone, r.approvalId = some a.id ∧ a.refType = refType ∧ a.refId = i ∧
      mayBe lapses a.state
  -- a pending approval's row waits
  awaited : ∀ a ∈ s.standalone, a.refType = refType → a.state = .pending →
    ∃ r : Entry σ, rows[a.refId]? = some r ∧ r.state = waiting
  refs : ∀ a ∈ s.standalone, a.refType = refType → a.refId < rows.length

structure Filed (lapses : Bool) (o : Office) : Prop where
  sound : Sound o.desk
  alone : Alone o.desk
  actions : ∀ a ∈ o.desk.standalone, a.refType = commandRef ∧ a.action = some commandAction ∨
    a.refType = reportRef ∧ a.action = some reportAction
  single : ∀ a ∈ o.desk.standalone, ∀ b ∈ o.desk.standalone, a.refType = b.refType →
    a.refId = b.refId → a = b
  commands : Backed lapses commandRef .awaitingApproval o.commands o.desk
  reports : Backed lapses reportRef .pending o.reports o.desk

variable {σ : Type} {lapses : Bool} {refType : String} {waiting : σ} {rows : List (Entry σ)}
  {o : Office} {i : Nat}

/-- The approvals are rewritten; those of this table's rows that wait may still be decided. -/
theorem Backed.map {f : Approval → Approval} (h : Backed lapses refType waiting rows s)
    (hs : u.standalone = s.standalone.map f) (hf : Keeps f)
    (hstate : ∀ a ∈ s.standalone, a.refType = refType → mayBe lapses a.state →
      mayBe lapses (f a).state)
    (hpending : ∀ a ∈ s.standalone, (f a).state = .pending → a.state = .pending) :
    Backed lapses refType waiting rows u where
  linked i r k hr hk := by
    obtain ⟨a, ha, hid, htype, href⟩ := h.linked i r k hr hk
    exact ⟨f a, hs ▸ List.mem_map_of_mem ha, (hf.id a).trans hid, (hf.refType a).trans htype,
      (hf.refId a).trans href⟩
  waits i r hr hwait := by
    obtain ⟨a, ha, hk, htype, href, hmay⟩ := h.waits i r hr hwait
    exact ⟨f a, hs ▸ List.mem_map_of_mem ha, by rw [hf.id]; exact hk, (hf.refType a).trans htype,
      (hf.refId a).trans href, hstate a ha htype hmay⟩
  awaited b hb htype hp := by
    rw [hs] at hb
    obtain ⟨a, ha, rfl⟩ := List.mem_map.mp hb
    rw [hf.refType] at htype
    rw [hf.refId]
    exact h.awaited a ha htype (hpending a ha hp)
  refs b hb htype := by
    rw [hs] at hb
    obtain ⟨a, ha, rfl⟩ := List.mem_map.mp hb
    rw [hf.refType] at htype
    rw [hf.refId]
    exact h.refs a ha htype

/-- A row and its approval are settled together. -/
theorem Backed.settled {f : Approval → Approval} (h : Backed lapses refType waiting rows s)
    (hs : u.standalone = s.standalone.map f) (hf : Keeps f) (ha : a ∈ s.standalone)
    (htype : a.refType = refType) (hdone : (f a).state ≠ .pending)
    (hother : ∀ b ∈ s.standalone, b.id ≠ a.id → f b = b) (hsound : Sound s)
    (hsingle : ∀ b ∈ s.standalone, a.refType = b.refType → a.refId = b.refId → a = b)
    {state : σ} (hstate : state ≠ waiting) :
    Backed lapses refType waiting (rows.modify a.refId fun r => { r with state }) u where
  linked i r k hr hk := by
    rw [List.getElem?_modify] at hr
    obtain ⟨r', hr', rfl⟩ := Option.map_eq_some_iff.mp hr
    have hk' : r'.approvalId = some k := by
      split at hk
      · exact hk
      · exact hk
    obtain ⟨b, hb, hid, htype', href⟩ := h.linked i r' k hr' hk'
    exact ⟨f b, hs ▸ List.mem_map_of_mem hb, (hf.id b).trans hid, (hf.refType b).trans htype',
      (hf.refId b).trans href⟩
  waits i r hr hwait := by
    rw [List.getElem?_modify] at hr
    obtain ⟨r', hr', rfl⟩ := Option.map_eq_some_iff.mp hr
    by_cases hi : a.refId = i
    · rw [if_pos hi] at hwait
      exact absurd hwait hstate
    · rw [if_neg hi] at hwait ⊢
      obtain ⟨b, hb, hk, htype', href, hmay⟩ := h.waits i r' hr' hwait
      have hne : b.id ≠ a.id := by
        intro hid
        obtain rfl := hsound.unique (mem_standalone.mp hb).1 (mem_standalone.mp ha).1 hid
        exact hi href
      exact ⟨f b, hs ▸ List.mem_map_of_mem hb, by rw [hf.id]; exact hk, (hf.refType b).trans htype',
        (hf.refId b).trans href, by rw [hother b hb hne]; exact hmay⟩
  awaited c hc htype' hp := by
    rw [hs] at hc
    obtain ⟨b, hb, rfl⟩ := List.mem_map.mp hc
    have hne : b.id ≠ a.id := by
      intro hid
      obtain rfl := hsound.unique (mem_standalone.mp hb).1 (mem_standalone.mp ha).1 hid
      exact hdone hp
    rw [hother b hb hne] at htype' hp ⊢
    obtain ⟨r, hr, hwait⟩ := h.awaited b hb htype' hp
    have hi : a.refId ≠ b.refId := by
      intro href
      obtain rfl := hsingle b hb (htype.trans htype'.symm) href
      exact hne rfl
    refine ⟨r, ?_, hwait⟩
    rw [List.getElem?_modify, hr]
    simp [hi]
  refs c hc htype' := by
    rw [hs] at hc
    obtain ⟨b, hb, rfl⟩ := List.mem_map.mp hc
    rw [hf.refType] at htype'
    rw [hf.refId, List.length_modify]
    exact h.refs b hb htype'

/-- A row that does not wait is added. -/
theorem Backed.added (h : Backed lapses refType waiting rows s) {r : Entry σ}
    (hwait : r.state ≠ waiting) (hnone : r.approvalId = none) :
    Backed lapses refType waiting (rows ++ [r]) s where
  linked i r' k hr hk := by
    rcases getElem?_snoc hr with hold | ⟨-, rfl⟩
    · exact h.linked i r' k hold hk
    · cases hnone.symm.trans hk
  waits i r' hr hwait' := by
    rcases getElem?_snoc hr with hold | ⟨-, rfl⟩
    · exact h.waits i r' hold hwait'
    · exact absurd hwait' hwait
  awaited b hb htype hp := by
    obtain ⟨r', hr', hwait'⟩ := h.awaited b hb htype hp
    exact ⟨r', by rw [List.getElem?_append_left (h.refs b hb htype)]; exact hr', hwait'⟩
  refs b hb htype := by
    have hlt := h.refs b hb htype
    rw [List.length_append, List.length_singleton]
    omega

/-- A row is added that waits on a new approval. -/
theorem Backed.asked (h : Backed lapses refType waiting rows s) {r : Entry σ} {n : Approval}
    (hs : u.standalone = s.standalone ++ [n]) (htype : n.refType = refType)
    (href : n.refId = rows.length) (hp : n.state = .pending) (hwait : r.state = waiting)
    (hk : r.approvalId = some n.id) : Backed lapses refType waiting (rows ++ [r]) u where
  linked i r' k hr hk' := by
    rcases getElem?_snoc hr with hold | ⟨rfl, rfl⟩
    · obtain ⟨a, ha, hrest⟩ := h.linked i r' k hold hk'
      exact ⟨a, hs ▸ List.mem_append_left _ ha, hrest⟩
    · have hid : n.id = k := Option.some.inj (hk.symm.trans hk')
      exact ⟨n, hs ▸ List.mem_append_right _ (List.mem_singleton.mpr rfl), hid, htype, href⟩
  waits i r' hr hwait' := by
    rcases getElem?_snoc hr with hold | ⟨rfl, rfl⟩
    · obtain ⟨a, ha, hrest⟩ := h.waits i r' hold hwait'
      exact ⟨a, hs ▸ List.mem_append_left _ ha, hrest⟩
    · exact ⟨n, hs ▸ List.mem_append_right _ (List.mem_singleton.mpr rfl), hk, htype, href,
        .inl hp⟩
  awaited b hb htype' hp' := by
    rw [hs] at hb
    rcases List.mem_append.mp hb with hb | hb
    · obtain ⟨r', hr', hwait'⟩ := h.awaited b hb htype' hp'
      exact ⟨r', by rw [List.getElem?_append_left (h.refs b hb htype')]; exact hr', hwait'⟩
    · obtain rfl := List.mem_singleton.mp hb
      refine ⟨r, ?_, hwait⟩
      rw [href]
      exact List.getElem?_concat_length
  refs b hb htype' := by
    rw [List.length_append, List.length_singleton]
    rw [hs] at hb
    rcases List.mem_append.mp hb with hb | hb
    · have hlt := h.refs b hb htype'
      omega
    · obtain rfl := List.mem_singleton.mp hb
      omega

/-- An approval of another table's row is added. -/
theorem Backed.beside (h : Backed lapses refType waiting rows s) {n : Approval}
    (hs : u.standalone = s.standalone ++ [n]) (htype : n.refType ≠ refType) :
    Backed lapses refType waiting rows u where
  linked i r k hr hk := by
    obtain ⟨a, ha, hrest⟩ := h.linked i r k hr hk
    exact ⟨a, hs ▸ List.mem_append_left _ ha, hrest⟩
  waits i r hr hwait := by
    obtain ⟨a, ha, hrest⟩ := h.waits i r hr hwait
    exact ⟨a, hs ▸ List.mem_append_left _ ha, hrest⟩
  awaited b hb htype' hp := by
    rw [hs] at hb
    rcases List.mem_append.mp hb with hb | hb
    · exact h.awaited b hb htype' hp
    · obtain rfl := List.mem_singleton.mp hb
      exact absurd htype' htype
  refs b hb htype' := by
    rw [hs] at hb
    rcases List.mem_append.mp hb with hb | hb
    · exact h.refs b hb htype'
    · obtain rfl := List.mem_singleton.mp hb
      exact absurd htype' htype

/-! ## The office, step by step -/

theorem Filed.work (h : Filed lapses o) (hsound : Sound u) (hs : u.standalone = o.desk.standalone) :
    Filed lapses { o with desk := u } where
  sound := hsound
  alone := by
    unfold Alone
    rw [hs]
    exact h.alone
  actions := by
    rw [hs]
    exact h.actions
  single := by
    rw [hs]
    exact h.single
  commands := h.commands.map (f := id) (hs.trans (List.map_id _).symm)
    ⟨fun _ => rfl, fun _ => rfl, fun _ => rfl, fun _ => rfl, fun _ => rfl, fun _ => rfl, fun _ => rfl⟩
    (fun _ _ _ hmay => hmay) fun _ _ hp => hp
  reports := h.reports.map (f := id) (hs.trans (List.map_id _).symm)
    ⟨fun _ => rfl, fun _ => rfl, fun _ => rfl, fun _ => rfl, fun _ => rfl, fun _ => rfl, fun _ => rfl⟩
    (fun _ _ _ hmay => hmay) fun _ _ hp => hp

/-- What all approvals keep when they are rewritten. -/
structure Kept (f : Approval → Approval) : Prop extends Keeps f where
  action : ∀ a, (f a).action = a.action
  delegated : ∀ a, (f a).delegated = a.delegated

theorem Filed.rewritten {f : Approval → Approval} (h : Filed lapses o) (hsound : Sound u)
    (hs : u.standalone = o.desk.standalone.map f) (hf : Kept f) {commands : List CommandRecord}
    {reports : List OfficialReport}
    (hcommands : Backed lapses commandRef .awaitingApproval commands u)
    (hreports : Backed lapses reportRef .pending reports u) :
    Filed lapses ⟨u, commands, reports⟩ where
  sound := hsound
  alone b hb := by
    rw [hs] at hb
    obtain ⟨a, ha, rfl⟩ := List.mem_map.mp hb
    rw [hf.taskId, hf.delegated, hf.action]
    exact h.alone a ha
  actions b hb := by
    rw [hs] at hb
    obtain ⟨a, ha, rfl⟩ := List.mem_map.mp hb
    rw [hf.refType, hf.action]
    exact h.actions a ha
  single b hb c hc htype href := by
    rw [hs] at hb hc
    obtain ⟨a, ha, rfl⟩ := List.mem_map.mp hb
    obtain ⟨a', ha', rfl⟩ := List.mem_map.mp hc
    rw [hf.refType, hf.refType] at htype
    rw [hf.refId, hf.refId] at href
    rw [h.single a ha a' ha' htype href]
  commands := hcommands
  reports := hreports

/-- What a pass makes of an approval. -/
def lapsed (s : Desk) (pass : Pass) (a : Approval) : Approval :=
  if Overdue s pass a then { a with state := .expired } else a

theorem lapsed_kept (s : Desk) (pass : Pass) : Kept (lapsed s pass) := by
  have hall : ∀ {β : Type} (g : Approval → β) (a : Approval),
      g { a with state := .expired } = g a → g (lapsed s pass a) = g a := by
    intro β g a hg
    unfold lapsed
    split
    · exact hg
    · rfl
  exact ⟨⟨fun a => hall _ a rfl, fun a => hall _ a rfl, fun a => hall _ a rfl,
    fun a => hall _ a rfl, fun a => hall _ a rfl, fun a => hall _ a rfl, fun a => hall _ a rfl⟩,
    fun a => hall _ a rfl, fun a => hall _ a rfl⟩

theorem lapsed_pending (h : (lapsed s pass a).state = .pending) : a.state = .pending := by
  unfold lapsed at h
  by_cases hover : Overdue s pass a
  · exact hover.1
  · rw [if_neg hover] at h
    exact h

theorem Filed.passed (h : Filed lapses o)
    (hx : o.desk.expireDue cfg.toApprovalService pass = some u)
    (hok : lapses = true ∨ ∀ a ∈ o.desk.standalone, ¬ Overdue o.desk pass a) :
    Filed lapses { o with desk := u } := by
  have hs : u.standalone = o.desk.standalone.map (lapsed o.desk pass) :=
    expireDue_standalone h.sound h.alone hx
  have hkept := lapsed_kept o.desk pass
  have hstate : ∀ a ∈ o.desk.standalone, mayBe lapses a.state →
      mayBe lapses (lapsed o.desk pass a).state := by
    intro a ha hmay
    unfold lapsed
    by_cases hover : Overdue o.desk pass a
    · rw [if_pos hover]
      exact .inr ⟨hok.resolve_right fun hnone => hnone a ha hover, rfl⟩
    · rw [if_neg hover]
      exact hmay
  refine h.rewritten (expireDue_sound h.sound hx) hs hkept ?_ ?_
  · exact h.commands.map hs hkept.toKeeps (fun a ha _ => hstate a ha) fun _ _ => lapsed_pending
  · exact h.reports.map hs hkept.toKeeps (fun a ha _ => hstate a ha) fun _ _ => lapsed_pending

/-- What a decision makes of the approval it is about. -/
def decidedAs (i : Nat) (outcome : DecisionOutcome) (actor : Actor) (reason : Option String)
    (a : Approval) : Approval :=
  if a.id = i then { a with state := outcome.target, decidedBy := some actor, reason } else a

theorem decidedAs_kept (i : Nat) (outcome : DecisionOutcome) (actor : Actor)
    (reason : Option String) : Kept (decidedAs i outcome actor reason) := by
  have hall : ∀ {β : Type} (g : Approval → β) (a : Approval),
      g { a with state := outcome.target, decidedBy := some actor, reason } = g a →
        g (decidedAs i outcome actor reason a) = g a := by
    intro β g a hg
    unfold decidedAs
    split
    · exact hg
    · rfl
  exact ⟨⟨fun a => hall _ a rfl, fun a => hall _ a rfl, fun a => hall _ a rfl,
    fun a => hall _ a rfl, fun a => hall _ a rfl, fun a => hall _ a rfl, fun a => hall _ a rfl⟩,
    fun a => hall _ a rfl, fun a => hall _ a rfl⟩

theorem target_ne_pending (outcome : DecisionOutcome) : outcome.target ≠ .pending := by
  cases outcome <;> nofun

/-- The row that the bus finds by its approval. -/
theorem findIdx_command (h : Filed lapses o) (ha : a ∈ o.desk.approvals)
    (hi : (o.commands.findIdx? fun r => r.approvalId == some a.id) = some i) :
    a ∈ o.desk.standalone ∧ a.refType = commandRef ∧ a.refId = i := by
  obtain ⟨hlt, hcond, -⟩ := List.findIdx?_eq_some_iff_getElem.mp hi
  obtain ⟨b, hb, hid, hrest⟩ := h.commands.linked i o.commands[i] a.id
    (List.getElem?_eq_getElem hlt) (beq_iff_eq.mp hcond)
  obtain rfl := h.sound.unique (mem_standalone.mp hb).1 ha hid
  exact ⟨hb, hrest⟩

theorem findIdx_awaited (h : Filed lapses o) (ha : a ∈ o.desk.standalone)
    (htype : a.refType = commandRef) (hp : a.state = .pending) :
    (o.commands.findIdx? fun r => r.approvalId == some a.id) = some a.refId := by
  obtain ⟨r, hr, hwait⟩ := h.commands.awaited a ha htype hp
  obtain ⟨b, hb, hk, htype', href, -⟩ := h.commands.waits a.refId r hr hwait
  obtain rfl := h.single b hb a ha (htype'.trans htype.symm) href
  cases hfound : o.commands.findIdx? fun r => r.approvalId == some b.id with
  | none =>
    have hall := List.findIdx?_eq_none_iff.mp hfound r (List.mem_of_getElem? hr)
    rw [hk, beq_self_eq_true] at hall
    cases hall
  | some i =>
    rw [(findIdx_command h (mem_standalone.mp hb).1 hfound).2.2]

/-- What the hook of a pending approval does: it settles the row that the approval is of. -/
theorem hook_some (h : Filed lapses o) (ha : a ∈ o.desk.approvals) (hp : a.state = .pending)
    {outcome : DecisionOutcome} {ending : Ending} {o' : Office}
    (hh : o.hook a outcome ending = some o') :
    (a.standalone = false ∧ o' = o) ∨
    (a ∈ o.desk.standalone ∧ a.refType = commandRef ∧ ∃ state, state ≠ .awaitingApproval ∧
      o' = o.setCommand a.refId state) ∨
    (a ∈ o.desk.standalone ∧ a.refType = reportRef ∧ ∃ state, state ≠ .pending ∧
      o' = { o with reports := o.reports.modify a.refId fun r => { r with state } }) := by
  unfold Office.hook at hh
  by_cases hown : a.standalone = true
  · have hmem := mem_standalone.mpr ⟨ha, hown⟩
    rcases h.actions a hmem with ⟨htype, haction⟩ | ⟨htype, haction⟩
    · rw [if_pos haction, Office.onCommandDecided, findIdx_awaited h hmem htype hp] at hh
      refine .inr (.inl ⟨hmem, htype, ?_⟩)
      dsimp only at hh
      by_cases hout : outcome = .approve
      · rw [if_neg (not_not_intro hout)] at hh
        cases ending with
        | returned =>
          cases hh
          exact ⟨.done, nofun, rfl⟩
        | refused =>
          cases hh
          exact ⟨.refused, nofun, rfl⟩
        | raised => cases hh
      · rw [if_pos hout] at hh
        cases hh
        exact ⟨.refused, nofun, rfl⟩
    · have hne : ¬ a.action = some commandAction := by
        rw [haction]
        decide
      rw [if_neg hne, if_pos haction, Office.onReportDecided, if_pos htype] at hh
      cases hh
      refine .inr (.inr ⟨hmem, htype, _, ?_, rfl⟩)
      by_cases hout : outcome = .approve
      · rw [if_pos hout]
        nofun
      · rw [if_neg hout]
        nofun
  · have hother : a.standalone = false := Bool.eq_false_iff.mpr hown
    refine .inl ⟨hother, ?_⟩
    by_cases haction : a.action = some commandAction
    · rw [if_pos haction, Office.onCommandDecided] at hh
      cases hfound : o.commands.findIdx? fun r => r.approvalId == some a.id with
      | none =>
        rw [hfound] at hh
        exact (Option.some.inj hh).symm
      | some i => exact absurd (mem_standalone.mp (findIdx_command h ha hfound).1).2 hown
    · rw [if_neg haction] at hh
      by_cases hreport : a.action = some reportAction
      · have htype : ¬ a.refType = reportRef := by
          intro htype
          rw [Approval.standalone, htype] at hown
          simp at hown
        rw [if_pos hreport, Office.onReportDecided, if_neg htype] at hh
        exact (Option.some.inj hh).symm
      · rw [if_neg hreport] at hh
        exact (Option.some.inj (Option.ite_none_left_eq_some.mp hh).2).symm

theorem Filed.settle (h : Filed lapses o) {o' : Office} {outcome : DecisionOutcome}
    {actor : Actor} {reason : Option String} {ending : Ending} {fallen : List Nat}
    {decided : Option Desk} (hs : o.settle i outcome ending decided = some o')
    (hd : ∀ u, decided = some u → o.desk.settle i outcome actor reason false fallen = some u) :
    Filed lapses o' := by
  obtain ⟨a, hget, hs⟩ := Option.bind_eq_some_iff.mp hs
  obtain ⟨o₁, hhook, hs⟩ := Option.bind_eq_some_iff.mp hs
  obtain ⟨u, hu, rfl⟩ := Option.map_eq_some_iff.mp hs
  have hsettle := hd u hu
  obtain ⟨⟨b, hget', hp⟩, hrows⟩ := settle_standalone hsettle
  obtain rfl := Option.some.inj (hget.symm.trans hget')
  obtain ⟨ha, rfl⟩ := get_some hget
  have hsound := settle_sound h.sound hsettle
  have hmap : u.standalone = o.desk.standalone.map (decidedAs a.id outcome actor reason) := hrows
  have hkept := decidedAs_kept a.id outcome actor reason
  have hdone : (decidedAs a.id outcome actor reason a).state ≠ .pending := by
    rw [decidedAs, if_pos rfl]
    exact target_ne_pending outcome
  have hother : ∀ b ∈ o.desk.standalone, b.id ≠ a.id →
      decidedAs a.id outcome actor reason b = b := fun b _ hne => if_neg hne
  have hpending : ∀ b ∈ o.desk.standalone,
      (decidedAs a.id outcome actor reason b).state = .pending → b.state = .pending := by
    intro b hb hpb
    by_cases hid : b.id = a.id
    · obtain rfl := h.sound.unique (mem_standalone.mp hb).1 ha hid
      exact hp
    · rw [hother b hb hid] at hpb
      exact hpb
  have hstate : ∀ refType, a.refType ≠ refType → ∀ b ∈ o.desk.standalone, b.refType = refType →
      mayBe lapses b.state → mayBe lapses (decidedAs a.id outcome actor reason b).state := by
    intro refType hne b hb htype hmay
    have hid : b.id ≠ a.id := by
      intro hid
      obtain rfl := h.sound.unique (mem_standalone.mp hb).1 ha hid
      exact hne htype
    rw [hother b hb hid]
    exact hmay
  rcases hook_some h ha hp hhook with ⟨hnot, rfl⟩ | ⟨hmem, htype, state, hstate', rfl⟩ |
      ⟨hmem, htype, state, hstate', rfl⟩
  · refine h.work hsound (hmap.trans ?_)
    refine (List.map_congr_left fun b hb => hother b hb fun hid => ?_).trans (List.map_id _)
    obtain ⟨hb, hown⟩ := mem_standalone.mp hb
    obtain rfl := h.sound.unique hb ha hid
    cases hnot.symm.trans hown
  · refine h.rewritten hsound hmap hkept ?_ ?_
    · exact h.commands.settled hmap hkept.toKeeps hmem htype hdone hother h.sound
        (fun b hb => h.single a hmem b hb) hstate'
    · exact h.reports.map hmap hkept.toKeeps (hstate reportRef (by rw [htype]; decide)) hpending
  · refine h.rewritten hsound hmap hkept ?_ ?_
    · exact h.commands.map hmap hkept.toKeeps (hstate commandRef (by rw [htype]; decide)) hpending
    · exact h.reports.settled hmap hkept.toKeeps hmem htype hdone hother h.sound
        (fun b hb => h.single a hmem b hb) hstate'

/-- A request for a row that is about to be added. -/
theorem request_some {refType action : String} {refId : Nat}
    (hr : o.request cfg refType action refId = some u)
    (hown : (refType == commandRef || refType == reportRef) = true) :
    ∃ n : Approval, u.standalone = o.desk.standalone ++ [n] ∧ n.id = o.desk.approvals.length ∧
      n.refType = refType ∧ n.refId = refId ∧ n.action = some action ∧ n.taskId = none ∧
      n.delegated = none ∧ n.state = .pending := by
  obtain ⟨-, rfl⟩ := create_some hr
  generalize hn : o.desk.filing cfg.toApprovalService
    ⟨refType, refId, none, none, some action, none⟩ false o.desk.approvals.length = n
  refine ⟨n, ?_, by rw [← hn]; rfl, by rw [← hn]; rfl, by rw [← hn]; rfl, by rw [← hn]; rfl,
    by rw [← hn]; rfl, by rw [← hn]; rfl, by rw [← hn]; rfl⟩
  have hone : n.standalone = true := by
    rw [← hn]
    exact hown
  unfold Desk.standalone
  rw [List.filter_append, List.filter_singleton, hone]
  rfl

theorem Filed.requested (h : Filed lapses o) {action : String} {refId : Nat}
    (hr : o.request cfg refType action refId = some u) {n : Approval}
    (hs : u.standalone = o.desk.standalone ++ [n]) (htype : n.refType = refType)
    (href : n.refId = refId) (haction : n.action = some action) (htask : n.taskId = none)
    (hdelegated : n.delegated = none)
    (hown : refType = commandRef ∧ action = commandAction ∨
      refType = reportRef ∧ action = reportAction)
    (hnew : ∀ b ∈ o.desk.standalone, b.refType = refType → b.refId ≠ refId)
    {commands : List CommandRecord} {reports : List OfficialReport}
    (hcommands : Backed lapses commandRef .awaitingApproval commands u)
    (hreports : Backed lapses reportRef .pending reports u) :
    Filed lapses ⟨u, commands, reports⟩ where
  sound := by
    have hstep : o.desk.step cfg.toApprovalService (.request refType refId (some action) none) =
        some u := hr
    exact step_sound h.sound hstep
  alone b hb := by
    rw [hs] at hb
    rcases List.mem_append.mp hb with hb | hb
    · exact h.alone b hb
    · obtain rfl := List.mem_singleton.mp hb
      rw [haction]
      rcases hown with ⟨-, rfl⟩ | ⟨-, rfl⟩
      · exact ⟨htask, hdelegated, .inl rfl⟩
      · exact ⟨htask, hdelegated, .inr rfl⟩
  actions b hb := by
    rw [hs] at hb
    rcases List.mem_append.mp hb with hb | hb
    · exact h.actions b hb
    · obtain rfl := List.mem_singleton.mp hb
      rw [htype, haction]
      rcases hown with ⟨rfl, rfl⟩ | ⟨rfl, rfl⟩
      · exact .inl ⟨rfl, rfl⟩
      · exact .inr ⟨rfl, rfl⟩
  single b hb c hc htype' href' := by
    rw [hs] at hb hc
    rcases List.mem_append.mp hb with hold | hone
    · rcases List.mem_append.mp hc with hold' | hone'
      · exact h.single b hold c hold' htype' href'
      · obtain rfl := List.mem_singleton.mp hone'
        exact absurd (href'.trans href) (hnew b hold (htype'.trans htype))
    · obtain rfl := List.mem_singleton.mp hone
      rcases List.mem_append.mp hc with hold' | hone'
      · exact absurd (href'.symm.trans href) (hnew c hold' (htype'.symm.trans htype))
      · exact (List.mem_singleton.mp hone').symm
  commands := hcommands
  reports := hreports

theorem Filed.submit (h : Filed lapses o) {o' : Office} {key : String} {verdict : Verdict}
    (hs : o.submit cfg key verdict = some o') : Filed lapses o' := by
  unfold Office.submit at hs
  have hplain : ∀ state, state ≠ CommandOutcome.awaitingApproval →
      Filed lapses { o with commands := o.commands ++ [⟨key, state, none⟩] } := by
    intro state hstate
    exact ⟨h.sound, h.alone, h.actions, h.single, h.commands.added hstate rfl, h.reports⟩
  by_cases hused : o.commands.any (·.key == key) = true
  · rw [if_pos hused] at hs
    exact Option.some.inj hs ▸ h
  · rw [if_neg hused] at hs
    cases verdict with
    | refused => exact Option.some.inj hs ▸ hplain .refused nofun
    | runs ending =>
      cases ending with
      | returned => exact Option.some.inj hs ▸ hplain .done nofun
      | refused => exact Option.some.inj hs ▸ hplain .refused nofun
      | raised => cases hs
    | needsApproval =>
      obtain ⟨u, hr, rfl⟩ := Option.map_eq_some_iff.mp hs
      obtain ⟨n, hrows, hid, htype, href, haction, htask, hdelegated, hp⟩ := request_some hr rfl
      refine h.requested hr hrows htype href haction htask hdelegated (.inl ⟨rfl, rfl⟩) ?_ ?_ ?_
      · intro b hb htype'
        exact Nat.ne_of_lt (h.commands.refs b hb htype')
      · exact h.commands.asked hrows htype href hp rfl (by rw [hid])
      · exact h.reports.beside hrows (by rw [htype]; decide)

theorem Filed.readReport (h : Filed lapses o) {o' : Office} {url : String}
    (hs : o.readReport cfg url = some o') : Filed lapses o' := by
  unfold Office.readReport at hs
  by_cases hknown : o.reports.any (·.key == url) = true
  · rw [if_pos hknown] at hs
    exact Option.some.inj hs ▸ h
  · rw [if_neg hknown] at hs
    obtain ⟨u, hr, rfl⟩ := Option.map_eq_some_iff.mp hs
    obtain ⟨n, hrows, hid, htype, href, haction, htask, hdelegated, hp⟩ := request_some hr rfl
    refine h.requested hr hrows htype href haction htask hdelegated (.inr ⟨rfl, rfl⟩) ?_ ?_ ?_
    · intro b hb htype'
      exact Nat.ne_of_lt (h.reports.refs b hb htype')
    · exact h.commands.beside hrows (by rw [htype]; decide)
    · exact h.reports.asked hrows htype href hp rfl (by rw [hid])

theorem Filed.step (h : Filed lapses o) {o' : Office} {act : OfficeAct}
    (hok : lapses = true ∨ spared o act) (hs : o.step cfg act = some o') : Filed lapses o' := by
  cases act with
  | work act =>
    obtain ⟨hwork, hs⟩ := Option.ite_none_right_eq_some.mp hs
    obtain ⟨u, hu, rfl⟩ := Option.map_eq_some_iff.mp hs
    by_cases hpass : ∃ pass, act = .expireDue pass
    · obtain ⟨pass, rfl⟩ := hpass
      refine h.passed hu (hok.imp_right fun hspared a ha hover => ?_)
      obtain ⟨hmem, hown⟩ := mem_standalone.mp ha
      have hlt := hspared a hmem hown hover.1 hover.2.2
      have hle := hover.2.1
      omega
    · rw [not_exists] at hpass
      exact h.work (step_sound h.sound hu) (work_standalone hwork hpass hu)
  | submit key verdict => exact h.submit hs
  | readReport url => exact h.readReport hs
  | decide i outcome actor reason ending fallen =>
    exact h.settle hs fun u hu => (decide_some hu).2
  | decideDelegated i outcome actor reason t ending =>
    exact h.settle hs fun u hu => (decideDelegated_some (delegated_act_some hu).2).2.2

theorem filed_init (h : (office cfg).init o) : Filed lapses o := by
  obtain ⟨happ, htasks, hcommands, hreports⟩ := h
  have hsound : Sound o.desk :=
    sound_of_reach (.init (show (approvals cfg.toApprovalService).init o.desk from
      ⟨happ, htasks⟩))
  have hnone : ∀ a, a ∉ o.desk.standalone := by
    intro a ha
    have hmem := (mem_standalone.mp ha).1
    rw [happ] at hmem
    cases hmem
  refine ⟨hsound, fun a ha => absurd ha (hnone a), fun a ha => absurd ha (hnone a),
    fun a ha => absurd ha (hnone a), ?_, ?_⟩
  · rw [hcommands]
    exact ⟨nofun, nofun, fun a ha => absurd ha (hnone a), fun a ha => absurd ha (hnone a)⟩
  · rw [hreports]
    exact ⟨nofun, nofun, fun a ha => absurd ha (hnone a), fun a ha => absurd ha (hnone a)⟩

theorem Filed.answerable (h : Filed false o) : o.Answerable where
  commands i r hr hwait := by
    obtain ⟨a, ha, -, htype, href, hp | hlapsed⟩ := h.commands.waits i r hr hwait
    · exact ⟨a, (mem_standalone.mp ha).1, hp, htype, href⟩
    · cases hlapsed.1
  reports i r hr hwait := by
    obtain ⟨a, ha, -, htype, href, hp | hlapsed⟩ := h.reports.waits i r hr hwait
    · exact ⟨a, (mem_standalone.mp ha).1, hp, htype, href⟩
    · cases hlapsed.1

/-- Who could decide before a pass still can, unless the approval was overdue. -/
theorem asked_passed (h : Filed true o) (hrefs : refType = commandRef ∨ refType = reportRef)
    (hx : o.desk.expireDue cfg.toApprovalService pass = some u) :
    Office.Asked refType i u ↔
      ∃ a ∈ o.desk.approvals, a.refType = refType ∧ a.refId = i ∧ a.state = .pending ∧
        ¬ Overdue o.desk pass a := by
  have hs : u.standalone = o.desk.standalone.map (lapsed o.desk pass) :=
    expireDue_standalone h.sound h.alone hx
  have hkept := lapsed_kept o.desk pass
  have hown : ∀ b : Approval, b.refType = refType → b.standalone = true := by
    intro b hb
    rcases hrefs with rfl | rfl <;> simp [Approval.standalone, hb]
  constructor
  · rintro ⟨b, hb, hp, htype, href⟩
    have hmem : b ∈ u.standalone := mem_standalone.mpr ⟨hb, hown b htype⟩
    rw [hs] at hmem
    obtain ⟨a, ha, rfl⟩ := List.mem_map.mp hmem
    rw [hkept.refType] at htype
    rw [hkept.refId] at href
    refine ⟨a, (mem_standalone.mp ha).1, htype, href, lapsed_pending hp, fun hover => ?_⟩
    rw [lapsed, if_pos hover] at hp
    cases hp
  · rintro ⟨a, ha, htype, href, hp, hnot⟩
    have hmem : lapsed o.desk pass a ∈ u.standalone := by
      rw [hs]
      exact List.mem_map_of_mem (mem_standalone.mpr ⟨ha, hown a htype⟩)
    rw [lapsed, if_neg hnot] at hmem
    exact ⟨a, (mem_standalone.mp hmem).1, hp, htype, href⟩

theorem Filed.passed_iff (h : Filed true o)
    (hx : o.desk.expireDue cfg.toApprovalService pass = some u) :
    ({ o with desk := u } : Office).Answerable ↔
      o.Answerable ∧ spared o (.work (.expireDue pass)) := by
  have hcommands := fun i => asked_passed (i := i) h (.inl rfl) hx
  have hreports := fun i => asked_passed (i := i) h (.inr rfl) hx
  constructor
  · intro hafter
    refine ⟨⟨fun i r hr hwait => ?_, fun i r hr hwait => ?_⟩, fun a ha hown hp hfree => ?_⟩
    · obtain ⟨a, ha, htype, href, hp, -⟩ := (hcommands i).mp (hafter.commands i r hr hwait)
      exact ⟨a, ha, hp, htype, href⟩
    · obtain ⟨a, ha, htype, href, hp, -⟩ := (hreports i).mp (hafter.reports i r hr hwait)
      exact ⟨a, ha, hp, htype, href⟩
    · by_contra hlate
      have hover : Overdue o.desk pass a := ⟨hp, Int.not_lt.mp hlate, hfree⟩
      have hmem := mem_standalone.mpr ⟨ha, hown⟩
      -- the row of an overdue approval waits, and nobody else is asked about it
      obtain ⟨b, hb, htype', href', -, hnot⟩ : ∃ b ∈ o.desk.approvals, b.refType = a.refType ∧
          b.refId = a.refId ∧ b.state = .pending ∧ ¬ Overdue o.desk pass b := by
        rcases h.actions a hmem with ⟨htype, -⟩ | ⟨htype, -⟩
        · obtain ⟨r, hr, hwait⟩ := h.commands.awaited a hmem htype hp
          rw [htype]
          exact (hcommands a.refId).mp (hafter.commands _ r hr hwait)
        · obtain ⟨r, hr, hwait⟩ := h.reports.awaited a hmem htype hp
          rw [htype]
          exact (hreports a.refId).mp (hafter.reports _ r hr hwait)
      have hown' : b.standalone = true := by
        rw [Approval.standalone, htype']
        exact hown
      have hsame := h.single b (mem_standalone.mpr ⟨hb, hown'⟩) a hmem htype' href'
      rw [hsame] at hnot
      exact hnot hover
  · rintro ⟨hbefore, hspared⟩
    have hnot : ∀ a ∈ o.desk.approvals, a.refType = commandRef ∨ a.refType = reportRef →
        ¬ Overdue o.desk pass a := by
      intro a ha hrefs hover
      have hown : a.standalone = true := by
        rcases hrefs with href | href <;> simp [Approval.standalone, href]
      have hlt := hspared a ha hown hover.1 hover.2.2
      have hle := hover.2.1
      omega
    refine ⟨fun i r hr hwait => ?_, fun i r hr hwait => ?_⟩
    · obtain ⟨a, ha, hp, htype, href⟩ := hbefore.commands i r hr hwait
      exact (hcommands i).mpr ⟨a, ha, htype, href, hp, hnot a ha (.inl htype)⟩
    · obtain ⟨a, ha, hp, htype, href⟩ := hbefore.reports i r hr hwait
      exact (hreports i).mpr ⟨a, ha, htype, href, hp, hnot a ha (.inr htype)⟩

/-- While no pass finds the approval of a command or of a report overdue, each that waits can
be decided; a pass that does leaves one that cannot. -/
theorem waiting_answerable (cfg : OfficeService) :
    (∀ o, (office cfg).Reach spared o → o.Answerable) ∧
    ∀ o pass o', (office cfg).Reach anyStep o → o.step cfg (.work (.expireDue pass)) = some o' →
      (o'.Answerable ↔ o.Answerable ∧ spared o (.work (.expireDue pass))) := by
  constructor
  · intro o h
    have hfiled : Filed false o := System.Reach.invariant (I := Filed false)
      (fun _ hinit => filed_init hinit) (fun _ _ _ hf hok hs => hf.step (.inr hok) hs) h
    exact hfiled.answerable
  · intro o pass o' h hs
    have hfiled : Filed true o := System.Reach.invariant (I := Filed true)
      (fun _ hinit => filed_init hinit) (fun _ _ _ hf _ hs => hf.step (.inl rfl) hs) h
    have hmap : (o.desk.expireDue cfg.toApprovalService pass).map
        (fun desk => ({ o with desk } : Office)) = some o' := hs
    obtain ⟨u, hu, rfl⟩ := Option.map_eq_some_iff.mp hmap
    exact hfiled.passed_iff hu

theorem dayOpen_positive : (0 : Int) < 86400000000 := by decide

def officeService : OfficeService where
  delegates := ["approve_article"]
  defaultExpiry := 86400000000
  positive := dayOpen_positive
  articles := by simp

def openingDay : Office := ⟨⟨0, [], []⟩, [], []⟩

/-- A pass that skips nothing. -/
def fullPass : Pass := ⟨fun _ => .declined, [], [], fun _ => []⟩

theorem openingDay_reach {ok : Office → OfficeAct → Prop} :
    (office officeService).Reach ok openingDay := .init ⟨rfl, rfl, rfl, rfl⟩

-- a command waits, and a day has not gone by
theorem waiting_answerable_today :
    ∃ o : Office, o.commands.map Entry.state = [.awaitingApproval] ∧ o.Answerable := by
  obtain ⟨o₁, hsubmit, o, htick, hstate⟩ : ∃ o₁, openingDay.step officeService
      (.submit "create-project" .needsApproval) = some o₁ ∧
      ∃ o, o₁.step officeService (.work (.tick 1)) = some o ∧
        o.commands.map Entry.state = [.awaitingApproval] := ⟨_, rfl, _, rfl, rfl⟩
  have hreach : (office officeService).Reach spared o₁ :=
    openingDay_reach.step (a := OfficeAct.submit "create-project" .needsApproval) trivial hsubmit
  have hday : (office officeService).Reach spared o :=
    hreach.step (a := OfficeAct.work (.tick 1)) trivial htick
  exact ⟨o, hstate, (waiting_answerable officeService).1 o hday⟩

/-- A command that nobody answers within a day waits on after the pass, and nobody is asked. -/
theorem waiting_unanswerable : ∃ o o', (office officeService).Reach anyStep o ∧
    o.step officeService (.work (.expireDue fullPass)) = some o' ∧ ¬ o'.Answerable := by
  obtain ⟨o, ho, o', ho', hrow, hnone⟩ : ∃ o, System.follow anyStep (Office.step officeService)
      openingDay [.submit "create-project" .needsApproval, .work (.tick 86400000000)] = some o ∧
      ∃ o', o.step officeService (.work (.expireDue fullPass)) = some o' ∧
      o'.commands[0]? = some ⟨"create-project", .awaitingApproval, some 0⟩ ∧
      (o'.desk.approvals.all fun a => a.state ≠ .pending) = true := by
    refine ⟨_, rfl, _, rfl, rfl, ?_⟩
    decide +kernel
  refine ⟨o, o', openingDay_reach.path (System.follow_path (S := office officeService)
    (fun _ _ _ h => h) ho), ho', fun hall => ?_⟩
  obtain ⟨a, ha, hp, -⟩ := hall.commands 0 _ hrow rfl
  have hnot := List.all_eq_true.mp hnone a ha
  rw [hp] at hnot
  cases hnot

end Autora.Approvals
