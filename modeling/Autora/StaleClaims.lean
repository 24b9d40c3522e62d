import Autora.Leases
import Autora.Traces

/-! A claim that was lost is refused for ever, so a task ends at most once, with the
output of the one claim that was current. -/

namespace Autora

open Transactions Systems

variable {e : WorkflowEngine} {tm : TaskManager} {s s' : Runtime} {op : Op} {w w₁ w' : World}
  {c : Claim}

/-- The task does not run under the claim's token. -/
def Claim.Lost (c : Claim) (w : World) : Prop := ∀ t, ¬ c.Holds w t

instance (c : Claim) (w : World) : Decidable (c.Lost w) := by
  refine decidable_of_iff (∀ t ∈ w.task? c.task.id,
    ¬ (t.state = .running ∧ t.leaseToken = some c.token)) ?_
  constructor
  · exact fun h t hold => h t hold.row ⟨hold.running, hold.token⟩
  · exact fun h t ht hc => h t ⟨ht, hc.1, hc.2⟩

/-- What a worker does with its claim. -/
inductive Op.By (c : Claim) : Op → Prop
  | heartbeat : By c (.heartbeat c)
  | startRun : By c (.startRun c)
  | evaluate (repair : Bool) : By c (.evaluate c repair)
  | succeed (output : Option Dict) (summary : Option String) : By c (.succeed c output summary)
  | fail (errorClass message : String) (retryable : Bool) :
    By c (.fail c errorClass message retryable)
  | abort (reason : AbortReason) (message : Option String) : By c (.abort c reason message)
  | suspendForApproval (approval : Id) : By c (.suspendForApproval c approval)

/-- `LeaseLost`, as `_locked_task` raises it. -/
def Claim.refused (c : Claim) : Err :=
  .leaseLost s!"claim on task {c.task.id} is no longer valid"

theorem bind_error {α β : Type} {m : Tx α} {f : α → Tx β} {err : Err} (h : m w = .error err) :
    (m >>= f) w = .error err := by
  simp only [bind, StateT.bind, h, Except.bind]

theorem lockedTask_lost (h : c.Lost w) : lockedTask c w = .error c.refused := by
  cases hm : lockedTask c w with
  | ok r =>
    obtain ⟨t, w'⟩ := r
    have hreturns : Returns (lockedTask c) w t w' := hm
    exact absurd (lockedTask_spec hreturns).1 (h t)
  | error err =>
    -- both ways to fail raise the same error
    have hraise : err = c.refused := by
      simp only [lockedTask, bind, StateT.bind, get, getThe, MonadStateOf.get, StateT.get, pure,
        Except.pure, Except.bind] at hm
      cases hrow : w.task? c.task.id with
      | none =>
        rw [hrow] at hm
        exact (Except.error.inj hm).symm
      | some t =>
        rw [hrow] at hm
        by_cases hc : t.state = .running ∧ t.leaseToken = some c.token
        · exact absurd ⟨hrow, hc.1, hc.2⟩ (h t)
        · simp only [orRaise, pure, StateT.pure, Except.pure, require, if_neg hc] at hm
          exact (Except.error.inj hm).symm
    rw [hraise]

theorem refused_of_lost (h : c.Lost w) (hop : op.By c) :
    op.exec e tm w = .error c.refused := by
  have hlock := lockedTask_lost h
  have hbeat : tm.heartbeat c w = .error c.refused := bind_error hlock
  cases hop with
  | heartbeat => exact bind_error hbeat
  | startRun => exact bind_error (bind_error hbeat)
  | evaluate repair => exact bind_error (bind_error hbeat)
  | succeed output summary => exact bind_error (bind_error hlock)
  | fail errorClass message retryable => exact bind_error (bind_error hlock)
  | abort reason message => exact bind_error (bind_error hlock)
  | suspendForApproval approval => exact bind_error (bind_error hlock)

/-- A refused operation changes nothing at all. -/
theorem unchanged_of_lost (h : c.Lost s.db) (hop : op.By c) : s.after e tm op = s := by
  unfold Runtime.after
  rw [refused_of_lost h hop]

/-! A lost claim stays lost. -/

theorem Claim.Lost.step {answers : Id → Option Dict → Prop} (h : c.Lost w) (hl : AllLeased w)
    (hc : c.token < w.nextId)
    (hs : RowsStep (fun k => w.nextId ≤ k ∧ k < w'.nextId) answers w w') : c.Lost w' := by
  intro t' hold
  have hold_new : ¬ (w.nextId ≤ c.token ∧ c.token < w'.nextId) := fun hh =>
    absurd hh.1 (Nat.not_le_of_lt hc)
  cases hi : w.task? c.task.id with
  | none => exact hold_new ((hs.new _ t' hi hold.row).2.1 _ hold.token)
  | some t =>
    obtain ⟨t'', ht'', hrow⟩ := hs.rows _ t hi
    rw [hold.row, Option.some.injEq] at ht''
    subst ht''
    rcases hrow.token _ hold.token with htok | hnew
    · have hrun : t.state = .running := by
        by_contra hne
        rw [(hl _ t hi).token_of_not_running hne] at htok
        cases htok
      exact h t ⟨hi, hrun, htok⟩
    · exact hold_new hnew

theorem lost_forever (hw : Wired e tm) (hs : LeasesSound s) (hc : c ∈ s.claims)
    (h : c.Lost s.db) (hp : (runtime e tm).Path anyStep s s') : c.Lost s'.db := by
  have hinv : LeasesSound s' ∧ c ∈ s'.claims ∧ c.Lost s'.db := by
    refine System.Path.invariant (I := fun s => LeasesSound s ∧ c ∈ s.claims ∧ c.Lost s.db) ?_ hp
      ⟨hs, hc, h⟩
    rintro s op _ ⟨hs, hc, h⟩ _ ⟨hcalled, rfl⟩
    refine ⟨hs.after hw hcalled, ?_⟩
    rcases after_cases e tm s op with ⟨o, w, hexec, he⟩ | ⟨_, he⟩
    · rw [he]
      have hrows := exec_rows hw hs.unique hs.leased hcalled hexec
      exact ⟨List.mem_append_left _ hc, h.step hs.leased (hs.claimed c hc) hrows⟩
    · rw [he]
      exact ⟨hc, h⟩
  exact hinv.2.2

/-! What makes a claim lost. -/

/-- The rows the reaper goes through. -/
def World.expired (w : World) (limit : Nat) (locked : List Id) : List Task :=
  (w.tasks.filter fun t =>
    t.state = .running && t.leaseUntil.any (· < w.now) && t.id ∉ locked).take limit

/-- The operation, with its result `o`, reaps, claims, suspends, cancels or finishes
the task. -/
def Op.Takes (w : World) (task : Id) (o : Option Claim) : Op → Prop
  | reapExpiredLeases limit locked => task ∈ (w.expired limit locked).map (·.id)
  | claimNext .. => ∃ claim, o = some claim ∧ claim.task.id = task
  | succeed claim .. | fail claim .. | abort claim .. | suspendForApproval claim .. =>
    claim.task.id = task
  | cancel id _ | completeWithoutRun id .. | failWithoutRun id .. => id = task
  | _ => False

theorem Claim.lost_of_unleased (h : Unleased w c.task.id) : c.Lost w := by
  intro t hold
  have hnone := h t hold.row
  rw [hold.token] at hnone
  cases hnone

/-- The lease was released when the row was written. -/
theorem unleased_setTask {id : Id} {f : Task → Task} (hl : Logged (w.setTask id f) w')
    (hid : ∀ t, (f t).id = t.id) (hf : ∀ t, (f t).leaseToken = none) : Unleased w' id := by
  intro t ht
  rw [hl.task?] at ht
  rw [World.setTask_task? hid] at ht
  obtain ⟨t₀, ht₀, rfl⟩ := Option.map_eq_some_iff.mp ht
  rw [if_pos (w.mem_of_task? id ht₀).2]
  exact hf t₀

theorem Unleased.failed (hw : Wired e tm) {id i : Id} (h : Unleased w i) {u : Unit}
    (hhook : Returns (tm.failed id) w u w') : Unleased w' i :=
  h.step (a := fun _ _ => False) ((hookSteps_rows.wired hw).failed _ _ _ _ hhook)

theorem Unleased.finished (hw : Wired e tm) {id i : Id} (h : Unleased w i)
    {unlocked : List UnlockedTask} (hhook : Returns (tm.finished id) w unlocked w') :
    Unleased w' i :=
  h.step (a := fun _ _ => False) ((hookSteps_rows.wired hw).finished _ _ _ _ hhook)

theorem fail_unleases (hw : Wired e tm) {errorClass message : String} {retryable retry : Bool}
    (h : Returns (tm.fail c errorClass message retryable) w retry w') :
    Unleased w' c.task.id := by
  obtain ⟨t, r, g, hold, _, _, ⟨_, hl⟩ | ⟨w₁, u, hl, hhook⟩⟩ := fail_spec h
  · rw [← hold.id]
    exact unleased_setTask hl (fun _ => rfl) fun _ => rfl
  · rw [← hold.id]
    exact (unleased_setTask hl (fun _ => rfl) fun _ => rfl).failed hw hhook

theorem abort_unleases (hw : Wired e tm) {reason : AbortReason} {message : Option String}
    {u : Unit} (h : Returns (tm.abort c reason message) w u w') : Unleased w' c.task.id := by
  obtain ⟨t, r, g, hold, _, _, hl | ⟨s, w₁, _, hl, hhook⟩⟩ := abort_spec h
  · rw [← hold.id]
    exact unleased_setTask hl (fun _ => rfl) fun _ => rfl
  · rw [← hold.id]
    exact (unleased_setTask hl (fun _ => rfl) fun _ => rfl).failed hw hhook

theorem succeed_unleases (hw : Wired e tm) {output : Option Dict} {summary : Option String}
    {unlocked : List UnlockedTask} (h : Returns (tm.succeed c output summary) w unlocked w') :
    Unleased w' c.task.id := by
  obtain ⟨t, r, g, w₁, hold, _, _, hhook, hl⟩ := succeed_spec h
  rw [← hold.id]
  have hrow : Unleased w₁ t.id := by
    refine Unleased.finished hw ?_ hhook
    exact unleased_setTask (Logged.refl _) (fun _ => rfl) fun _ => rfl
  have hrest : RowsStep (fun _ => False) (fun _ _ => False) w₁ w' :=
    (setRun_rows w₁ r.id g).trans hl.rows
  exact hrow.step hrest

theorem suspend_unleases {approval : Id} {u : Unit}
    (h : Returns (TaskManager.suspendForApproval c approval) w u w') :
    Unleased w' c.task.id := by
  obtain ⟨t, r, path, hold, _, _, hl⟩ := suspendForApproval_spec h
  rw [← hold.id]
  exact unleased_setTask hl (fun _ => rfl) fun _ => rfl

theorem cancel_unleases (hw : Wired e tm) (hl : AllLeased w) {id : Id} {reason : String}
    {u : Unit} (h : Returns (tm.cancel id reason) w u w') : Unleased w' id := by
  obtain ⟨t, ht, ⟨hf, rfl⟩ | ⟨_, g, w₁, _, hlog, hhook⟩⟩ := cancel_spec h
  · intro t' ht'
    rw [ht, Option.some.injEq] at ht'
    subst ht'
    refine (hl id t ht).token_of_not_running fun hr => ?_
    rw [hr] at hf
    cases hf
  · exact (unleased_setTask hlog (fun _ => rfl) fun _ => rfl).failed hw hhook

theorem reapTask_unleases (hw : Wired e tm) {id : Id} {u : Unit}
    (h : Returns (tm.reapTask id) w u w') : Unleased w' id := by
  obtain ⟨t, g, _, _, _, ⟨_, hlog⟩ | ⟨w₁, hlog, hhook⟩⟩ := reapTask_spec h
  · exact unleased_setTask hlog (fun _ => rfl) fun _ => rfl
  · exact (unleased_setTask hlog (fun _ => rfl) fun _ => rfl).failed hw hhook

theorem reap_unleases (hw : Wired e tm) (hl : AllLeased w) {limit : Nat}
    {locked reaped : List Id} (h : Returns (tm.reapExpiredLeases limit locked) w reaped w') :
    ∀ t ∈ w.expired limit locked, Unleased w' t.id := by
  simp only [TaskManager.reapExpiredLeases, returns_bind, returns_get, returns_pure] at h
  obtain ⟨_, w, ⟨rfl, rfl⟩, _, w₁, h, _, rfl⟩ := h
  exact (forEach_all (R := RowsStep (fun _ => False) fun _ _ => False) (I := AllLeased)
    (Q := fun x s => Unleased s x.id)
    (fun x _ s t u hI hs => ⟨reapTask_rows hw hI hs, reapTask_unleases hw hs⟩)
    (fun s t hI hR => hI.step hR)
    (fun (x : Task) s t (hQ : Unleased s x.id) hR => hQ.step hR) hl h).2

/-- Another claim is made on the task. -/
theorem claimNext_loses {agent : Agent} {workerId : String} {locked : List Id} {o : Option Claim}
    {claim : Claim} (hc : c.token < w.nextId) (ho : o = some claim)
    (hid : claim.task.id = c.task.id)
    (h : Returns (tm.claimNext agent workerId locked) w o w') : c.Lost w' := by
  obtain ⟨hnone, _⟩ | ⟨task, _, _, claim', resume, ho', _, htake⟩ := claimNext_spec h
  · rw [hnone] at ho
    cases ho
  rw [ho', Option.some.injEq] at ho
  subst ho
  -- the row under its new token
  have hrow : ∀ {v : World} {f : Task → Task} {k : Id}, Logged (v.setTask task.id f) w' →
      (∀ t, (f t).id = t.id) → (∀ t, (f t).leaseToken = some k) → w.nextId ≤ k →
      claim'.task.id = task.id → c.Lost w' := by
    intro v f k hl hf hk hle htid t hold
    have hrow := hold.row
    rw [hl.task?, ← hid, htid, World.setTask_task? hf] at hrow
    obtain ⟨t₀, ht₀, rfl⟩ := Option.map_eq_some_iff.mp hrow
    have htok := hold.token
    rw [if_pos (v.mem_of_task? _ ht₀).2, hk, Option.some.injEq] at htok
    exact absurd hc (Nat.not_lt_of_le (htok ▸ hle))
  cases resume with
  | none =>
    obtain ⟨htid, _, _, _, hl⟩ := take_fresh htake
    exact hrow hl (fun _ => rfl) (fun _ => rfl) (Nat.le_succ _) htid
  | some r =>
    obtain ⟨htid, _, _, hl⟩ := take_resumed htake
    exact hrow hl (fun _ => rfl) (fun _ => rfl) (Nat.le_refl _) htid

theorem lost_of_takes (hw : Wired e tm) (hs : LeasesSound s) (hc : c ∈ s.claims)
    (hcalled : op.Called s) {o : Option Claim} (hexec : Returns (op.exec e tm) s.db o w')
    (htakes : op.Takes s.db c.task.id o) : c.Lost w' := by
  cases op
  case claimNext agent workerId locked =>
    obtain ⟨claim, ho, hid⟩ := htakes
    simp only [Op.exec, returns_bind, returns_theAgent] at hexec
    obtain ⟨_, _, ⟨_, rfl⟩, hexec⟩ := hexec
    exact claimNext_loses (hs.claimed c hc) ho hid hexec
  case succeed claim output summary =>
    obtain ⟨_, _, h⟩ := returns_discard.mp hexec
    have hid : claim.task.id = c.task.id := htakes
    exact Claim.lost_of_unleased (hid ▸ succeed_unleases hw h)
  case fail claim errorClass message retryable =>
    obtain ⟨_, _, h⟩ := returns_discard.mp hexec
    have hid : claim.task.id = c.task.id := htakes
    exact Claim.lost_of_unleased (hid ▸ fail_unleases hw h)
  case abort claim reason message =>
    obtain ⟨_, _, h⟩ := returns_discard.mp hexec
    have hid : claim.task.id = c.task.id := htakes
    exact Claim.lost_of_unleased (hid ▸ abort_unleases hw h)
  case suspendForApproval claim approval =>
    obtain ⟨_, _, h⟩ := returns_discard.mp hexec
    have hid : claim.task.id = c.task.id := htakes
    exact Claim.lost_of_unleased (hid ▸ suspend_unleases h)
  case cancel id reason =>
    obtain ⟨_, _, h⟩ := returns_discard.mp hexec
    have hid : id = c.task.id := htakes
    exact Claim.lost_of_unleased (hid ▸ cancel_unleases hw hs.leased h)
  case completeWithoutRun id output summary =>
    obtain ⟨_, _, h⟩ := returns_discard.mp hexec
    have hid : id = c.task.id := htakes
    have hu : Unleased s.db id := fun t ht =>
      (hs.leased id t ht).token_of_not_running (hcalled.not_running rfl ht)
    have hrows : RowsStep (fun _ => False) (fun i o => i = id ∧ o = output) s.db w' :=
      completeWithoutRun_rows hw (fun _ => hcalled.not_running rfl) h
    exact Claim.lost_of_unleased (hid ▸ hu.step hrows)
  case failWithoutRun id errorClass message =>
    obtain ⟨_, _, h⟩ := returns_discard.mp hexec
    have hid : id = c.task.id := htakes
    have hu : Unleased s.db id := fun t ht =>
      (hs.leased id t ht).token_of_not_running (hcalled.not_running rfl ht)
    have hrows : RowsStep (fun _ => False) (fun _ _ => False) s.db w' :=
      failWithoutRun_rows hw (fun _ => hcalled.not_running rfl) h
    exact Claim.lost_of_unleased (hid ▸ hu.step hrows)
  case reapExpiredLeases limit locked =>
    obtain ⟨_, _, h⟩ := returns_discard.mp hexec
    obtain ⟨t, ht, hid⟩ := List.mem_map.mp htakes
    exact Claim.lost_of_unleased (hid ▸ reap_unleases hw hs.leased h t ht)
  all_goals exact htakes.elim

/-! How a task ends. -/

theorem final_forever (hw : Wired e tm) (hs : LeasesSound s) {i : Id} {t : Task}
    (ht : s.db.task? i = some t) (hf : t.state.final = true)
    (hp : (runtime e tm).Path anyStep s s') :
    ∃ t', s'.db.task? i = some t' ∧ t'.state = t.state ∧ t'.output = t.output := by
  have hinv : LeasesSound s' ∧ ∃ t', s'.db.task? i = some t' ∧ t'.state = t.state ∧
      t'.output = t.output := by
    refine System.Path.invariant (I := fun s => LeasesSound s ∧ ∃ t', s.db.task? i = some t' ∧
      t'.state = t.state ∧ t'.output = t.output) ?_ hp ⟨hs, t, ht, rfl, rfl⟩
    rintro s op _ ⟨hs, t₁, ht₁, hs₁, ho₁⟩ _ ⟨hcalled, rfl⟩
    refine ⟨hs.after hw hcalled, ?_⟩
    rcases after_cases e tm s op with ⟨o, w, hexec, he⟩ | ⟨_, he⟩
    · rw [he]
      obtain ⟨t₂, ht₂, hrow⟩ := (exec_rows hw hs.unique hs.leased hcalled hexec).rows i t₁ ht₁
      obtain ⟨hs₂, ho₂⟩ := hrow.final (hs₁ ▸ hf)
      exact ⟨t₂, ht₂, hs₂.trans hs₁, ho₂.trans ho₁⟩
    · rw [he]
      exact ⟨t₁, ht₁, hs₁, ho₁⟩
  exact hinv.2

/-- Two claims under which a task could run are the same. -/
theorem LeasesSound.only (hs : LeasesSound s) {c c' : Claim} (hc : c ∈ s.claims)
    (hc' : c' ∈ s.claims) {t : Task} (h : c.Holds s.db t) (h' : c'.Holds s.db t) : c' = c := by
  have htok : c'.token = c.token := by
    have hh := h'.token
    rw [h.token, Option.some.injEq] at hh
    exact hh.symm
  exact List.inj_on_of_nodup_map hs.distinct hc' hc htok

/-- The operation gives the task its output: for the only claim that was current, or
from outside when there was none. -/
def AnsweredBy (s : Runtime) (i : Id) (t : Task) (output : Option Dict) : Op → Prop
  | .succeed c o _ => c ∈ s.claims ∧ c.task.id = i ∧ c.Holds s.db t ∧ o = output ∧
    ∀ c' ∈ s.claims, c'.Holds s.db t → c' = c
  | .completeWithoutRun task o _ => task = i ∧ o = output ∧ ∀ c ∈ s.claims, ¬ c.Holds s.db t
  | _ => False

theorem answered_by (hw : Wired e tm) (hs : LeasesSound s) (hcalled : op.Called s) {i : Id}
    {t t' : Task} (ht : s.db.task? i = some t) (ht' : (s.after e tm op).db.task? i = some t')
    (hbefore : t.state ≠ .succeeded) (hafter : t'.state = .succeeded) :
    AnsweredBy s i t t'.output op := by
  rcases after_cases e tm s op with ⟨o, w, hexec, he⟩ | ⟨_, he⟩
  · rw [he] at ht'
    obtain ⟨t'', ht'', hrow⟩ := (exec_rows hw hs.unique hs.leased hcalled hexec).rows i t ht
    rw [ht', Option.some.injEq] at ht''
    subst ht''
    have hout := (hrow.answer hafter).resolve_left hbefore
    cases op with
    | succeed c output summary =>
      obtain ⟨hid, ho⟩ := hout
      obtain ⟨_, _, h⟩ := returns_discard.mp hexec
      obtain ⟨t₀, _, _, _, hold, _⟩ := succeed_spec h
      have hsame := hold.row
      rw [← hid, ht, Option.some.injEq] at hsame
      subst hsame
      exact ⟨hcalled, hid.symm, hold, ho.symm, fun c' hc' h' => hs.only hcalled hc' hold h'⟩
    | completeWithoutRun task output summary =>
      obtain ⟨hid, ho⟩ := hout
      subst hid
      exact ⟨rfl, ho.symm, fun c _ hold => hcalled.not_running rfl ht hold.running⟩
    | _ => exact hout.elim
  · rw [he, ht, Option.some.injEq] at ht'
    subst ht'
    exact absurd hafter hbefore

theorem stale_claims_harmless (e : WorkflowEngine) (tm : TaskManager) (hw : Wired e tm)
    (s : Runtime) (h : (runtime e tm).Reach anyStep s) :
    -- a claim is lost when its task is reaped, claimed again, suspended, cancelled or finished
    (∀ c ∈ s.claims, ∀ (op : Op) o w', op.Called s → op.exec e tm s.db = .ok (o, w') →
      op.Takes s.db c.task.id o → c.Lost w') ∧
    -- then it is refused for ever, and nothing changes
    (∀ c ∈ s.claims, c.Lost s.db → ∀ s', (runtime e tm).Path anyStep s s' →
      ∀ op : Op, op.By c → op.exec e tm s'.db = .error c.refused ∧ s'.after e tm op = s') ∧
    -- a task that has ended stays as it ended
    (∀ i t, s.db.task? i = some t → t.state.final = true → ∀ s', (runtime e tm).Path anyStep s s' →
      ∃ t', s'.db.task? i = some t' ∧ t'.state = t.state ∧ t'.output = t.output) ∧
    -- and it succeeds with the output of the claim that was current
    (∀ (op : Op) i t t', op.Called s → s.db.task? i = some t →
      (s.after e tm op).db.task? i = some t' → t.state ≠ .succeeded → t'.state = .succeeded →
        AnsweredBy s i t t'.output op) := by
  have hs := leases_sound hw h
  refine ⟨fun c hc op o w' hcalled hexec htakes => lost_of_takes hw hs hc hcalled hexec htakes,
    fun c hc hlost s' hp op hop => ?_, fun i t ht hf s' hp => final_forever hw hs ht hf hp,
    fun op i t t' hcalled ht ht' => answered_by hw hs hcalled ht ht'⟩
  have hlater := lost_forever hw hs hc hlost hp
  exact ⟨refused_of_lost hlater hop, unchanged_of_lost hlater hop⟩

/-! A worker sleeps through its lease. -/

def writer : Agent where
  id := 1
  companyId := 100
  role := "writer"
  displayName := "Writer"
  avatarKey := "writer"
  capabilities := []
  place := ⟨none, none, none, none⟩
  perRunUsd := none
  status := .active
  createdAt := 0

def writerIdle : AgentActivity where
  agentId := 1
  companyId := 100
  state := .idle
  detail := activityDetail (.agentIdle .initialized) true none none none none []
  runId := none
  taskId := none
  since := 0
  lastEventSeq := 0

def Runtime.staffed : Runtime :=
  ⟨{ World.empty with agents := [writer], agentActivity := [writerIdle], nextId := 2 }, []⟩

def draft : TaskArgs where
  companyId := 100
  projectId := 101
  name := "draft"
  displayName := "Draft"
  requiredRole := "writer"

def unbound : WorkflowEngine where
  taskManager := {}
  templates := ⟨[], by simp⟩

/-- The task is claimed, the lease runs out, and the reaper takes the task back. -/
def sleptThrough : Runtime :=
  Runtime.staffed.trace unbound [.addTask draft, .claimNext 1 "worker" [], .tick 300000001,
    .reapExpiredLeases 10 []]

theorem stale_claims_harmless_reaped : sleptThrough.claims.length = 1 ∧
    ∀ c ∈ sleptThrough.claims,
      sleptThrough.after unbound unbound.bound (.succeed c none none) = sleptThrough := by
  have hreach : (runtime unbound unbound.bound).Reach anyStep sleptThrough :=
    ⟨Runtime.staffed, ⟨rfl, rfl, rfl, rfl⟩, path_free (by decide)⟩
  have hlost : ∀ c ∈ sleptThrough.claims, c.Lost sleptThrough.db := by decide +kernel
  refine ⟨by decide +kernel, fun c hc => ?_⟩
  have hstale := (stale_claims_harmless unbound unbound.bound (.inl rfl) sleptThrough hreach).2.1
  exact (hstale c hc (hlost c hc) _ .refl _ (.succeed none none)).2

end Autora
