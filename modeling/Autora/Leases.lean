import Autora.HookSteps
import Autora.Operations

/-! Leases: a task runs exactly while it is leased, every lease has a token of its
own, and a task that has ended stays as it ended. -/

namespace Autora

open Transactions Systems

/-- The lease is set as a whole while the task runs, and not at all otherwise. -/
def Task.Leased (t : Task) : Prop :=
  t.state = .running ∧ t.leaseOwner.isSome = true ∧ t.leaseUntil.isSome = true ∧
      t.leaseToken.isSome = true ∨
    t.state ≠ .running ∧ t.leaseOwner = none ∧ t.leaseUntil = none ∧ t.leaseToken = none

theorem Task.Leased.token_of_not_running {t : Task} (h : t.Leased) (hs : t.state ≠ .running) :
    t.leaseToken = none := by
  rcases h with ⟨hr, _⟩ | ⟨_, _, _, ht⟩
  · exact absurd hr hs
  · exact ht

theorem Task.Leased.running_iff {t : Task} (h : t.Leased) : t.state = .running ↔
    t.leaseOwner.isSome = true ∧ t.leaseUntil.isSome = true ∧ t.leaseToken.isSome = true := by
  rcases h with ⟨hr, h⟩ | ⟨hr, ho, _, _⟩
  · exact ⟨fun _ => h, fun _ => hr⟩
  · refine ⟨fun hh => absurd hh hr, fun hh => ?_⟩
    rw [ho] at hh
    exact absurd hh.1 (by decide)

theorem Task.Leased.moved {t : Task} (h : t.Leased) (hs : t.state ≠ .running) {s : TaskState}
    (hs' : s ≠ .running) : (t.moved s).Leased := by
  rcases h with ⟨hr, _⟩ | ⟨_, h⟩
  · exact absurd hr hs
  · exact .inr ⟨hs', h⟩

/-- A row from one moment to a later one. `tokens` are the lease tokens that were
drawn in between, `answers` the outputs that tasks succeeded with. -/
structure RowStep (tokens : Id → Prop) (answers : Option Dict → Prop) (t t' : Task) : Prop where
  leased : t.Leased → t'.Leased
  token : ∀ k, t'.leaseToken = some k → t.leaseToken = some k ∨ tokens k
  final : t.state.final = true → t'.state = t.state ∧ t'.output = t.output
  answer : t'.state = .succeeded → t.state = .succeeded ∨ answers t'.output

section RowStep

variable {tokens : Id → Prop} {answers : Option Dict → Prop} {t t' t'' : Task}

theorem RowStep.refl (t : Task) : RowStep tokens answers t t :=
  ⟨id, fun _ => .inl, fun _ => ⟨rfl, rfl⟩, .inl⟩

theorem RowStep.trans (h : RowStep tokens answers t t') (h' : RowStep tokens answers t' t'') :
    RowStep tokens answers t t'' := by
  refine ⟨fun hl => h'.leased (h.leased hl), fun k hk => ?_, fun hf => ?_, fun hs => ?_⟩
  · rcases h'.token k hk with hk' | hk'
    · exact h.token k hk'
    · exact .inr hk'
  · obtain ⟨hs, ho⟩ := h.final hf
    obtain ⟨hs', ho'⟩ := h'.final (hs ▸ hf)
    exact ⟨hs'.trans hs, ho'.trans ho⟩
  · rcases h'.answer hs with hs' | ha
    · have hkept := (h'.final (by rw [hs']; rfl)).2
      exact (h.answer hs').imp_right fun ha => hkept ▸ ha
    · exact .inr ha

/-- A row whose task leaves its worker. -/
theorem RowStep.leaves {s : TaskState} {t' : Task} (hf : t.state.final = false)
    (hs : s ≠ .running) (ht' : t'.state = s) (howner : t'.leaseOwner = none)
    (huntil : t'.leaseUntil = none) (htoken : t'.leaseToken = none)
    (ha : s = .succeeded → answers t'.output) : RowStep tokens answers t t' := by
  refine ⟨fun _ => .inr ⟨ht' ▸ hs, howner, huntil, htoken⟩, fun k hk => ?_, fun hff => ?_,
    fun hsucc => .inr (ha (ht'.symm.trans hsucc))⟩
  · rw [htoken] at hk
    cases hk
  · rw [hf] at hff
    cases hff

/-- A row that moves between states that have no lease. -/
theorem RowStep.moves {s : TaskState} (hf : t.state.final = false) (hr : t.state ≠ .running)
    (hs : s ≠ .running) (hns : s ≠ .succeeded) : RowStep tokens answers t (t.moved s) := by
  refine ⟨fun hl => hl.moved hr hs, fun _ => .inl, fun hff => ?_, fun h => absurd h hns⟩
  rw [hf] at hff
  cases hff

end RowStep

def World.UniqueTasks (w : World) : Prop := (w.tasks.map (·.id)).Nodup

theorem World.UniqueTasks.task? {w : World} (h : w.UniqueTasks) {t : Task} (ht : t ∈ w.tasks) :
    w.task? t.id = some t := find?_key_of_mem (fun t : Task => t.id) h ht

/-- Every row steps; a row that is new is not leased, unless it was claimed. -/
structure RowsStep (tokens : Id → Prop) (answers : Id → Option Dict → Prop) (w w' : World) :
    Prop where
  next : w.nextId ≤ w'.nextId
  unique : w.UniqueTasks → w'.UniqueTasks
  rows : ∀ i t, w.task? i = some t →
    ∃ t', w'.task? i = some t' ∧ RowStep tokens (answers i) t t'
  new : ∀ i t', w.task? i = none → w'.task? i = some t' → t'.Leased ∧
    (∀ k, t'.leaseToken = some k → tokens k) ∧ (t'.state = .succeeded → answers i t'.output)

variable {tokens : Id → Prop} {answers : Id → Option Dict → Prop} {w w₁ w' : World}

theorem RowsStep.mono {tokens' : Id → Prop} {answers' : Id → Option Dict → Prop}
    (h : RowsStep tokens answers w w') (ht : ∀ k, tokens k → tokens' k)
    (ha : ∀ i o, answers i o → answers' i o) : RowsStep tokens' answers' w w' := by
  refine ⟨h.next, h.unique, fun i t hi => ?_, fun i t' hi hi' => ?_⟩
  · obtain ⟨t', ht', hrow⟩ := h.rows i t hi
    exact ⟨t', ht', hrow.leased, fun k hk => (hrow.token k hk).imp_right (ht k), hrow.final,
      fun hs => (hrow.answer hs).imp_right (ha i _)⟩
  · obtain ⟨hl, hk, hs⟩ := h.new i t' hi hi'
    exact ⟨hl, fun k hk' => ht k (hk k hk'), fun hs' => ha i _ (hs hs')⟩

instance : IsPreorder World (RowsStep tokens answers) where
  refl w := by
    refine ⟨Nat.le_refl _, fun h => h, fun i t hi => ⟨t, hi, RowStep.refl t⟩,
      fun i t' hi hi' => ?_⟩
    rw [hi] at hi'
    cases hi'
  trans w w₁ w' h h' := by
    refine ⟨Nat.le_trans h.next h'.next, fun hu => h'.unique (h.unique hu), fun i t hi => ?_,
      fun i t' hi hi' => ?_⟩
    · obtain ⟨t₁, ht₁, hrow⟩ := h.rows i t hi
      obtain ⟨t', ht', hrow'⟩ := h'.rows i t₁ ht₁
      exact ⟨t', ht', hrow.trans hrow'⟩
    · cases h₁ : w₁.task? i with
      | none => exact h'.new i t' h₁ hi'
      | some t₁ =>
        obtain ⟨hl, hk, hs⟩ := h.new i t₁ hi h₁
        obtain ⟨t'', ht'', hrow⟩ := h'.rows i t₁ h₁
        rw [hi', Option.some.injEq] at ht''
        subst ht''
        refine ⟨hrow.leased hl, fun k hk' => (hrow.token k hk').elim (hk k) id, fun hs' => ?_⟩
        rcases hrow.answer hs' with hs₁ | ha
        · have hkept := (hrow.final (by rw [hs₁]; rfl)).2
          exact hkept ▸ hs hs₁
        · exact ha

theorem RowsStep.refl (w : World) : RowsStep tokens answers w w := Std.Refl.refl w

theorem RowsStep.trans (h : RowsStep tokens answers w w₁) (h' : RowsStep tokens answers w₁ w') :
    RowsStep tokens answers w w' := IsTrans.trans _ _ _ h h'

/-- The tasks are as they were. -/
theorem RowsStep.of_tasks (hn : w.nextId ≤ w'.nextId) (ht : w'.tasks = w.tasks) :
    RowsStep tokens answers w w' := by
  have hrow : ∀ i, w'.task? i = w.task? i := fun i => by rw [World.task?, World.task?, ht]
  refine ⟨hn, fun hu => ?_, fun i t hi => ⟨t, (hrow i).trans hi, RowStep.refl t⟩,
    fun i t' hi hi' => ?_⟩
  · unfold World.UniqueTasks
    rw [ht]
    exact hu
  · rw [hrow, hi] at hi'
    cases hi'

theorem Logged.rows (h : Logged w w') : RowsStep tokens answers w w' :=
  RowsStep.of_tasks (Nat.le_of_eq h.nextId.symm) h.tasks

theorem setRun_rows (w : World) (id : Id) (f : AgentRun → AgentRun) :
    RowsStep tokens answers w (w.setRun id f) := RowsStep.of_tasks (Nat.le_refl _) rfl

theorem endRun_rows (w : World) (run : Option AgentRun) (g : AgentRun → AgentRun) :
    RowsStep tokens answers w (w.endRun run g) := by
  cases run with
  | none => exact RowsStep.refl w
  | some r => exact setRun_rows w r.id g

theorem endRun_task? (w : World) (run : Option AgentRun) (g : AgentRun → AgentRun) (i : Id) :
    (w.endRun run g).task? i = w.task? i := by
  cases run <;> rfl

/-- One row is written. -/
theorem setTask_rows {id : Id} {f : Task → Task} (hid : ∀ t, (f t).id = t.id)
    (h : ∀ t, w.task? id = some t → RowStep tokens (answers id) t (f t)) :
    RowsStep tokens answers w (w.setTask id f) := by
  refine ⟨Nat.le_refl _, fun hu => ?_, fun i t hi => ?_, fun i t' hi hi' => ?_⟩
  · have hids : (w.setTask id f).tasks.map (·.id) = w.tasks.map (·.id) := by
      simp only [World.setTask, List.map_map]
      refine List.map_congr_left fun t _ => ?_
      by_cases he : t.id = id <;> simp [he, hid]
    unfold World.UniqueTasks
    rw [hids]
    exact hu
  · by_cases he : i = id
    · subst he
      exact ⟨f t, World.setTask_self hid hi, h t hi⟩
    · exact ⟨t, (World.setTask_other hid he).trans hi, RowStep.refl t⟩
  · rw [World.setTask_task? hid, hi] at hi'
    cases hi'

theorem insertTask_rows {n : Id} {task : Task} (hn : w.nextId ≤ n)
    (hfresh : ∀ t ∈ w.tasks, t.id ≠ task.id) (hl : task.Leased)
    (ht : task.leaseToken = none) (hs : task.state ≠ .succeeded) :
    RowsStep tokens answers w (w.insertTask n task) := by
  refine ⟨hn, fun hu => ?_, fun i t hi => ⟨t, ?_, RowStep.refl t⟩, fun i t' hi hi' => ?_⟩
  · unfold World.UniqueTasks World.insertTask
    rw [List.map_append, List.nodup_append]
    refine ⟨hu, by simp, fun i hi j hj he => ?_⟩
    obtain ⟨t, ht, rfl⟩ := List.mem_map.mp hi
    simp only [List.map_cons, List.map_nil, List.mem_singleton] at hj
    exact hfresh t ht (he.trans hj)
  · unfold World.task? World.insertTask
    rw [List.find?_append]
    unfold World.task? at hi
    rw [hi]
    rfl
  · unfold World.task? World.insertTask at hi'
    unfold World.task? at hi
    rw [List.find?_append, hi, Option.none_or] at hi'
    have ht' : t' = task := by simpa using List.mem_of_find?_eq_some hi'
    subst ht'
    refine ⟨hl, fun k hk => ?_, fun hsucc => absurd hsucc hs⟩
    rw [ht] at hk
    cases hk

/-- What the hooks do draws no token and answers no task. -/
theorem hookSteps_rows : HookSteps (RowsStep tokens answers) where
  logged _ _ h := h.rows
  nextId w := RowsStep.of_tasks (Nat.le_succ _) rfl
  workflowRuns w _ := RowsStep.of_tasks (Nat.le_refl _) rfl
  insert w args id n s hn hs hfresh _ := by
    have hr : s ≠ .running := by rcases hs with rfl | rfl <;> decide
    have hsucc : s ≠ .succeeded := by rcases hs with rfl | rfl <;> decide
    exact insertTask_rows hn hfresh (.inr ⟨hr, rfl, rfl, rfl⟩) rfl hsucc
  unlock w id t ht hp := by
    refine setTask_rows (fun _ => rfl) fun t' ht' => ?_
    rw [ht, Option.some.injEq] at ht'
    subst ht'
    exact RowStep.moves (by rw [hp]; rfl) (by rw [hp]; decide) (by decide) (by decide)
  rewire w id f := by
    refine setTask_rows (fun _ => rfl) fun t _ => ?_
    exact ⟨fun hl => hl, fun _ => .inl, fun _ => ⟨rfl, rfl⟩, .inl⟩
  cancel w id t g ht hf hg := by
    refine (endRun_rows w _ g).trans (setTask_rows (fun _ => rfl) fun t' ht' => ?_)
    rw [endRun_task?, ht, Option.some.injEq] at ht'
    subst ht'
    exact RowStep.leaves (s := .cancelled) hf (by decide) rfl rfl rfl rfl fun h => (by cases h)

/-! The operations. -/

/-- Every row is leased as its state says. -/
def AllLeased (w : World) : Prop := ∀ i t, w.task? i = some t → t.Leased

theorem AllLeased.step (h : AllLeased w) (hs : RowsStep tokens answers w w') : AllLeased w' := by
  intro i t' hi'
  cases hi : w.task? i with
  | none => exact (hs.new i t' hi hi').1
  | some t =>
    obtain ⟨t'', ht'', hrow⟩ := hs.rows i t hi
    rw [hi', Option.some.injEq] at ht''
    subst ht''
    exact hrow.leased (h i t hi)

theorem RowStep.extended {t : Task} {a : Option Dict → Prop} (hr : t.state = .running)
    (until_ : Time) : RowStep tokens a t (t.extended until_) := by
  refine ⟨fun hl => ?_, fun _ => .inl, fun _ => ⟨rfl, rfl⟩, .inl⟩
  rcases hl with ⟨_, ho, _, ht⟩ | ⟨hne, _⟩
  · exact .inl ⟨hr, ho, rfl, ht⟩
  · exact absurd hr hne

theorem RowStep.leased_fresh {t t' : Task} {a : Option Dict → Prop} {k : Id}
    (hr : t.state = .ready) (hs : t'.state = .running) (ho : t'.leaseOwner.isSome = true)
    (hu : t'.leaseUntil.isSome = true) (ht : t'.leaseToken = some k) (hk : tokens k) :
    RowStep tokens a t t' := by
  refine ⟨fun _ => .inl ⟨hs, ho, hu, by simp [ht]⟩, fun j hj => ?_, fun hf => ?_, fun hsucc => ?_⟩
  · rw [ht, Option.some.injEq] at hj
    exact .inr (hj ▸ hk)
  · rw [hr] at hf
    cases hf
  · rw [hs] at hsucc
    cases hsucc

variable {e : WorkflowEngine} {tm : TaskManager}

theorem Claim.Holds.extended {claim : Claim} {t : Task} (hold : claim.Holds w t)
    (until_ : Time) : RowsStep tokens answers w (w.setTask t.id (Task.extended until_)) := by
  refine setTask_rows (fun _ => rfl) fun t' ht' => ?_
  rw [hold.id, hold.row, Option.some.injEq] at ht'
  subst ht'
  exact RowStep.extended hold.running _

theorem heartbeat_rows {claim : Claim} {a : Time} (h : Returns (tm.heartbeat claim) w a w') :
    RowsStep tokens answers w w' := by
  obtain ⟨t, hold, rfl⟩ := heartbeat_spec h
  exact hold.extended _

theorem startRun_rows {claim : Claim} {u : Unit} (h : Returns (startRun tm claim) w u w') :
    RowsStep tokens answers w w' := by
  obtain ⟨t, r, g, hold, _, _, _, rfl⟩ := startRun_spec h
  exact (hold.extended _).trans (setRun_rows _ _ g)

theorem evaluate_rows {claim : Claim} {repair : Bool} {u : Unit}
    (h : Returns (evaluate tm claim repair) w u w') : RowsStep tokens answers w w' := by
  obtain ⟨t, r, g, hold, _, _, _, rfl⟩ := evaluate_spec h
  exact (hold.extended _).trans (setRun_rows _ _ g)

/-- The row of a claim that is current leaves its worker. -/
theorem Claim.Holds.leaves {claim : Claim} {t : Task} (hold : claim.Holds w t) {r : Id}
    {g : AgentRun → AgentRun} {f : Task → Task} {s : TaskState} (hid : ∀ x, (f x).id = x.id)
    (hs : s ≠ .running) (hf : (f t).state = s ∧ (f t).leaseOwner = none ∧
      (f t).leaseUntil = none ∧ (f t).leaseToken = none)
    (ha : s = .succeeded → answers t.id (f t).output) :
    RowsStep tokens answers w ((w.setRun r g).setTask t.id f) := by
  refine (setRun_rows w r g).trans (setTask_rows hid fun t' ht' => ?_)
  rw [World.setRun_task?, hold.id, hold.row, Option.some.injEq] at ht'
  subst ht'
  obtain ⟨h₁, h₂, h₃, h₄⟩ := hf
  exact RowStep.leaves (by rw [hold.running]; rfl) hs h₁ h₂ h₃ h₄ ha

theorem fail_rows (hw : Wired e tm) {claim : Claim} {errorClass message : String}
    {retryable retry : Bool}
    (h : Returns (tm.fail claim errorClass message retryable) w retry w') :
    RowsStep tokens answers w w' := by
  obtain ⟨t, r, g, hold, _, _, ⟨_, hl⟩ | ⟨w₁, u, hl, hhook⟩⟩ := fail_spec h
  · refine RowsStep.trans ?_ hl.rows
    exact hold.leaves (s := .ready) (fun _ => rfl) (by decide) ⟨rfl, rfl, rfl, rfl⟩
      fun hh => (by cases hh)
  · have hleft : RowsStep tokens answers w _ := hold.leaves (s := .failed) (r := r.id) (g := g)
      (f := Task.leaves .failed) (fun _ => rfl) (by decide) ⟨rfl, rfl, rfl, rfl⟩
      fun hh => (by cases hh)
    exact (hleft.trans hl.rows).trans ((hookSteps_rows.wired hw).failed _ _ _ _ hhook)

theorem abort_rows (hw : Wired e tm) {claim : Claim} {reason : AbortReason}
    {message : Option String} {u : Unit} (h : Returns (tm.abort claim reason message) w u w') :
    RowsStep tokens answers w w' := by
  obtain ⟨t, r, g, hold, _, _, hl | ⟨s, w₁, hs, hl, hhook⟩⟩ := abort_spec h
  · refine RowsStep.trans ?_ hl.rows
    exact hold.leaves (s := .blockedBudget) (fun _ => rfl) (by decide) ⟨rfl, rfl, rfl, rfl⟩
      fun hh => (by cases hh)
  · have hleft : RowsStep tokens answers w _ := hold.leaves (s := s) (r := r.id) (g := g)
      (f := Task.leaves s) (fun _ => rfl) (by rcases hs with rfl | rfl <;> decide)
      ⟨rfl, rfl, rfl, rfl⟩ (by rcases hs with rfl | rfl <;> exact fun hh => (by cases hh))
    exact (hleft.trans hl.rows).trans ((hookSteps_rows.wired hw).failed _ _ _ _ hhook)

theorem succeed_rows (hw : Wired e tm) {claim : Claim} {output : Option Dict}
    {summary : Option String} {unlocked : List UnlockedTask}
    (h : Returns (tm.succeed claim output summary) w unlocked w') :
    RowsStep tokens (fun i o => i = claim.task.id ∧ o = output) w w' := by
  obtain ⟨t, r, g, w₁, hold, _, _, hhook, hl⟩ := succeed_spec h
  have hrow : RowsStep tokens (fun i o => i = claim.task.id ∧ o = output) w
      (w.setTask t.id fun x => { x.leaves .succeeded with output := output }) := by
    refine setTask_rows (fun _ => rfl) fun t' ht' => ?_
    rw [hold.id, hold.row, Option.some.injEq] at ht'
    subst ht'
    exact RowStep.leaves (s := .succeeded) (by rw [hold.running]; rfl) (by decide) rfl rfl rfl rfl
      fun _ => ⟨hold.id, rfl⟩
  exact ((hrow.trans ((hookSteps_rows.wired hw).finished _ _ _ _ hhook)).trans
    (setRun_rows w₁ r.id g)).trans hl.rows

theorem suspendForApproval_rows {claim : Claim} {approval : Id} {u : Unit}
    (h : Returns (TaskManager.suspendForApproval claim approval) w u w') :
    RowsStep tokens answers w w' := by
  obtain ⟨t, r, path, hold, _, _, hl⟩ := suspendForApproval_spec h
  refine RowsStep.trans ?_ hl.rows
  exact hold.leaves (s := .waitingApproval) (fun _ => rfl) (by decide) ⟨rfl, rfl, rfl, rfl⟩
    fun hh => (by cases hh)

theorem claimNext_rows {agent : Agent} {workerId : String} {locked : List Id}
    {o : Option Claim} (hu : w.UniqueTasks)
    (h : Returns (tm.claimNext agent workerId locked) w o w') :
    RowsStep (fun k => w.nextId ≤ k ∧ k < w'.nextId) answers w w' := by
  rcases claimNext_spec h with ⟨_, rfl⟩ | ⟨task, hmem, hready, claim, resume, _, _, htake⟩
  · exact RowsStep.refl _
  have hrow := hu.task? hmem
  cases resume with
  | none =>
    obtain ⟨_, _, _, _, hl⟩ := take_fresh htake
    have hn : w'.nextId = w.nextId + 2 := hl.nextId
    have hw₁ : RowsStep (fun k => w.nextId ≤ k ∧ k < w'.nextId) answers w
        { w with agentRuns := w.agentRuns ++ [claim.run], nextId := w.nextId + 2 } :=
      RowsStep.of_tasks (Nat.le_add_right _ _) rfl
    refine (hw₁.trans ?_).trans hl.rows
    refine setTask_rows (fun _ => rfl) fun t ht => ?_
    have ht : w.task? task.id = some t := ht
    rw [hrow, Option.some.injEq] at ht
    subst ht
    refine RowStep.leased_fresh (k := w.nextId + 1) hready rfl rfl rfl rfl ⟨Nat.le_succ _, ?_⟩
    rw [hn]
    exact Nat.lt_succ_self _
  | some r =>
    obtain ⟨_, _, _, hl⟩ := take_resumed htake
    have hn : w'.nextId = w.nextId + 1 := hl.nextId
    have hw₁ : RowsStep (fun k => w.nextId ≤ k ∧ k < w'.nextId) answers w
        { w with nextId := w.nextId + 1 } := RowsStep.of_tasks (Nat.le_succ _) rfl
    refine (hw₁.trans ?_).trans hl.rows
    refine setTask_rows (fun _ => rfl) fun t ht => ?_
    have ht : w.task? task.id = some t := ht
    rw [hrow, Option.some.injEq] at ht
    subst ht
    refine RowStep.leased_fresh (k := w.nextId) hready rfl rfl rfl rfl ⟨Nat.le_refl _, ?_⟩
    rw [hn]
    exact Nat.lt_succ_self _

/-- A row without a lease moves. -/
theorem moved_rows {id : Id} {s : TaskState} {t : Task} (ht : w.task? id = some t)
    (hf : t.state.final = false) (hr : t.state ≠ .running) (hs : s ≠ .running)
    (hns : s ≠ .succeeded) : RowsStep tokens answers w (w.setTask id (Task.moved s)) := by
  refine setTask_rows (fun _ => rfl) fun t' ht' => ?_
  rw [ht, Option.some.injEq] at ht'
  subst ht'
  exact RowStep.moves hf hr hs hns

theorem completeWithoutRun_rows (hw : Wired e tm) {id : Id} {output : Option Dict}
    {summary : Option String} {unlocked : List UnlockedTask}
    (hr : ∀ t, w.task? id = some t → t.state ≠ .running)
    (h : Returns (tm.completeWithoutRun id output summary) w unlocked w') :
    RowsStep tokens (fun i o => i = id ∧ o = output) w w' := by
  obtain ⟨t, w₁, ht, hcan, hhook, hl⟩ := completeWithoutRun_spec h
  have hrow : RowsStep tokens (fun i o => i = id ∧ o = output) w
      (w.setTask id (Task.answered output)) := by
    refine setTask_rows (fun _ => rfl) fun t' ht' => ?_
    rw [ht, Option.some.injEq] at ht'
    subst ht'
    refine ⟨fun hlt => hlt.moved (s := .succeeded) (hr t ht) (by decide), fun _ => .inl,
      fun hf => ?_, fun _ => .inr ⟨rfl, rfl⟩⟩
    rw [not_final_of_can hcan] at hf
    cases hf
  exact (hrow.trans ((hookSteps_rows.wired hw).finished _ _ _ _ hhook)).trans hl.rows

theorem failWithoutRun_rows (hw : Wired e tm) {id : Id} {errorClass message : String} {u : Unit}
    (hr : ∀ t, w.task? id = some t → t.state ≠ .running)
    (h : Returns (tm.failWithoutRun id errorClass message) w u w') :
    RowsStep tokens answers w w' := by
  obtain ⟨t, w₁, ht, hcan, hl, hhook⟩ := failWithoutRun_spec h
  have hrow : RowsStep tokens answers w (w.setTask id (Task.unanswered errorClass message)) := by
    refine setTask_rows (fun _ => rfl) fun t' ht' => ?_
    rw [ht, Option.some.injEq] at ht'
    subst ht'
    refine ⟨fun hlt => hlt.moved (s := .failed) (hr t ht) (by decide), fun _ => .inl,
      fun hf => ?_, fun hh => (by cases hh)⟩
    rw [not_final_of_can hcan] at hf
    cases hf
  exact (hrow.trans hl.rows).trans ((hookSteps_rows.wired hw).failed _ _ _ _ hhook)

/-- A move announced by one event, between states that have no lease. -/
theorem transition_rows {id : Id} {s : TaskState} {p : Task → Payload} {u : Unit}
    (hs : s ≠ .running) (hns : s ≠ .succeeded)
    (hr : ∀ t, w.task? id = some t → t.state ≠ .running)
    (h : Returns (do
      transitionTask id s
      let task ← theTask id
      emitTask task (p task) none) w u w') : RowsStep tokens answers w w' := by
  obtain ⟨t, ht, hcan, hl⟩ := transition_spec h
  exact (moved_rows ht (not_final_of_can hcan) (hr t ht) hs hns).trans hl.rows

/-! Maintenance: a row that is listed without a lease stays without one. -/

/-- The row has no lease. -/
def Unleased (w : World) (i : Id) : Prop := ∀ t, w.task? i = some t → t.leaseToken = none

theorem Unleased.step {i : Id} {a : Id → Option Dict → Prop} (h : Unleased w i)
    (hs : RowsStep (fun _ => False) a w w') : Unleased w' i := by
  intro t' hi'
  cases hk : t'.leaseToken with
  | none => rfl
  | some k =>
    cases hi : w.task? i with
    | none => exact ((hs.new i t' hi hi').2.1 k hk).elim
    | some t =>
      obtain ⟨t'', ht'', hrow⟩ := hs.rows i t hi
      rw [hi', Option.some.injEq] at ht''
      subst ht''
      rcases hrow.token k hk with htok | hno
      · rw [h t hi] at htok
        cases htok
      · exact hno.elim

theorem Task.Leased.not_running {t : Task} (h : t.Leased) (ht : t.leaseToken = none) :
    t.state ≠ .running := by
  intro hr
  have hset := (h.running_iff.mp hr).2.2
  rw [ht] at hset
  cases hset

theorem releaseBlockedTask_rows (hw : Wired e tm) {id : Id} {u : Unit} (hl : AllLeased w)
    (hu : Unleased w id) (h : Returns (tm.releaseBlockedTask id) w u w') :
    RowsStep tokens answers w w' := by
  obtain ⟨t, ht, ⟨_, hcan, hlog⟩ | ⟨_, hcan, w₁, hlog, hhook⟩⟩ := releaseBlockedTask_spec h
  all_goals have hr := (hl id t ht).not_running (hu t ht)
  · exact (moved_rows ht (not_final_of_can hcan) hr (by decide) (by decide)).trans hlog.rows
  · exact ((moved_rows ht (not_final_of_can hcan) hr (by decide) (by decide)).trans
      hlog.rows).trans ((hookSteps_rows.wired hw).failed _ _ _ _ hhook)

theorem releaseBlocked_rows (hw : Wired e tm) {company : Id} {locked : List Id} {n : Nat}
    (hu : w.UniqueTasks) (hl : AllLeased w)
    (h : Returns (tm.releaseBlocked company locked) w n w') :
    RowsStep (fun _ => False) (fun _ _ => False) w w' := by
  simp only [TaskManager.releaseBlocked, returns_bind, returns_get, returns_pure] at h
  obtain ⟨_, w, ⟨rfl, rfl⟩, _, w₁, h, _, rfl⟩ := h
  let listed := w.tasks.filter fun t =>
    t.companyId = company && t.state = .blockedBudget && t.id ∉ locked
  have hlisted : ∀ x ∈ listed, Unleased w x.id := by
    intro x hx t ht
    obtain ⟨hmem, hp⟩ := List.mem_filter.mp hx
    rw [hu.task? hmem, Option.some.injEq] at ht
    subst ht
    simp only [Bool.and_eq_true, decide_eq_true_eq] at hp
    refine (hl _ _ (hu.task? hmem)).token_of_not_running ?_
    rw [hp.1.2]
    decide
  refine (forEach_all (R := RowsStep (fun _ => False) fun _ _ => False)
    (I := fun s => AllLeased s ∧ ∀ x ∈ listed, Unleased s x.id) (Q := fun _ _ => True)
    (fun x hx s t u hI hs => ⟨releaseBlockedTask_rows hw hI.1 (hI.2 x hx) hs, trivial⟩)
    (fun s t hI hR => ⟨hI.1.step hR, fun x hx => (hI.2 x hx).step hR⟩)
    (fun _ _ _ _ _ => trivial) ⟨hl, hlisted⟩ h).1

theorem reapTask_rows (hw : Wired e tm) {id : Id} {u : Unit} (hl : AllLeased w)
    (h : Returns (tm.reapTask id) w u w') : RowsStep tokens answers w w' := by
  obtain ⟨t, g, ht, huntil, _, hcases⟩ := reapTask_spec h
  have hrun : t.state = .running := by
    rcases hl id t ht with ⟨hr, _⟩ | ⟨_, _, hnone, _⟩
    · exact hr
    · rw [hnone] at huntil
      cases huntil
  -- the row leaves its worker
  have hleft : ∀ (s : TaskState) (f : Task → Task), (∀ x, (f x).id = x.id) → s ≠ .running →
      s ≠ .succeeded → (f t).state = s ∧ (f t).leaseOwner = none ∧ (f t).leaseUntil = none ∧
        (f t).leaseToken = none → RowsStep tokens answers w
          ((w.endRun (w.openRunOf? id) g).setTask id f) := by
    intro s f hid hs hns hf
    refine (endRun_rows w _ g).trans (setTask_rows hid fun t' ht' => ?_)
    rw [endRun_task?, ht, Option.some.injEq] at ht'
    subst ht'
    obtain ⟨h₁, h₂, h₃, h₄⟩ := hf
    exact RowStep.leaves (by rw [hrun]; rfl) hs h₁ h₂ h₃ h₄ fun hh => absurd hh hns
  rcases hcases with ⟨_, hlog⟩ | ⟨w₁, hlog, hhook⟩
  · refine RowsStep.trans ?_ hlog.rows
    exact hleft .ready _ (fun _ => rfl) (by decide) (by decide) ⟨rfl, rfl, rfl, rfl⟩
  · refine RowsStep.trans (RowsStep.trans ?_ hlog.rows)
      ((hookSteps_rows.wired hw).failed _ _ _ _ hhook)
    exact hleft .failed _ (fun _ => rfl) (by decide) (by decide) ⟨rfl, rfl, rfl, rfl⟩

theorem reapExpiredLeases_rows (hw : Wired e tm) {limit : Nat} {locked reaped : List Id}
    (hl : AllLeased w) (h : Returns (tm.reapExpiredLeases limit locked) w reaped w') :
    RowsStep tokens answers w w' := by
  simp only [TaskManager.reapExpiredLeases, returns_bind, returns_get, returns_pure] at h
  obtain ⟨_, w, ⟨rfl, rfl⟩, _, w₁, h, _, rfl⟩ := h
  exact (forEach_all (R := RowsStep tokens answers) (I := AllLeased) (Q := fun _ _ => True)
    (fun x _ s t u hI hs => ⟨reapTask_rows hw hI hs, trivial⟩) (fun s t hI hR => hI.step hR)
    (fun _ _ _ _ _ => trivial) hl h).1

/-! Every operation. -/

/-- The output that an operation lets a task succeed with. -/
def Op.outputs : Op → Id → Option Dict → Prop
  | succeed claim output _ => fun i o => i = claim.task.id ∧ o = output
  | completeWithoutRun task output _ => fun i o => i = task ∧ o = output
  | _ => fun _ _ => False

/-- The task that an operation moves from outside a claim. -/
def Op.outside? : Op → Option Id
  | markReady task | awaitApproval task _ | releaseAfterApproval task
  | completeWithoutRun task _ _ | failWithoutRun task _ _ => some task
  | _ => none

/-- Its callers see to it that it is not running. -/
theorem Op.Called.not_running {s : Runtime} {op : Op} {task : Id} (h : op.Called s)
    (hop : op.outside? = some task) {t : Task} (ht : s.db.task? task = some t) :
    t.state ≠ .running := by
  cases op <;> cases hop
  case markReady => rcases h t ht with hs | ⟨hs, _⟩ <;> rw [hs] <;> decide
  case awaitApproval => rw [h t ht]; decide
  case releaseAfterApproval => rw [h t ht]; decide
  case completeWithoutRun => rcases h t ht with hs | hs <;> rw [hs] <;> decide
  case failWithoutRun => rw [h t ht]; decide

theorem exec_rows (hw : Wired e tm) {s : Runtime} {op : Op} {o : Option Claim}
    (hu : s.db.UniqueTasks) (hl : AllLeased s.db) (hcalled : op.Called s)
    (h : Returns (op.exec e tm) s.db o w') :
    RowsStep (fun k => s.db.nextId ≤ k ∧ k < w'.nextId) op.outputs s.db w' := by
  have hhooks : HooksKeep (RowsStep (fun k => s.db.nextId ≤ k ∧ k < w'.nextId) op.outputs) tm :=
    hookSteps_rows.wired hw
  cases op with
  | tick d =>
    simp only [Op.exec, returns_bind, returns_modify, returns_pure] at h
    obtain ⟨_, _, rfl, _, rfl⟩ := h
    exact RowsStep.of_tasks (Nat.le_refl _) rfl
  | addTask args =>
    obtain ⟨_, _, h⟩ := returns_discard.mp h
    exact hookSteps_rows.keeps_addTask _ _ _ _ h
  | markReady task =>
    obtain ⟨_, _, h⟩ := returns_discard.mp h
    exact transition_rows (p := fun t => .taskReady t.requiredRole) (by decide) (by decide)
      (fun _ => hcalled.not_running rfl) h
  | claimNext agent workerId locked =>
    simp only [Op.exec, returns_bind, returns_theAgent] at h
    obtain ⟨_, _, ⟨_, rfl⟩, h⟩ := h
    exact claimNext_rows hu h
  | heartbeat claim =>
    obtain ⟨_, _, h⟩ := returns_discard.mp h
    exact heartbeat_rows h
  | startRun claim =>
    obtain ⟨_, _, h⟩ := returns_discard.mp h
    exact startRun_rows h
  | evaluate claim repair =>
    obtain ⟨_, _, h⟩ := returns_discard.mp h
    exact evaluate_rows h
  | succeed claim output summary =>
    obtain ⟨_, _, h⟩ := returns_discard.mp h
    exact succeed_rows hw h
  | fail claim errorClass message retryable =>
    obtain ⟨_, _, h⟩ := returns_discard.mp h
    exact fail_rows hw h
  | abort claim reason message =>
    obtain ⟨_, _, h⟩ := returns_discard.mp h
    exact abort_rows hw h
  | cancel task reason =>
    obtain ⟨_, _, h⟩ := returns_discard.mp h
    exact hookSteps_rows.keeps_cancel hhooks _ _ _ _ _ h
  | suspendForApproval claim approval =>
    obtain ⟨_, _, h⟩ := returns_discard.mp h
    exact suspendForApproval_rows h
  | awaitApproval task approval =>
    obtain ⟨_, _, h⟩ := returns_discard.mp h
    exact transition_rows (p := fun _ => .taskWaiting .approval (some approval)) (by decide)
      (by decide) (fun _ => hcalled.not_running rfl) h
  | releaseAfterApproval task =>
    obtain ⟨_, _, h⟩ := returns_discard.mp h
    exact transition_rows (p := fun t => .taskReady t.requiredRole) (by decide) (by decide)
      (fun _ => hcalled.not_running rfl) h
  | completeWithoutRun task output summary =>
    obtain ⟨_, _, h⟩ := returns_discard.mp h
    exact completeWithoutRun_rows hw (fun _ => hcalled.not_running rfl) h
  | failWithoutRun task errorClass message =>
    obtain ⟨_, _, h⟩ := returns_discard.mp h
    exact failWithoutRun_rows hw (fun _ => hcalled.not_running rfl) h
  | releaseBlocked company locked =>
    obtain ⟨_, _, h⟩ := returns_discard.mp h
    exact (releaseBlocked_rows hw hu hl h).mono (fun _ => False.elim) fun _ _ => False.elim
  | reapExpiredLeases limit locked =>
    obtain ⟨_, _, h⟩ := returns_discard.mp h
    exact reapExpiredLeases_rows hw hl h
  | instantiate template company project params cycle =>
    obtain ⟨_, _, h⟩ := returns_discard.mp h
    exact hookSteps_rows.keeps_instantiate _ _ _ _ _ _ _ _ h
  | cancelRun run reason =>
    obtain ⟨_, _, h⟩ := returns_discard.mp h
    exact hookSteps_rows.keeps_cancelRun _ _ _ _ _ h

/-! Runs. -/

/-- Only a claim hands something out, and its token is new. -/
theorem exec_claim {s : Runtime} {op : Op} {claim : Claim}
    (h : Returns (op.exec e tm) s.db (some claim) w') :
    s.db.nextId ≤ claim.token ∧ claim.token < w'.nextId := by
  cases op
  case claimNext agent workerId locked =>
    simp only [Op.exec, returns_bind, returns_theAgent] at h
    obtain ⟨_, _, ⟨_, rfl⟩, h⟩ := h
    obtain ⟨ho, _⟩ | ⟨task, _, _, claim', resume, ho, _, htake⟩ := claimNext_spec h
    · cases ho
    · rw [Option.some.injEq] at ho
      subst ho
      cases resume with
      | none =>
        obtain ⟨_, ht, _, _, hl⟩ := take_fresh htake
        have hn : w'.nextId = s.db.nextId + 2 := hl.nextId
        rw [ht, hn]
        exact ⟨Nat.le_succ _, Nat.lt_succ_self _⟩
      | some r =>
        obtain ⟨_, _, ht, hl⟩ := take_resumed htake
        have hn : w'.nextId = s.db.nextId + 1 := hl.nextId
        rw [ht, hn]
        exact ⟨Nat.le_refl _, Nat.lt_succ_self _⟩
  all_goals
    obtain ⟨ho, _⟩ := returns_discard.mp h
    cases ho

/-- Leases are sound, and every token that was drawn is below the next id. -/
structure LeasesSound (s : Runtime) : Prop where
  unique : s.db.UniqueTasks
  leased : AllLeased s.db
  below : ∀ i t k, s.db.task? i = some t → t.leaseToken = some k → k < s.db.nextId
  claimed : ∀ c ∈ s.claims, c.token < s.db.nextId
  distinct : (s.claims.map (·.token)).Nodup

variable {s s' : Runtime} {op : Op}

theorem LeasesSound.fresh (h : s.Fresh) : LeasesSound s := by
  obtain ⟨ht, _, _, hc⟩ := h
  refine ⟨by simp [World.UniqueTasks, ht], fun i t hi => ?_, fun i t k hi => ?_, by simp [hc],
    by simp [hc]⟩
  all_goals simp [World.task?, ht] at hi

theorem LeasesSound.committed (hw : Wired e tm) (h : LeasesSound s) (hc : op.Called s)
    {o : Option Claim} (hexec : Returns (op.exec e tm) s.db o w') :
    LeasesSound ⟨w', s.claims ++ o.toList⟩ := by
  have hrows := exec_rows hw h.unique h.leased hc hexec
  refine ⟨hrows.unique h.unique, h.leased.step hrows, fun i t' k hi' hk => ?_, fun c hc => ?_, ?_⟩
  · cases hi : s.db.task? i with
    | none => exact ((hrows.new i t' hi hi').2.1 k hk).2
    | some t =>
      obtain ⟨t'', ht'', hrow⟩ := hrows.rows i t hi
      rw [hi', Option.some.injEq] at ht''
      subst ht''
      rcases hrow.token k hk with hold | hnew
      · exact Nat.lt_of_lt_of_le (h.below i t k hi hold) hrows.next
      · exact hnew.2
  · rcases List.mem_append.mp hc with hc | hc
    · exact Nat.lt_of_lt_of_le (h.claimed c hc) hrows.next
    · cases o with
      | none => simp at hc
      | some claim =>
        rw [List.mem_singleton.mp hc]
        exact (exec_claim hexec).2
  · cases o with
    | none => simpa using h.distinct
    | some claim =>
      rw [Option.toList_some, List.map_append, List.nodup_append]
      refine ⟨h.distinct, by simp, fun i hi j hj he => ?_⟩
      obtain ⟨c, hc, rfl⟩ := List.mem_map.mp hi
      simp only [List.map_cons, List.map_nil, List.mem_singleton] at hj
      have hlt := h.claimed c hc
      rw [he, hj] at hlt
      exact absurd (exec_claim hexec).1 (Nat.not_le_of_lt hlt)

theorem LeasesSound.after (hw : Wired e tm) (h : LeasesSound s) (hc : op.Called s) :
    LeasesSound (s.after e tm op) := by
  rcases after_cases e tm s op with ⟨claim, w, hexec, he⟩ | ⟨_, he⟩
  · rw [he]
    exact h.committed hw hc hexec
  · rw [he]
    exact h

theorem leases_sound (hw : Wired e tm) {ok : Runtime → Op → Prop}
    (h : (runtime e tm).Reach ok s) : LeasesSound s := by
  refine System.Reach.invariant (I := LeasesSound) (fun s hs => LeasesSound.fresh hs) ?_ h
  rintro s op _ hs _ ⟨hc, rfl⟩
  exact hs.after hw hc

end Autora
