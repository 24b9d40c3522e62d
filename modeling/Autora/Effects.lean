import Autora.Dag

/-! What the helpers of the runtime do to the world: one lemma for each, so that
no later proof opens them again. -/

namespace Autora

open Transactions

/-! Rows that are written keep their place and their id. -/

section Tables

variable (w : World) (id : Id)

@[simp] theorem World.setTask_agentRuns (f : Task → Task) :
    (w.setTask id f).agentRuns = w.agentRuns := rfl
@[simp] theorem World.setTask_workflowRuns (f : Task → Task) :
    (w.setTask id f).workflowRuns = w.workflowRuns := rfl
@[simp] theorem World.setTask_agents (f : Task → Task) :
    (w.setTask id f).agents = w.agents := rfl
@[simp] theorem World.setTask_agentActivity (f : Task → Task) :
    (w.setTask id f).agentActivity = w.agentActivity := rfl
@[simp] theorem World.setTask_now (f : Task → Task) : (w.setTask id f).now = w.now := rfl
@[simp] theorem World.setTask_nextId (f : Task → Task) :
    (w.setTask id f).nextId = w.nextId := rfl

@[simp] theorem World.setRun_tasks (f : AgentRun → AgentRun) :
    (w.setRun id f).tasks = w.tasks := rfl
@[simp] theorem World.setRun_workflowRuns (f : AgentRun → AgentRun) :
    (w.setRun id f).workflowRuns = w.workflowRuns := rfl
@[simp] theorem World.setRun_agents (f : AgentRun → AgentRun) :
    (w.setRun id f).agents = w.agents := rfl
@[simp] theorem World.setRun_agentActivity (f : AgentRun → AgentRun) :
    (w.setRun id f).agentActivity = w.agentActivity := rfl
@[simp] theorem World.setRun_now (f : AgentRun → AgentRun) : (w.setRun id f).now = w.now := rfl
@[simp] theorem World.setRun_nextId (f : AgentRun → AgentRun) :
    (w.setRun id f).nextId = w.nextId := rfl
@[simp] theorem World.setRun_task? (f : AgentRun → AgentRun) (i : Id) :
    (w.setRun id f).task? i = w.task? i := rfl

@[simp] theorem World.setWorkflowRun_tasks (f : WorkflowRun → WorkflowRun) :
    (w.setWorkflowRun id f).tasks = w.tasks := rfl
@[simp] theorem World.setWorkflowRun_agentRuns (f : WorkflowRun → WorkflowRun) :
    (w.setWorkflowRun id f).agentRuns = w.agentRuns := rfl
@[simp] theorem World.setWorkflowRun_nextId (f : WorkflowRun → WorkflowRun) :
    (w.setWorkflowRun id f).nextId = w.nextId := rfl

theorem World.mem_of_task? {t : Task} (h : w.task? id = some t) : t ∈ w.tasks ∧ t.id = id := by
  have hp := List.find?_some h
  exact ⟨List.mem_of_find?_eq_some h, by simpa using hp⟩

theorem World.mem_of_agentRun? {r : AgentRun} (h : w.agentRun? id = some r) :
    r ∈ w.agentRuns ∧ r.id = id := by
  have hp := List.find?_some h
  exact ⟨List.mem_of_find?_eq_some h, by simpa using hp⟩

theorem World.mem_of_workflowRun? {r : WorkflowRun} (h : w.workflowRun? id = some r) :
    r ∈ w.workflowRuns ∧ r.id = id := by
  have hp := List.find?_some h
  exact ⟨List.mem_of_find?_eq_some h, by simpa using hp⟩

end Tables

/-- Reading a row back after rows were written. -/
theorem find?_map_key {α : Type} {key : α → Id} {f : α → α} (hf : ∀ a, key (f a) = key a)
    (xs : List α) (i : Id) :
    (xs.map f).find? (fun a => key a = i) = (xs.find? fun a => key a = i).map f := by
  induction xs with
  | nil => rfl
  | cons x xs ih =>
    simp only [List.map_cons, List.find?_cons, hf, ih]
    by_cases h : key x = i <;> simp [h]

theorem World.setTask_task? {w : World} {id : Id} {f : Task → Task} (hf : ∀ t, (f t).id = t.id)
    (i : Id) :
    (w.setTask id f).task? i = (w.task? i).map fun t => if t.id = id then f t else t := by
  refine find?_map_key (fun t => ?_) w.tasks i
  by_cases h : t.id = id <;> simp [h, hf]

/-- The row that was written. -/
theorem World.setTask_self {w : World} {id : Id} {f : Task → Task} (hf : ∀ t, (f t).id = t.id)
    {t : Task} (h : w.task? id = some t) : (w.setTask id f).task? id = some (f t) := by
  rw [World.setTask_task? hf, h, Option.map_some, if_pos (w.mem_of_task? id h).2]

theorem World.setTask_other {w : World} {id i : Id} {f : Task → Task}
    (hf : ∀ t, (f t).id = t.id) (hne : i ≠ id) : (w.setTask id f).task? i = w.task? i := by
  rw [World.setTask_task? hf]
  cases h : w.task? i with
  | none => rfl
  | some t =>
    have hid := (w.mem_of_task? i h).2
    simp [hid, hne]

/-- With distinct keys, a row of the table is the one its key finds. -/
theorem find?_key_of_mem {α : Type} (key : α → Id) {xs : List α} (hn : (xs.map key).Nodup)
    {x : α} (hx : x ∈ xs) : xs.find? (fun a => key a = key x) = some x := by
  induction xs with
  | nil => simp at hx
  | cons y xs ih =>
    rw [List.map_cons, List.nodup_cons] at hn
    rcases List.mem_cons.mp hx with rfl | hx
    · simp
    · have hne : key y ≠ key x := fun h => hn.1 (h ▸ List.mem_map_of_mem hx)
      rw [List.find?_cons]
      simp only [hne, decide_false]
      exact ih hn.2 hx

/-! The steps a transaction is made of. -/

section Steps

variable {w w' : World} {id : Id}

@[simp] theorem returns_clock {a : Time} : Returns clock w a w' ↔ a = w.now ∧ w' = w := by
  simp [clock, and_comm]

@[simp] theorem returns_uuid7 {a : Id} :
    Returns uuid7 w a w' ↔ a = w.nextId ∧ w' = { w with nextId := w.nextId + 1 } := by
  simp [uuid7, and_comm]

@[simp] theorem returns_theTask {t : Task} :
    Returns (theTask id) w t w' ↔ w.task? id = some t ∧ w' = w := by
  simp [theTask, and_comm]

@[simp] theorem returns_theRun {r : AgentRun} :
    Returns (theRun id) w r w' ↔ w.agentRun? id = some r ∧ w' = w := by
  simp [theRun, and_comm]

@[simp] theorem returns_theAgent {a : Agent} :
    Returns (theAgent id) w a w' ↔ w.agent? id = some a ∧ w' = w := by
  simp [theAgent, and_comm]

@[simp] theorem returns_updateTask {f : Task → Task} {u : Unit} :
    Returns (updateTask id f) w u w' ↔ w' = w.setTask id f := by
  simp [updateTask]

@[simp] theorem returns_updateRun {f : AgentRun → AgentRun} {u : Unit} :
    Returns (updateRun id f) w u w' ↔ w' = w.setRun id f := by
  simp [updateRun]

@[simp] theorem returns_updateWorkflowRun {f : WorkflowRun → WorkflowRun} {u : Unit} :
    Returns (updateWorkflowRun id f) w u w' ↔ w' = w.setWorkflowRun id f := by
  simp [updateWorkflowRun]

@[simp] theorem returns_checked {S : Type} [DecidableEq S] {m : StateMachine S}
    {current target : S} {u : Unit} :
    Returns (checked m current target) w u w' ↔ m.can current target = true ∧ w' = w := by
  simp [checked]

def Task.moved (target : TaskState) (t : Task) : Task := { t with state := target }

def AgentRun.moved (target : AgentRunState) (r : AgentRun) : AgentRun := { r with state := target }

@[simp] theorem returns_transitionTask {target : TaskState} {u : Unit} :
    Returns (transitionTask id target) w u w' ↔ ∃ task, w.task? id = some task ∧
      taskFsm.can task.state target = true ∧ w' = w.setTask id (Task.moved target) := by
  simp only [transitionTask, returns_bind, returns_theTask, returns_checked, returns_updateTask]
  constructor
  · rintro ⟨task, _, ⟨ht, rfl⟩, _, _, ⟨hc, rfl⟩, rfl⟩
    exact ⟨task, ht, hc, rfl⟩
  · rintro ⟨task, ht, hc, rfl⟩
    exact ⟨task, w, ⟨ht, rfl⟩, (), w, ⟨hc, rfl⟩, rfl⟩

@[simp] theorem returns_transitionRun {target : AgentRunState} {u : Unit} :
    Returns (transitionRun id target) w u w' ↔ ∃ run, w.agentRun? id = some run ∧
      agentRunFsm.can run.state target = true ∧ w' = w.setRun id (AgentRun.moved target) := by
  simp only [transitionRun, returns_bind, returns_theRun, returns_checked, returns_updateRun]
  constructor
  · rintro ⟨run, _, ⟨ht, rfl⟩, _, _, ⟨hc, rfl⟩, rfl⟩
    exact ⟨run, ht, hc, rfl⟩
  · rintro ⟨run, ht, hc, rfl⟩
    exact ⟨run, w, ⟨ht, rfl⟩, (), w, ⟨hc, rfl⟩, rfl⟩

@[simp] theorem returns_lockedTask {claim : Claim} {t : Task} :
    Returns (lockedTask claim) w t w' ↔ (w.task? claim.task.id = some t ∧ t.state = .running ∧
      t.leaseToken = some claim.token) ∧ w' = w := by
  simp only [lockedTask, returns_bind, returns_get, returns_orRaise, returns_require,
    returns_pure]
  constructor
  · rintro ⟨_, _, ⟨rfl, rfl⟩, _, _, ⟨ht, rfl⟩, _, _, ⟨hr, rfl⟩, rfl, rfl⟩
    exact ⟨⟨ht, hr⟩, rfl⟩
  · rintro ⟨⟨ht, hr⟩, rfl⟩
    exact ⟨_, _, ⟨rfl, rfl⟩, _, _, ⟨ht, rfl⟩, (), _, ⟨hr, rfl⟩, rfl, rfl⟩

@[simp] theorem returns_runOf {claim : Claim} {r : AgentRun} :
    Returns (runOf claim) w r w' ↔
      (w.agentRun? claim.run.id = some r ∧ r.state.isOpen = true) ∧ w' = w := by
  simp only [runOf, returns_bind, returns_get, returns_orRaise, returns_require, returns_pure]
  constructor
  · rintro ⟨_, _, ⟨rfl, rfl⟩, _, _, ⟨ht, rfl⟩, _, _, ⟨hr, rfl⟩, rfl, rfl⟩
    exact ⟨⟨ht, hr⟩, rfl⟩
  · rintro ⟨⟨ht, hr⟩, rfl⟩
    exact ⟨_, _, ⟨rfl, rfl⟩, _, _, ⟨ht, rfl⟩, (), _, ⟨hr, rfl⟩, rfl, rfl⟩

end Steps

/-! Agent runs move along paths. -/

theorem World.setRun_setRun {w : World} {id : Id} {f g : AgentRun → AgentRun}
    (hg : ∀ r, (g r).id = r.id) : (w.setRun id g).setRun id f = w.setRun id (f ∘ g) := by
  simp only [World.setRun, List.map_map]
  congr 1
  refine List.map_congr_left fun r _ => ?_
  by_cases h : r.id = id <;> simp [h, hg]

/-- The run after it went through the states of a path. -/
def AgentRun.hopped (path : List AgentRunState) (r : AgentRun) : AgentRun :=
  { r with state := path.getLast?.getD r.state }

def AgentRun.finished (target : AgentRunState) (now : Time) (r : AgentRun) : AgentRun :=
  { r with state := target, finishedAt := some now }

def AgentRun.aborted (reason : AbortReason) (message : Option String) (now : Time)
    (r : AgentRun) : AgentRun :=
  { r with
    state := .aborted
    finishedAt := some now
    error := some ⟨"Aborted:" ++ reason.value, truncate (message.getD "")⟩ }

theorem hops_spec {id : Id} {path : List AgentRunState} {w w' : World} {u : PUnit}
    (h : Returns (forEach (fun hop => transitionRun id hop) path) w u w') :
    w' = w.setRun id (AgentRun.hopped path) := by
  induction path generalizing w with
  | nil =>
    rw [returns_forEach_nil] at h
    subst h
    simp [World.setRun, AgentRun.hopped]
  | cons hop path ih =>
    rw [returns_forEach_cons] at h
    obtain ⟨w₁, h₁, h₂⟩ := h
    obtain ⟨run, _, _, rfl⟩ := returns_transitionRun.mp h₁
    have hm : ∀ r, (AgentRun.moved hop r).id = r.id := fun _ => rfl
    rw [ih h₂, World.setRun_setRun hm]
    congr 1
    funext r
    simp only [Function.comp_apply, AgentRun.hopped, AgentRun.moved, List.getLast?_cons,
      Option.getD_some]

/-- A path to an end is empty or ends there. -/
theorem shortestPath_last {s t : AgentRunState} {path : List AgentRunState}
    (ht : t.isOpen = false)
    (h : agentRunFsm.shortestPath AgentRunState.all s t = .ok path) :
    path = [] ∨ path.getLast? = some t := by
  by_cases hs : s.isOpen = true
  · obtain ⟨path', hp, hl, _⟩ := agentRun_end_path hs ht
    rw [hp] at h
    injection h with h
    exact .inr (h ▸ hl)
  · cases s <;> cases t <;>
      first
        | exact absurd rfl hs
        | exact absurd ht (by decide)
        | (injection h with h; exact .inl h.symm)
        | cases h

theorem finishRun_spec {id : Id} {target : AgentRunState} {now : Time} {w w' : World} {u : Unit}
    (ht : target.isOpen = false) (h : Returns (finishRun id target now) w u w') :
    w' = w.setRun id (AgentRun.finished target now) := by
  simp only [finishRun, returns_bind, returns_theRun, returns_orFail, returns_updateRun,
    returns_orRaise, returns_transitionRun] at h
  obtain ⟨row, _, ⟨_, rfl⟩, path, _, ⟨hpath, rfl⟩, _, w₁, h₁, _, _, rfl, last, _,
    ⟨hlast, rfl⟩, _, _, _, rfl⟩ := h
  have hl : last = target := by
    rcases shortestPath_last ht hpath with rfl | hp
    · simp at hlast
    · rw [hp] at hlast
      exact (Option.some.inj hlast).symm
  rw [hops_spec h₁, hl, World.setRun_setRun, World.setRun_setRun]
  · rfl
  · exact fun _ => rfl
  · exact fun _ => rfl

theorem abortRun_spec {id : Id} {reason : AbortReason} {message : Option String} {w w' : World}
    {u : Unit} (h : Returns (abortRun id reason message) w u w') :
    w' = w.setRun id (AgentRun.aborted reason message w.now) := by
  simp only [abortRun, returns_bind, returns_updateRun, returns_clock] at h
  obtain ⟨_, _, rfl, _, _, ⟨rfl, rfl⟩, h⟩ := h
  rw [finishRun_spec rfl h, World.setRun_setRun]
  · rfl
  · exact fun _ => rfl

/-! Events and activity leave the other tables alone. -/

/-- Only the event log and the agents' activity changed. -/
def Logged (w w' : World) : Prop :=
  ∃ events agentActivity nextSeq, w' = { w with
    events := events, agentActivity := agentActivity, nextSeq := nextSeq }

instance : IsPreorder World Logged where
  refl w := ⟨w.events, w.agentActivity, w.nextSeq, rfl⟩
  trans := by
    rintro w _ _ ⟨_, _, _, rfl⟩ ⟨ev, act, seq, rfl⟩
    exact ⟨ev, act, seq, rfl⟩

namespace Logged

variable {w w' : World} (h : Logged w w')

include h

theorem tasks : w'.tasks = w.tasks := by
  obtain ⟨_, _, _, rfl⟩ := h
  rfl

theorem agentRuns : w'.agentRuns = w.agentRuns := by
  obtain ⟨_, _, _, rfl⟩ := h
  rfl

theorem workflowRuns : w'.workflowRuns = w.workflowRuns := by
  obtain ⟨_, _, _, rfl⟩ := h
  rfl

theorem agents : w'.agents = w.agents := by
  obtain ⟨_, _, _, rfl⟩ := h
  rfl

theorem now : w'.now = w.now := by
  obtain ⟨_, _, _, rfl⟩ := h
  rfl

theorem nextId : w'.nextId = w.nextId := by
  obtain ⟨_, _, _, rfl⟩ := h
  rfl

end Logged

theorem emit_logged (event : EventEnvelope) : Keeps Logged (emit event) := by
  intro w a w' h
  simp only [emit, returns_bind, returns_get, returns_modify, returns_pure] at h
  obtain ⟨_, _, ⟨rfl, rfl⟩, _, _, rfl, _, rfl⟩ := h
  exact ⟨_, _, _, rfl⟩

theorem emitTask_logged (task : Task) (payload : Payload) (run : Option AgentRun) :
    Keeps Logged (emitTask task payload run) :=
  (emit_logged _).bind fun _ => Keeps.pure _

theorem emitWorkflowRun_logged (run : WorkflowRun) (payload : Payload) :
    Keeps Logged (emitWorkflowRun run payload) :=
  (emit_logged _).bind fun _ => Keeps.pure _

theorem clock_logged : Keeps Logged clock := Keeps.get.bind fun _ => Keeps.pure _

theorem writeActivity_logged (agent : Agent) (payload : Payload) (state : ActivityState)
    (current : Option AgentActivity) (ctx : ActivityContext) :
    Keeps Logged (writeActivity agent payload state current ctx) := by
  refine clock_logged.bind fun now => (emit_logged _).bind fun envelope => Keeps.modify fun w => ?_
  split
  · exact ⟨_, _, _, rfl⟩
  · exact ⟨_, _, _, rfl⟩

theorem setActivity_logged (agent : Agent) (payload : Payload) (ctx : ActivityContext) :
    Keeps Logged (setActivity agent payload ctx) := by
  refine Keeps.get.bind fun w => Keeps.orRaise.bind fun current => ?_
  split
  · exact writeActivity_logged _ _ _ _ _
  · exact Keeps.throw _
  · exact Keeps.throw _

theorem setActivityUnlessPaused_logged (agent : Agent) (payload : Payload)
    (ctx : ActivityContext) : Keeps Logged (setActivityUnlessPaused agent payload ctx) :=
  Keeps.get.bind fun _ => (Keeps.pure _).ite (setActivity_logged _ _ _)

theorem taskActivity_logged (agent : Agent) (payload : Payload) (task : Task)
    (run : Option AgentRun) : Keeps Logged (taskActivity agent payload task run) :=
  setActivityUnlessPaused_logged _ _ _

theorem markIdleAgentsWaiting_logged (task : Task) :
    Keeps Logged (markIdleAgentsWaiting task) := by
  refine Keeps.get.bind fun w => Keeps.forEach _ fun agent _ => ?_
  refine Keeps.get.bind fun w => Keeps.orRaise.bind fun activity => clock_logged.bind fun now => ?_
  exact (Keeps.pure _).ite (setActivityUnlessPaused_logged _ _ _)

theorem agentsWaitingOn_logged (task : Task) : Keeps Logged (agentsWaitingOn task) :=
  Keeps.get.bind fun _ => Keeps.pure _

end Autora
