import Autora.Refinement

/-! Runs given by the list of their operations, for tasks that are completed or
failed as services. -/

namespace Autora

open Systems

def Runtime.trace (e : WorkflowEngine) (s : Runtime) (ops : List Op) : Runtime :=
  ops.foldl (fun s op => s.after e e.bound op) s

def stateOf (s : Runtime) (task : Id) : Option TaskState := (s.db.task? task).map (·.state)

/-- A service operation its callers may run now. -/
def Op.isService (s : Runtime) : Op → Bool
  | instantiate .. => true
  | completeWithoutRun task _ _ => stateOf s task = some .ready
  | failWithoutRun task _ _ => stateOf s task = some .ready
  | _ => false

/-- Every operation may run when its turn comes, and what the engine does then
meets the condition. -/
def legal (e : WorkflowEngine) (P : Board → Event → Prop) [∀ b, DecidablePred (P b)] :
    Runtime → List Op → Bool
  | _, [] => true
  | s, op :: ops => op.isService s && (op.event? e s.db).all (fun ev => P s.db.board ev) &&
      legal e P (s.after e e.bound op) ops

theorem Op.called_of_isService {s : Runtime} {op : Op} (h : op.isService s = true) :
    op.Called s ∧ op.Outside s.db := by
  have hready : ∀ {task t}, stateOf s task = some .ready → s.db.task? task = some t →
      t.state = .ready := by
    intro task t hs ht
    rw [stateOf, ht] at hs
    exact Option.some.inj hs
  cases op with
  | instantiate template company project params cycle => exact ⟨trivial, trivial⟩
  | completeWithoutRun task output summary =>
    exact ⟨fun t ht => .inl (hready (of_decide_eq_true h) ht), trivial⟩
  | failWithoutRun task errorClass message =>
    exact ⟨fun t ht => hready (of_decide_eq_true h) ht, trivial⟩
  | _ => cases h

theorem path_trace {e : WorkflowEngine} {P : Board → Event → Prop} [∀ b, DecidablePred (P b)]
    {s : Runtime} {ops : List Op} (h : legal e P s ops = true) :
    (runtime e e.bound).Path (Meets e P) s (s.trace e ops) := by
  induction ops generalizing s with
  | nil => exact .refl
  | cons op ops ih =>
    rw [legal, Bool.and_eq_true, Bool.and_eq_true] at h
    obtain ⟨⟨hservice, hev⟩, hrest⟩ := h
    obtain ⟨hc, ho⟩ := Op.called_of_isService hservice
    refine .head ⟨op, ⟨ho, fun ev he => ?_⟩, hc, rfl⟩ (ih hrest)
    rw [he] at hev
    simpa using hev

def steps (e : WorkflowEngine) : Runtime → List Op → List (System.Taken Runtime Op)
  | _, [] => []
  | s, op :: ops => ⟨s, op, s.after e e.bound op⟩ :: steps e (s.after e e.bound op) ops

theorem history_trace {e : WorkflowEngine} {P : Board → Event → Prop}
    [∀ b, DecidablePred (P b)] {s : Runtime} {ops : List Op} (h : legal e P s ops = true) :
    (runtime e e.bound).History s (steps e s ops) (s.trace e ops) ∧
      ∀ x ∈ steps e s ops, x.label.Outside x.before.db := by
  induction ops generalizing s with
  | nil => exact ⟨.nil, by simp [steps]⟩
  | cons op ops ih =>
    rw [legal, Bool.and_eq_true, Bool.and_eq_true] at h
    obtain ⟨⟨hservice, _⟩, hrest⟩ := h
    obtain ⟨hc, ho⟩ := Op.called_of_isService hservice
    obtain ⟨hh, hout⟩ := ih hrest
    refine ⟨.cons ⟨hc, rfl⟩ hh, fun x hx => ?_⟩
    rcases List.mem_cons.mp hx with rfl | hx
    · exact ho
    · exact hout x hx

/-- An operation that anyone may call at any time. -/
def Op.isFree : Op → Bool
  | tick _ | addTask _ | claimNext .. | cancel .. | releaseBlocked .. | reapExpiredLeases ..
  | instantiate .. | cancelRun .. => true
  | _ => false

theorem Op.called_of_isFree {op : Op} (h : op.isFree = true) (s : Runtime) : op.Called s := by
  cases op <;> trivial

theorem path_free {e : WorkflowEngine} {s : Runtime} {ops : List Op}
    (h : ops.all Op.isFree = true) : (runtime e e.bound).Path anyStep s (s.trace e ops) := by
  induction ops generalizing s with
  | nil => exact .refl
  | cons op ops ih =>
    rw [List.all_cons, Bool.and_eq_true] at h
    exact .head ⟨op, trivial, Op.called_of_isFree h.1 s, rfl⟩ (ih h.2)

/-! Runs to look at: one template of service nodes, and nothing else yet. -/

def serviceNode (name : String) (dependsOn : List String) : NodeSpec where
  name := name
  displayName := fun _ => .ok name
  requiredRole := "service"
  dependsOn := dependsOn
  service := some name

/-- The check says whether it wants another round. -/
def wantsMore (output : Dict) : Bool := (output.lookup "more").isSome

def more : Option Dict := some [("more", .null)]

def engineOf (template : WorkflowTemplate) : WorkflowEngine where
  taskManager := {}
  templates := ⟨[template], by simp⟩

def World.empty : World where
  now := 0
  nextId := 0
  nextSeq := 0
  tasks := []
  agentRuns := []
  workflowRuns := []
  agents := []
  agentActivity := []
  approvals := []
  cycles := []
  projects := []
  businessUnits := []
  budgets := []
  events := []

def Runtime.blank : Runtime := ⟨World.empty, []⟩

theorem Runtime.blank_fresh : Runtime.blank.Fresh := ⟨rfl, rfl, rfl, rfl⟩

theorem reach_from_blank {e : WorkflowEngine} {P : Board → Event → Prop}
    [∀ b, DecidablePred (P b)] {ops : List Op} (h : legal e P Runtime.blank ops = true) :
    (runtime e e.bound).Reach (Meets e P) (Runtime.blank.trace e ops) :=
  ⟨Runtime.blank, Runtime.blank_fresh, path_trace h⟩

end Autora
