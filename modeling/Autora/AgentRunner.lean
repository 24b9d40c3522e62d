import Mathlib.Data.List.Forall2
import Autora.Lib.Systems

/-! The runner of one agent run: the conversation, the steps it stores, the
approvals it waits for, and how it goes on from what is stored. -/

namespace Autora.Agents

open Systems

/-- A tool's arguments, as JSON. -/
abbrev Args := String

structure ToolUseBlock where
  id : String
  name : String
  input : Args
  deriving DecidableEq, Repr

structure ToolResultBlock where
  toolUseId : String
  content : String
  isError : Bool
  deriving DecidableEq, Repr

/-- A block kept for its provider: the type and the call id its data name, and the rest. -/
structure OpaqueBlock where
  provider : String
  type : String
  toolCallId : String
  data : String
  deriving DecidableEq, Repr

inductive ContentBlock where
  | text (text : String)
  | toolUse (use : ToolUseBlock)
  | toolResult (result : ToolResultBlock)
  | verbatim (block : OpaqueBlock)
  deriving DecidableEq, Repr

inductive Role where
  | user
  | assistant
  deriving DecidableEq, Repr

structure Message where
  role : Role
  content : List ContentBlock
  deriving DecidableEq, Repr

def Message.user (text : String) : Message := ⟨.user, [.text text]⟩

def ContentBlock.use? : ContentBlock → Option ToolUseBlock
  | .toolUse use => some use
  | _ => none

def ContentBlock.result? : ContentBlock → Option ToolResultBlock
  | .toolResult result => some result
  | _ => none

def toolUses (content : List ContentBlock) : List ToolUseBlock := content.filterMap (·.use?)

def toolResults (content : List ContentBlock) : List ToolResultBlock :=
  content.filterMap (·.result?)

/-- What an adapter returns: no adapter makes a tool result of a reply. -/
inductive ReplyBlock where
  | text (text : String)
  | toolUse (use : ToolUseBlock)
  | verbatim (block : OpaqueBlock)
  deriving DecidableEq, Repr

def ReplyBlock.block : ReplyBlock → ContentBlock
  | .text s => .text s
  | .toolUse u => .toolUse u
  | .verbatim o => .verbatim o

inductive StopReason where
  | endTurn
  | toolUse
  | maxTokens
  | refusal
  | other
  deriving DecidableEq, Repr

structure ModelResponse where
  reply : List ReplyBlock
  stopReason : StopReason
  parsed : Bool
  outputIssues : List String
  deriving DecidableEq, Repr

def ModelResponse.content (r : ModelResponse) : List ContentBlock := r.reply.map ReplyBlock.block

def ModelResponse.toolUses (r : ModelResponse) : List ToolUseBlock := Agents.toolUses r.content

/-- The issues `_loop` finds before any validator runs. -/
def ModelResponse.issues (r : ModelResponse) : List String :=
  let issues := r.outputIssues ++ if r.stopReason = .maxTokens then
    ["the reply was cut off (max_tokens); reply with the complete output"] else []
  if r.parsed = false ∧ issues = [] then ["no structured output in the reply"] else issues

def repairPrompt (issues : List String) : String :=
  "Your previous reply did not pass evaluation. Issues:\n" ++
    String.intercalate "\n" (issues.map fun issue => "- " ++ issue) ++
    "\nReply again with the complete, corrected output."

structure Behavior where
  toolNames : List String
  maxSteps : Nat
  repairLimit : Nat

inductive StepKind where
  | think
  | repair
  | act
  | observe
  | evaluate
  deriving DecidableEq, Repr

structure AgentStep where
  kind : StepKind
  messagesAfter : List Message
  deriving DecidableEq, Repr

inductive ApprovalState where
  | pending
  | approved
  | rejected
  | expired
  deriving DecidableEq, Repr

/-- Who may settle an approval: a person, or the agent a domain named for it. -/
inductive Decider where
  | human
  | delegate
  deriving DecidableEq, Repr

/-- An approval of the run, with the payload of `_one_tool`. -/
structure Approval where
  tool : String
  args : Args
  toolCallId : String
  state : ApprovalState
  decidedBy : Option Decider
  deriving DecidableEq, Repr

/-- `_State`: what the worker holds in memory. -/
structure Memory where
  messages : List Message
  results : List ToolResultBlock
  modelCalls : Nat
  repairsUsed : Nat
  evalRound : Nat
  repairing : Bool
  /-- The keys of `approved`. -/
  approved : List String
  deriving DecidableEq, Repr

/-- Nothing: the worker was released. -/
def Memory.released : Memory := ⟨[], [], 0, 0, 0, false, []⟩

inductive Stage where
  | thinking
  | deciding (uses : List ToolUseBlock)
  | invoking (uses : List ToolUseBlock)
  | evaluating (parsed : Bool) (issues : List String)
  | waiting
  | ready
  | ended
  deriving DecidableEq, Repr

structure AgentRun where
  memory : Memory
  stage : Stage
  steps : List AgentStep
  approvals : List Approval
  /-- The messages of every request sent. -/
  requests : List (List Message)
  /-- The calls that `invoke` was made for. -/
  invocations : List ToolUseBlock
  /-- What the policy engine allowed. -/
  allowed : List (String × Args)
  deriving DecidableEq, Repr

inductive Decision where
  | allow
  | deny
  | needsApproval
  deriving DecidableEq, Repr

/-- What `invoke` of the registry gives; a name that is not registered raises. -/
inductive Invocation where
  | unknownTool (message : String)
  | returned (content : String) (isError : Bool)
  deriving DecidableEq, Repr

inductive Act where
  | call (response : ModelResponse)
  | exceed
  | evaluate (found : List String)
  | unknown
  | policy (decision : Decision)
  | recall
  | invoke (invocation : Invocation)
  | approve (by_ : Decider)
  | reject (by_ : Decider)
  | renew
  | resume
  | stop
  deriving DecidableEq, Repr

def Memory.resultMessage (results : List ToolResultBlock) : Message :=
  ⟨.user, results.map .toolResult⟩

/-- `messages_after`. -/
def Memory.after (m : Memory) : List Message :=
  if m.results = [] then m.messages else m.messages ++ [Memory.resultMessage m.results]

/-- `_record`. -/
def AgentRun.record (s : AgentRun) (kind : StepKind) : AgentRun :=
  { s with steps := s.steps ++ [⟨kind, s.memory.after⟩] }

def AgentRun.end_ (s : AgentRun) : AgentRun := { s with stage := .ended }

/-- What `_act` does with the result of its first call: the next call, or the next message. -/
def AgentRun.acted (s : AgentRun) (rest : List ToolUseBlock) : AgentRun :=
  match rest with
  | [] =>
    { s with
      memory := { s.memory with
        messages := s.memory.messages ++ [Memory.resultMessage s.memory.results]
        results := [] }
      stage := .thinking }
  | rest => { s with stage := .deciding rest }

def AgentRun.addResult (s : AgentRun) (r : ToolResultBlock) : AgentRun :=
  { s with memory := { s.memory with results := s.memory.results ++ [r] } }

def unknownTool (b : Behavior) (use : ToolUseBlock) : ToolResultBlock :=
  ⟨use.id, "unknown tool '" ++ use.name ++ "'; available: " ++
    String.intercalate ", " b.toolNames, true⟩

/-- `_call_model` and what `_loop` makes of the reply. -/
def AgentRun.call (s : AgentRun) (r : ModelResponse) : AgentRun :=
  let kind := if s.memory.repairing then StepKind.repair else .think
  let s' := AgentRun.record { s with
    requests := s.requests ++ [s.memory.messages]
    memory := { s.memory with
      modelCalls := s.memory.modelCalls + 1
      repairing := false
      messages := s.memory.messages ++ [⟨.assistant, r.content⟩]
      results := [] } } kind
  if r.stopReason = .toolUse ∧ r.toolUses ≠ [] then { s' with stage := .deciding r.toolUses }
  else if r.stopReason = .refusal then s'.end_
  else { s' with stage := .evaluating r.parsed r.issues }

/-- The issues once the validators ran. -/
def evaluated (parsed : Bool) (issues found : List String) : List String :=
  if parsed ∧ issues = [] then found else issues

/-- `_evaluate`. -/
def AgentRun.evaluate (b : Behavior) (s : AgentRun) (issues : List String) : AgentRun :=
  let s' := AgentRun.record { s with
    memory := { s.memory with evalRound := s.memory.evalRound + 1 } } .evaluate
  if issues = [] then s'.end_
  else if s.memory.repairsUsed < b.repairLimit then
    { s' with
      memory := { s'.memory with
        repairsUsed := s.memory.repairsUsed + 1
        messages := s.memory.messages ++ [Message.user (repairPrompt issues)]
        repairing := true }
      stage := .thinking }
  else s'.end_

def AgentRun.isWaiting (s : AgentRun) : Bool := s.approvals.any fun a => a.state = .pending

/-- A call that needs approval: the step, the approval, and the worker is released. -/
def AgentRun.suspend (s : AgentRun) (use : ToolUseBlock) : AgentRun :=
  let s' := s.record .observe
  if s.isWaiting then s'.end_
  else { s' with
    approvals := s.approvals ++ [⟨use.name, use.input, use.id, .pending, none⟩]
    memory := .released
    stage := .waiting }

/-- The pending approval is settled. -/
def AgentRun.settle (s : AgentRun) (state : ApprovalState) (by_ : Option Decider) :
    List Approval :=
  s.approvals.map fun a => if a.state = .pending then { a with state := state, decidedBy := by_ }
    else a

/-- The results of a turn that is not finished, taken off the stored conversation. -/
def unfinished (messages : List Message) : List Message × List ToolResultBlock :=
  match messages.getLast? with
  | none => (messages, [])
  | some last =>
    if last.role = .user ∧ toolResults last.content ≠ [] then
      (messages.dropLast, toolResults last.content)
    else (messages, [])

/-- The calls of the last turn that have no result. -/
def pendingUses (messages : List Message) (results : List ToolResultBlock) :
    List ToolUseBlock :=
  match messages.getLast? with
  | none => []
  | some last =>
    if last.role = .assistant then
      (toolUses last.content).filter fun u => u.id ∉ results.map ToolResultBlock.toolUseId
    else []

def countOf (steps : List AgentStep) (kind : StepKind) : Nat :=
  steps.countP fun step => step.kind = kind

/-- The approved calls: those with an id. -/
def approvedIds (approvals : List Approval) : List String :=
  ((approvals.filter fun a => a.state = .approved).map Approval.toolCallId).filter (· ≠ "")

/-- `_resume`, from the last step's blob. -/
def resumed (stored : List Message) (steps : List AgentStep) (approvals : List Approval) :
    Memory × List ToolUseBlock :=
  let (messages, results) := unfinished stored
  ({ messages := messages
     results := results
     modelCalls := countOf steps .think + countOf steps .repair
     repairsUsed := countOf steps .repair
     evalRound := countOf steps .evaluate
     repairing := false
     approved := approvedIds approvals }, pendingUses messages results)

def AgentRun.step (b : Behavior) (s : AgentRun) (a : Act) : Option AgentRun :=
  match s.stage, a with
  | .thinking, .exceed => if b.maxSteps ≤ s.memory.modelCalls then some s.end_ else none
  | .thinking, .call r => if s.memory.modelCalls < b.maxSteps then some (s.call r) else none
  | .evaluating parsed issues, .evaluate found =>
    some (s.evaluate b (evaluated parsed issues found))
  | .deciding (use :: rest), .unknown =>
    if use.name ∈ b.toolNames then none
    else some ((s.addResult (unknownTool b use)).acted rest)
  | .deciding (use :: rest), .recall =>
    if use.name ∈ b.toolNames ∧ use.id ∈ s.memory.approved then
      some { s with stage := .invoking (use :: rest) }
    else none
  | .deciding (use :: rest), .policy decision =>
    if use.name ∈ b.toolNames ∧ use.id ∉ s.memory.approved then
      match decision with
      | .allow => some { s with
          allowed := s.allowed ++ [(use.name, use.input)]
          stage := .invoking (use :: rest) }
      | .deny => some s.end_
      | .needsApproval => some (s.suspend use)
    else none
  | .invoking (use :: rest), .invoke invocation =>
    let s' := { s with invocations := s.invocations ++ [use] }
    match invocation with
    | .unknownTool message => some ((s'.addResult ⟨use.id, message, true⟩).acted rest)
    | .returned content isError =>
      some (((s'.addResult ⟨use.id, content, isError⟩).record .act).acted rest)
  | .waiting, .approve by_ =>
    some { s with approvals := s.settle .approved (some by_), stage := .ready }
  | .waiting, .reject by_ =>
    some { s with approvals := s.settle .rejected (some by_), stage := .ended }
  | .waiting, .renew =>
    -- an expired approval is asked again, with the same payload
    let again := (s.approvals.filter fun a => a.state = .pending)
    some { s with approvals := s.settle .expired none ++ again }
  | .ready, .resume =>
    match s.steps.getLast? with
    | none => some s.end_
    | some last =>
      let (memory, uses) := resumed last.messagesAfter s.steps s.approvals
      some { s with
        memory := memory
        stage := if uses = [] then .thinking else .deciding uses }
  | .thinking, .stop | .deciding _, .stop | .invoking _, .stop | .evaluating _ _, .stop =>
    some s.end_
  | _, _ => none

/-- The run as it starts, with what it observes. -/
def AgentRun.start (observe : String) : AgentRun :=
  { memory := ⟨[Message.user observe], [], 0, 0, 0, false, []⟩
    stage := .thinking
    steps := []
    approvals := []
    requests := []
    invocations := []
    allowed := [] }

def running (b : Behavior) : System AgentRun Act where
  init s := ∃ observe, s = .start observe
  step s a s' := s.step b a = some s'

/-! What is stored is what was there. -/

@[simp] theorem toolResults_results (results : List ToolResultBlock) :
    toolResults (results.map .toolResult) = results := by
  induction results with
  | nil => rfl
  | cons r rs ih =>
    show r :: toolResults (rs.map .toolResult) = _
    rw [ih]

@[simp] theorem toolUses_results (results : List ToolResultBlock) :
    toolUses (results.map .toolResult) = [] := by
  induction results with
  | nil => rfl
  | cons r rs ih => exact ih

@[simp] theorem toolResults_content (r : ModelResponse) : toolResults r.content = [] := by
  have hnone : ∀ x ∈ r.content, x.result? = none := by
    intro x hx
    obtain ⟨y, _, rfl⟩ := List.mem_map.mp hx
    cases y <;> rfl
  exact List.filterMap_eq_nil_iff.mpr hnone

/-- The stored conversation of a turn gives back its messages and its results. -/
theorem unfinished_after {m : Memory} {pre : List Message} {content : List ContentBlock}
    (hm : m.messages = pre ++ [⟨.assistant, content⟩]) :
    unfinished m.after = (m.messages, m.results) := by
  by_cases h : m.results = []
  · have hafter : m.after = m.messages := if_pos h
    rw [hafter, unfinished, hm, List.getLast?_concat, h]
    simp
  · have hafter : m.after = m.messages ++ [Memory.resultMessage m.results] := if_neg h
    rw [hafter, unfinished, List.getLast?_concat]
    simp [Memory.resultMessage, h]

theorem pendingUses_turn {messages pre : List Message} {content : List ContentBlock}
    (hm : messages = pre ++ [⟨.assistant, content⟩]) (results : List ToolResultBlock) :
    pendingUses messages results = (toolUses content).filter fun u =>
      u.id ∉ results.map ToolResultBlock.toolUseId := by
  rw [hm, pendingUses, List.getLast?_concat]
  simp

end Autora.Agents
