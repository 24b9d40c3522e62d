import Mathlib.Data.List.Nodup
import Autora.Conversations

/-! The requests a run sends, as its adapters translate them: every call of a
message is answered in the next one. -/

namespace Autora.Agents

open Systems

variable {b : Behavior} {s s' : AgentRun}

/-! Well-formed conversations. -/

section

variable {μ : Type} {calls results : μ → List String} {due : List String} {xs ys : List μ}

/-- `due` are the calls of the message before: the next message answers each of them exactly
once and answers nothing else, and the last message calls nothing. -/
def Answered (calls results : μ → List String) : List String → List μ → Prop
  | due, [] => due = []
  | due, m :: ms => (∀ id ∈ due, (results m).count id = 1) ∧ (∀ id ∈ results m, id ∈ due) ∧
      Answered calls results (calls m) ms

instance (calls results : μ → List String) : ∀ due ms, Decidable (Answered calls results due ms)
  | due, [] => inferInstanceAs (Decidable (due = []))
  | _, m :: ms =>
    have := instDecidableAnswered calls results (calls m) ms
    inferInstanceAs (Decidable (_ ∧ _ ∧ _))

theorem Answered.append (h : Answered calls results due xs) (h' : Answered calls results [] ys) :
    Answered calls results due (xs ++ ys) := by
  induction xs generalizing due with
  | nil =>
    have hdue : due = [] := h
    rw [hdue]
    exact h'
  | cons m ms ih => exact ⟨h.1, h.2.1, ih h.2.2⟩

end

/-! The Anthropic adapter. -/

inductive AnthropicBlock where
  | text (text : String)
  | toolUse (use : ToolUseBlock)
  | toolResult (result : ToolResultBlock)
  | raw (data : String)
  deriving DecidableEq, Repr

structure AnthropicMessage where
  role : Role
  content : List AnthropicBlock
  deriving DecidableEq, Repr

def AnthropicMessage.calls (m : AnthropicMessage) : List String :=
  m.content.filterMap fun
    | .toolUse use => some use.id
    | _ => none

def AnthropicMessage.results (m : AnthropicMessage) : List String :=
  m.content.filterMap fun
    | .toolResult result => some result.toolUseId
    | _ => none

def anthropic : String := "anthropic"

/-- `_block_param`. -/
def blockParam : ContentBlock → Option AnthropicBlock
  | .text s => some (.text s)
  | .toolUse u => some (.toolUse u)
  | .toolResult r => some (.toolResult r)
  | .verbatim o => if o.provider = anthropic then some (.raw o.data) else none

/-- `_kind`. -/
def ContentBlock.kind : ContentBlock → String
  | .text _ => "text"
  | .toolUse _ => "tool_use"
  | .toolResult _ => "tool_result"
  | .verbatim o => o.type

def ContentBlock.isFallback : ContentBlock → Bool
  | .verbatim o => o.type = "fallback"
  | _ => false

def notEchoedBeforeFallback : List String := ["thinking", "redacted_thinking", "tool_use"]

/-- `_after_fallback_boundary`: a block is before the last marker if a marker comes later. -/
def afterFallbackBoundary : List ContentBlock → List ContentBlock
  | [] => []
  | x :: xs =>
    if xs.any ContentBlock.isFallback && x.kind ∈ notEchoedBeforeFallback then
      afterFallbackBoundary xs
    else x :: afterFallbackBoundary xs

/-- `_message`. -/
def anthropicMessage (m : Message) : AnthropicMessage :=
  let blocks := match m.role with
    | .assistant => afterFallbackBoundary m.content
    | .user => m.content
  ⟨m.role, blocks.filterMap blockParam⟩

/-! The OpenAI-compatible adapter. -/

structure OpenAICall where
  use : ToolUseBlock
  extraContent : Option String
  deriving DecidableEq, Repr

inductive OpenAIMessage where
  | system (content : String)
  | user (content : String)
  | assistant (content : Option String) (toolCalls : List OpenAICall)
  | tool (toolCallId content : String)
  deriving DecidableEq, Repr

def OpenAIMessage.calls : OpenAIMessage → List String
  | .assistant _ toolCalls => toolCalls.map fun c => c.use.id
  | _ => []

/-- `due` are the calls of the last assistant message without an answer: the messages after
it answer each exactly once, and nothing else comes before they have. -/
def OpenAIAnswered : List String → List OpenAIMessage → Prop
  | due, [] => due = []
  | due, .tool id _ :: ms => due.count id = 1 ∧ OpenAIAnswered (due.erase id) ms
  | due, m :: ms => due = [] ∧ m.calls.Nodup ∧ OpenAIAnswered m.calls ms

def toolCallExtra : String := "tool_call_extra"

def joined (content : List ContentBlock) : String :=
  String.join (content.filterMap fun
    | .text s => some s
    | _ => none)

/-- `extra_content` of a call, from the last block that has it. -/
def extraContent (name : String) (content : List ContentBlock) (id : String) : Option String :=
  (content.filterMap fun
    | .verbatim o => if o.provider = name ∧ o.type = toolCallExtra ∧ o.toolCallId = id then
        some o.data else none
    | _ => none).getLast?

/-- `_messages` of the provider called `name`. -/
def openAIMessages (name : String) (m : Message) : List OpenAIMessage :=
  let text := joined m.content
  match m.role with
  | .assistant =>
    [.assistant (if text = "" then none else some text)
      ((toolUses m.content).map fun u => ⟨u, extraContent name m.content u.id⟩)]
  | .user =>
    (toolResults m.content).map (fun r => .tool r.toolUseId r.content) ++
      if text = "" then [] else [.user text]

/-- The messages of `_body`. -/
def openAIBody (name system : String) (messages : List Message) : List OpenAIMessage :=
  (if system = "" then [] else [.system system]) ++ messages.flatMap (openAIMessages name)

/-- However it is translated, a request is a well-formed conversation. -/
def WellFormed (request : List Message) : Prop :=
  Answered AnthropicMessage.calls AnthropicMessage.results [] (request.map anthropicMessage) ∧
    ∀ name system, OpenAIAnswered [] (openAIBody name system request)

/-! What the replies must be. -/

/-- A call stands before a fallback marker. -/
def callsBeforeFallback : List ContentBlock → Bool
  | [] => false
  | x :: xs => (x.use?.isSome && xs.any ContentBlock.isFallback) || callsBeforeFallback xs

/-- The calls of a reply that are run have their own ids, and none is before a fallback. -/
def Runnable (content : List ContentBlock) : Prop :=
  ((toolUses content).map ToolUseBlock.id).Nodup ∧ callsBeforeFallback content = false

/-- A reply that is sent back calls nothing. -/
def CallsNothing (content : List ContentBlock) : Prop := toolUses content = []

theorem toolUses_cons (x : ContentBlock) (xs : List ContentBlock) :
    toolUses (x :: xs) = x.use?.toList ++ toolUses xs := by
  unfold toolUses
  cases h : x.use? <;> simp [h]

theorem toolUses_afterFallbackBoundary {content : List ContentBlock}
    (h : callsBeforeFallback content = false) :
    toolUses (afterFallbackBoundary content) = toolUses content := by
  induction content with
  | nil => rfl
  | cons x xs ih =>
    simp only [callsBeforeFallback, Bool.or_eq_false_iff] at h
    simp only [afterFallbackBoundary]
    split
    · next hdrop =>
      simp only [Bool.and_eq_true] at hdrop
      have hno : x.use? = none := by
        have hx := h.1
        rw [hdrop.1, Bool.and_true] at hx
        simpa using hx
      rw [toolUses_cons, hno, ih h.2]
      rfl
    · rw [toolUses_cons, toolUses_cons, ih h.2]

theorem toolResults_afterFallbackBoundary {content : List ContentBlock}
    (h : toolResults content = []) : toolResults (afterFallbackBoundary content) = [] := by
  refine List.filterMap_eq_nil_iff.mpr fun x hx => ?_
  have hsub : ∀ xs : List ContentBlock, ∀ x ∈ afterFallbackBoundary xs, x ∈ xs := by
    intro xs
    induction xs with
    | nil => exact fun _ hx => hx
    | cons y ys ih =>
      intro x hx
      simp only [afterFallbackBoundary] at hx
      split at hx
      · exact List.mem_cons_of_mem _ (ih x hx)
      · rcases List.mem_cons.mp hx with rfl | hx
        · exact List.mem_cons_self
        · exact List.mem_cons_of_mem _ (ih x hx)
  exact List.filterMap_eq_nil_iff.mp h x (hsub content x hx)

/-- The ids that go over the wire are those of the blocks. -/
theorem calls_blockParam (role : Role) (blocks : List ContentBlock) :
    (AnthropicMessage.mk role (blocks.filterMap blockParam)).calls =
      (toolUses blocks).map ToolUseBlock.id := by
  unfold AnthropicMessage.calls toolUses
  simp only [List.filterMap_filterMap, List.map_filterMap]
  refine List.filterMap_congr fun x _ => ?_
  cases x with
  | verbatim o =>
    simp only [blockParam, ContentBlock.use?]
    split <;> rfl
  | _ => rfl

theorem results_blockParam (role : Role) (blocks : List ContentBlock) :
    (AnthropicMessage.mk role (blocks.filterMap blockParam)).results =
      (toolResults blocks).map ToolResultBlock.toolUseId := by
  unfold AnthropicMessage.results toolResults
  simp only [List.filterMap_filterMap, List.map_filterMap]
  refine List.filterMap_congr fun x _ => ?_
  cases x with
  | verbatim o =>
    simp only [blockParam, ContentBlock.result?]
    split <;> rfl
  | _ => rfl

/-- A turn as the Anthropic adapter sends it. -/
theorem answered_turn {content reply : List ContentBlock} (hno : toolResults content = [])
    (hback : callsBeforeFallback content = false) (hcalls : toolUses reply = [])
    (hnodup : ((toolUses content).map ToolUseBlock.id).Nodup)
    (hids : (toolResults reply).map ToolResultBlock.toolUseId =
      (toolUses content).map ToolUseBlock.id) :
    Answered AnthropicMessage.calls AnthropicMessage.results []
      ([⟨.assistant, content⟩, ⟨.user, reply⟩].map anthropicMessage) := by
  have hacalls : (anthropicMessage ⟨.assistant, content⟩).calls =
      (toolUses content).map ToolUseBlock.id := by
    rw [anthropicMessage, calls_blockParam, toolUses_afterFallbackBoundary hback]
  have haresults : (anthropicMessage ⟨.assistant, content⟩).results = [] := by
    rw [anthropicMessage, results_blockParam, toolResults_afterFallbackBoundary hno]
    rfl
  have hrcalls : (anthropicMessage ⟨.user, reply⟩).calls = [] := by
    rw [anthropicMessage, calls_blockParam, hcalls]
    rfl
  have hrresults : (anthropicMessage ⟨.user, reply⟩).results =
      (toolUses content).map ToolUseBlock.id := by
    rw [anthropicMessage, results_blockParam, hids]
  simp only [List.map_cons, List.map_nil, Answered, hacalls, haresults, hrcalls, hrresults]
  refine ⟨by simp, by simp, fun id hid => List.count_eq_one_of_mem hnodup hid, fun _ hid => hid, ?_⟩
  trivial

theorem OpenAIAnswered.append {xs ys : List OpenAIMessage} {due : List String}
    (h : OpenAIAnswered due xs) (h' : OpenAIAnswered [] ys) : OpenAIAnswered due (xs ++ ys) := by
  induction xs generalizing due with
  | nil =>
    have hdue : due = [] := h
    rw [hdue]
    exact h'
  | cons m ms ih =>
    cases m with
    | tool id content => exact ⟨h.1, ih h.2⟩
    | system content => exact ⟨h.1, h.2.1, ih h.2.2⟩
    | user content => exact ⟨h.1, h.2.1, ih h.2.2⟩
    | assistant content toolCalls => exact ⟨h.1, h.2.1, ih h.2.2⟩

/-- The results of a turn, in the order of its calls. -/
theorem openAIAnswered_results {results : List ToolResultBlock} {rest : List OpenAIMessage}
    (hnodup : (results.map ToolResultBlock.toolUseId).Nodup) (h : OpenAIAnswered [] rest) :
    OpenAIAnswered (results.map ToolResultBlock.toolUseId)
      (results.map (fun r => .tool r.toolUseId r.content) ++ rest) := by
  induction results with
  | nil => exact h
  | cons r rs ih =>
    rw [List.map_cons] at hnodup
    refine ⟨List.count_eq_one_of_mem hnodup List.mem_cons_self, ?_⟩
    rw [List.map_cons, List.erase_cons_head]
    exact ih (List.nodup_cons.mp hnodup).2

theorem openAIAnswered_turn {content reply : List ContentBlock} (name : String)
    (hnodup : ((toolUses content).map ToolUseBlock.id).Nodup)
    (hids : (toolResults reply).map ToolResultBlock.toolUseId =
      (toolUses content).map ToolUseBlock.id) :
    OpenAIAnswered []
      ([⟨.assistant, content⟩, ⟨.user, reply⟩].flatMap (openAIMessages name)) := by
  have hcalls : ∀ text, (OpenAIMessage.assistant text ((toolUses content).map fun u =>
      ⟨u, extraContent name content u.id⟩)).calls = (toolUses content).map ToolUseBlock.id := by
    intro text
    simp [OpenAIMessage.calls, Function.comp_def]
  simp only [List.flatMap_cons, List.flatMap_nil, List.append_nil, openAIMessages,
    List.singleton_append]
  refine ⟨rfl, by rw [hcalls]; exact hnodup, ?_⟩
  rw [hcalls, ← hids]
  refine openAIAnswered_results (by rw [hids]; exact hnodup) ?_
  split
  · rfl
  · exact ⟨rfl, List.nodup_nil, rfl⟩

/-! Every request. -/

theorem Exchanges.wellFormed {names : List String} {ms : List Message}
    {executed : List ToolUseBlock} (h : Exchanges Runnable CallsNothing names ms executed) :
    WellFormed ms := by
  have hboth : Answered AnthropicMessage.calls AnthropicMessage.results [] (ms.map anthropicMessage) ∧
      ∀ name, OpenAIAnswered [] (ms.flatMap (openAIMessages name)) := by
    induction h with
    | start text =>
      refine ⟨⟨by simp, by simp [Message.user, anthropicMessage, AnthropicMessage.results,
        blockParam], rfl⟩, fun name => ?_⟩
      simp only [List.flatMap_cons, List.flatMap_nil, List.append_nil, openAIMessages, Message.user]
      show OpenAIAnswered [] (if _ then _ else _)
      split
      · rfl
      · exact ⟨rfl, List.nodup_nil, rfl⟩
    | answered _ hno hp hr ih =>
      rw [List.map_append]
      refine ⟨ih.1.append (answered_turn hno hp.2 (toolUses_results _) hp.1 ?_), fun name => ?_⟩
      · rw [toolResults_results, hr]
      · rw [List.flatMap_append]
        refine (ih.2 name).append (openAIAnswered_turn name hp.1 ?_)
        rw [toolResults_results, hr]
    | @sentBack _ _ content text _ hno hq ih =>
      have hq' : toolUses content = [] := hq
      have hback : callsBeforeFallback content = false := by
        have hnone : ∀ xs : List ContentBlock, toolUses xs = [] → callsBeforeFallback xs = false := by
          intro xs
          induction xs with
          | nil => exact fun _ => rfl
          | cons x xs ihx =>
            intro hx
            rw [toolUses_cons] at hx
            obtain ⟨hx, hxs⟩ := List.append_eq_nil_iff.mp hx
            have hnone : x.use? = none := by simpa using hx
            simp [callsBeforeFallback, hnone, ihx hxs]
        exact hnone content hq'
      rw [List.map_append]
      refine ⟨ih.1.append (answered_turn hno hback rfl ?_ ?_), fun name => ?_⟩
      · rw [hq']
        exact List.nodup_nil
      · rw [hq']
        rfl
      · rw [List.flatMap_append]
        refine (ih.2 name).append (openAIAnswered_turn name ?_ ?_)
        · rw [hq']
          exact List.nodup_nil
        · rw [hq']
          rfl
  refine ⟨hboth.1, fun name system => ?_⟩
  unfold openAIBody
  split
  · exact hboth.2 name
  · exact ⟨rfl, List.nodup_nil, hboth.2 name⟩

/-- Only `_call_model` sends a request, with the conversation as it is. -/
theorem step_requests {a : Act} (hs : s.step b a = some s') : s'.requests = s.requests ∨
    (s.stage = .thinking ∧ s'.requests = s.requests ++ [s.memory.messages]) := by
  unfold AgentRun.step at hs
  split at hs
  · split at hs <;> cases hs
    exact .inl rfl
  · next hstage =>
    split at hs <;> cases hs
    refine .inr ⟨hstage, ?_⟩
    unfold AgentRun.call
    simp only
    split
    · rfl
    · split <;> rfl
  · cases hs
    unfold AgentRun.evaluate
    simp only
    split
    · exact .inl rfl
    · split <;> exact .inl rfl
  · next rest _ =>
    split at hs <;> cases hs
    cases rest <;> exact .inl rfl
  · split at hs <;> cases hs
    exact .inl rfl
  · next decision _ =>
    split at hs
    · cases decision <;> cases hs
      · exact .inl rfl
      · exact .inl rfl
      · unfold AgentRun.suspend
        simp only
        split <;> exact .inl rfl
    · cases hs
  · next rest invocation _ =>
    cases invocation <;> cases hs <;> cases rest <;> exact .inl rfl
  · cases hs
    exact .inl rfl
  · cases hs
    exact .inl rfl
  · cases hs
    exact .inl rfl
  · split at hs <;> cases hs <;> exact .inl rfl
  · cases hs
    exact .inl rfl
  · cases hs
    exact .inl rfl
  · cases hs
    exact .inl rfl
  · cases hs
    exact .inl rfl
  · cases hs

/-- Every request of a run is a well-formed conversation, whichever adapter sends it. -/
theorem requests_wellFormed (b : Behavior) {s : AgentRun}
    (h : (running b).Reach (AgentRun.turnsAre Runnable CallsNothing b) s) :
    ∀ request ∈ s.requests, WellFormed request := by
  have hall : s.Coherent Runnable CallsNothing b.toolNames ∧
      ∀ request ∈ s.requests, WellFormed request := by
    refine h.invariant (I := fun s => s.Coherent Runnable CallsNothing b.toolNames ∧
      ∀ request ∈ s.requests, WellFormed request) ?_
        fun s a s' hc hok hs => ⟨coherent_step (fun _ hp => hp.1) hc.1 hok hs, ?_⟩
    · rintro s ⟨observe, rfl⟩
      exact ⟨coherent_start observe, fun request hr => by cases hr⟩
    · intro request hr
      rcases step_requests hs with he | ⟨hstage, he⟩
      · rw [he] at hr
        exact hc.2 request hr
      · rw [he] at hr
        rcases List.mem_append.mp hr with hr | hr
        · exact hc.2 request hr
        · have hcoh := hc.1
          rw [AgentRun.Coherent, hstage] at hcoh
          rw [List.mem_singleton.mp hr]
          exact Exchanges.wellFormed hcoh
  exact hall.2

/-! Replies that are cut off. -/

instance : DecidablePred Runnable := fun _ => inferInstanceAs (Decidable (_ ∧ _))

instance : DecidablePred CallsNothing := fun _ => inferInstanceAs (Decidable (_ = _))

def searching : Behavior := ⟨["search"], 8, 2⟩

def search (id : String) : ReplyBlock := .toolUse ⟨id, "search", "x"⟩

def endsWith (reply : List ReplyBlock) (stopReason : StopReason) : ModelResponse :=
  ⟨reply, stopReason, stopReason = .endTurn, []⟩

theorem cut_off_call_unanswered : ¬ ∀ (b : Behavior) (s : AgentRun),
    (running b).Reach anyStep s → ∀ request ∈ s.requests, WellFormed request := by
  intro h
  -- the reply is cut off after a call: it is sent back with a text, and the call stays
  let acts : List Act := [.call (endsWith [search "a"] .maxTokens), .evaluate [],
    .call (endsWith [.text "done"] .endTurn)]
  have hrun : (System.follow anyStep (AgentRun.step searching) (.start "find it") acts).map
      (fun s => decide (∀ request ∈ s.requests, Answered AnthropicMessage.calls
        AnthropicMessage.results [] (request.map anthropicMessage))) = some false := by
    decide +kernel
  obtain ⟨s, hs, hfalse⟩ := Option.map_eq_some_iff.mp hrun
  have hall := h searching s ⟨_, ⟨_, rfl⟩, System.follow_path (fun _ _ _ hs => hs) hs⟩
  exact of_decide_eq_false hfalse fun request hr => (hall request hr).1

theorem requests_wellFormed_resumed : ∃ s : AgentRun, s.requests.length = 4 ∧
    ∀ request ∈ s.requests, WellFormed request := by
  -- two calls of which one waits for its approval, and a reply that is sent back
  let acts : List Act := [.call (endsWith [search "a", search "b"] .toolUse), .policy .allow,
    .invoke (.returned "1" false), .policy .needsApproval, .approve .human, .resume, .recall,
    .invoke (.returned "2" false), .call (endsWith [.text "\x7b"] .maxTokens), .evaluate [],
    .call (endsWith [search "c"] .toolUse), .policy .allow, .invoke (.returned "3" false),
    .call (endsWith [.text "{}"] .endTurn), .evaluate []]
  have hrun : (System.follow (AgentRun.turnsAre Runnable CallsNothing searching)
      (AgentRun.step searching) (.start "find it") acts).map (fun s => s.requests.length) =
      some 4 := by decide +kernel
  obtain ⟨s, hs, hlen⟩ := Option.map_eq_some_iff.mp hrun
  exact ⟨s, hlen, requests_wellFormed searching
    ⟨_, ⟨_, rfl⟩, System.follow_path (fun _ _ _ hs => hs) hs⟩⟩

end Autora.Agents
