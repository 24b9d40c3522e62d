import Autora.Reservations

/-! The adapters of model services: what an HTTP answer becomes, for a completion and for
embeddings, and what a page's evidence keeps of the latter. -/

namespace Autora.Models

open Transactions Refusals Untyped
open Agents (StopReason)

/-- What Python, pydantic and the database make of texts and floats. -/
structure Library where
  /-- `json.loads`; a text that is no JSON is a `ValueError`. -/
  loads : Str → Except Error Value
  /-- `str(value)`. -/
  toStr : Value → Str
  /-- Whether a `str` field takes the text. -/
  takesStr : Str → Bool
  /-- The whole number an `int` field makes of a float. -/
  wholeNumber : Float → Option Int
  /-- `float(text)`. -/
  floatOf : Str → Option Float
  /-- `int(text)`. -/
  intOf : Str → Option Int
  /-- `int(x)`; neither NaN nor an infinity has one. -/
  truncated : Float → Option Int
  /-- A finite float as a fraction. -/
  ratioOf : Float → Option Rat
  /-- `f"call_{uuid.uuid4().hex[:12]}"`. -/
  newCallId : Nat → Str
  /-- Whether the `halfvec` column takes the vector. -/
  storesVector : List Float → Bool

/-! ## HTTP -/

structure HttpResponse where
  statusCode : Nat
  /-- What `json()` gives for the body. -/
  json : Except Error Value
  text : Str

/-- How one request ends. -/
inductive Exchange where
  | timeout (message : Str)
  | transportError (errorClass : String) (message : Str)
  -- a body that is not in the encoding its headers name: no `TransportError`
  | decodingError
  | response (r : HttpResponse)

/-- What leaves an adapter other than a reply. -/
inductive Failure where
  | provider (e : ProviderError)
  | value (e : Error)
  | decodingError

/-- The adapter gave a reply, or raised its own error. -/
def Answers {α : Type} (x : Except Failure α) : Prop :=
  Succeeds x ∨ ∃ e, x = .error (.provider e)

/-- A value's error, as it leaves the adapter. -/
def escaping {α : Type} : Except Error α → Except Failure α
  | .ok a => .ok a
  | .error e => .error (.value e)

structure Provider where
  name : String
  timeoutS : Str
  maxRetries : Nat

def retryableStatus : List Nat := [429, 500, 502, 503, 504]

-- `_error_class`
def statusClass (status : Nat) : String :=
  ([(400, "BadRequest"), (401, "AuthenticationError"), (403, "PermissionDenied"),
    (404, "NotFound"), (422, "UnprocessableEntity"), (429, "RateLimited")].lookup status).getD
    (if 500 ≤ status then "ServerError" else "HTTP" ++ toString status)

/-- `_error_message`. -/
def errorMessage (lib : Library) (r : HttpResponse) : Except Error Str :=
  match r.json with
  | .error .valueError => .ok (r.text.take 500)
  | .error e => .error e
  | .ok (.dict entries) =>
    let data := Value.dict entries
    let error := data.field (lit "error")
    if error.isDict = true then
      .ok ((lib.toStr ((error.field (lit "message")).orElse error)).take 500)
    else
      .ok ((lib.toStr (((data.field (lit "detail")).orElse (data.field (lit "message"))).orElse
        data)).take 500)
  | .ok data => .ok ((lib.toStr data).take 500)

def statusError (r : HttpResponse) (message : Str) : ProviderError where
  errorClass := statusClass r.statusCode
  message := lit "HTTP " ++ lit (toString r.statusCode) ++ lit ": " ++ message
  fallbackAllowed := r.statusCode ∈ retryableStatus

/-- One round of `_post`: it is over, or the request is sent again unless it was the last. -/
inductive Round where
  | over (x : Except Failure Value)
  | again (e : ProviderError)

def postOnce (lib : Library) (p : Provider) : Exchange → Round
  | .timeout message => .over (.error (.provider ⟨"Timeout",
      if message.isEmpty then lit "no reply within " ++ p.timeoutS ++ lit "s" else message, true⟩))
  | .transportError errorClass message => .again ⟨errorClass, message, true⟩
  | .decodingError => .over (.error .decodingError)
  | .response r =>
    if r.statusCode < 400 then .over (escaping r.json)
    else match errorMessage lib r with
      | .error e => .over (.error (.value e))
      | .ok message =>
        if r.statusCode ∈ retryableStatus then .again (statusError r message)
        else .over (.error (.provider (statusError r message)))

/-- `_post`, with the retries left. -/
def post (lib : Library) (p : Provider) (exchange : Nat → Exchange) :
    Nat → Nat → Except Failure Value
  | 0, attempt => match postOnce lib p (exchange attempt) with
    | .over x => x
    | .again e => .error (.provider e)
  | left + 1, attempt => match postOnce lib p (exchange attempt) with
    | .over x => x
    | .again _ => post lib p exchange left (attempt + 1)

/-! ## Completions -/

def strField (lib : Library) : Value → Except Error Str
  | .str s => if lib.takesStr s = true then .ok s else .error .validationError
  | _ => .error .validationError

-- the keys of a `dict[str, Any]`
def dictField (lib : Library) (entries : List (Str × Value)) : Except Error (List (Str × Value)) :=
  if entries.all (fun e => lib.takesStr e.1) = true then .ok entries else .error .validationError

def emptyDict : Value := .dict []

/-- `_arguments`. -/
def arguments (lib : Library) (raw : Value) : Except Error (List (Str × Value)) :=
  let unparsed := [(lit "_unparsed_arguments", Value.str (lib.toStr raw))]
  match raw with
  | .dict entries => .ok entries
  | .str s =>
    if s.isEmpty then .ok []
    else match lib.loads s with
      | .ok (.dict entries) => .ok entries
      | .ok _ => .ok unparsed
      | .error .valueError => .ok unparsed
      | .error e => .error e
  -- `json.loads` of anything else is a `TypeError`
  | raw => .ok (if raw.truthy = true then unparsed else [])

-- one of `tool_calls`
def toolCall (lib : Library) (p : Provider) (call : Value) (newId : Str) :
    Except Error (List Block) := do
  let function ← call.get (lit "function")
  let function := function.orElse emptyDict
  let id ← call.get (lit "id")
  let id := id.orElse (.str newId)
  let extra ← call.get (lit "extra_content")
  let kept := if extra.truthy = true then
    [Block.verbatim p.name [(lit "type", .str (lit "tool_call_extra")), (lit "tool_call_id", id),
      (lit "extra_content", extra)]] else []
  let name ← function.get (lit "name") (.str [])
  let raw ← function.get (lit "arguments")
  let input ← arguments lib raw
  let id ← strField lib id
  let name ← strField lib name
  let input ← dictField lib input
  pure (kept ++ [.toolUse id name input])

def stopReasons : List (Str × StopReason) :=
  [(lit "stop", .endTurn), (lit "tool_calls", .toolUse), (lit "function_call", .toolUse),
    (lit "length", .maxTokens), (lit "content_filter", .refusal)]

-- a dictionary's `get` needs a key that can be hashed
def stopReason (finish : Value) (hasCalls : Bool) : Except Error StopReason :=
  let key := finish.orElse (.str [])
  if key.hashable = true then
    let stop := match key with
      | .str s => (stopReasons.lookup s).getD .other
      | _ => .other
    .ok (if hasCalls = true ∧ stop = .endTurn then .toolUse else stop)
  else .error .typeError

-- `usage.get(key) or 0`
def orZero (usage : Value) (key : String) : Value := (usage.field (lit key)).orElse (.int 0)

-- an `int` field that is not negative
def whole (lib : Library) (n : Value.Number) : Except Error Nat :=
  let given := match n with
    | .int n => some n
    | .float x => lib.wholeNumber x
  match given with
  | some n => if 0 ≤ n then .ok n.toNat else .error .validationError
  | none => .error .validationError

def inputTokens (prompt cached : Value.Number) : Except Error Value.Number := do
  let rest ← prompt.sub cached
  pure rest.max0

/-- `_billed_output`. -/
def billedOutput (prompt completion total : Value.Number) : Except Error Value.Number := do
  let rest ← total.sub prompt
  let rest ← rest.sub completion
  completion.add rest.max0

def usageOf (lib : Library) (usage : Value) : Except Error Usage := do
  let details ← usage.get (lit "prompt_tokens_details")
  let cached ← (details.orElse emptyDict).get (lit "cached_tokens")
  let cached ← (cached.orElse (.int 0)).operand
  let prompt ← (orZero usage "prompt_tokens").operand
  let completion ← (orZero usage "completion_tokens").operand
  let total ← (orZero usage "total_tokens").operand
  let input ← inputTokens prompt cached
  let output ← billedOutput prompt completion total
  let input ← whole lib input
  let output ← whole lib output
  let cached ← whole lib cached
  pure { inputTokens := input, outputTokens := output, cacheReadTokens := cached }

def Block.isToolUse : Block → Bool
  | .toolUse .. => true
  | _ => false

-- the text of a reply's message, if there is any
def textOf (lib : Library) (content : Value) : Except Error (List Block) :=
  if content.truthy = true then do
    let s ← strField lib content
    pure [.text s]
  else .ok []

def callsOf (lib : Library) (p : Provider) (calls : Value) : Except Error (List Block) := do
  let calls ← (calls.orElse (.list [])).iter
  let blocks ← calls.zipIdx.mapM fun c => toolCall lib p c.1 (lib.newCallId c.2)
  pure blocks.flatten

-- what follows the choice and its message in `_response`
def translated (lib : Library) (p : Provider) (binding : ModelBinding)
    (data choice message : Value) : Except Error ProviderResponse := do
  let reasoning ← message.get (lit "reasoning_content")
  let reasoning' ← message.get (lit "reasoning")
  let reasoning := reasoning.orElse reasoning'
  let content ← message.get (lit "content")
  let text ← textOf lib content
  let calls ← message.get (lit "tool_calls")
  let calls ← callsOf lib p calls
  let kept := if reasoning.truthy = true then
    [Block.verbatim p.name [(lit "type", .str (lit "reasoning")), (lit "text", reasoning)]] else []
  let blocks := kept ++ text ++ calls
  let finish ← choice.get (lit "finish_reason")
  let stop ← stopReason finish (blocks.any Block.isToolUse)
  let usage ← data.get (lit "usage")
  let usage ← usageOf lib (usage.orElse emptyDict)
  let model ← data.get (lit "model")
  let modelId ← strField lib (model.orElse (.str binding.modelId))
  pure ⟨blocks, stop, usage, modelId⟩

def choiceOf (data : Value) : Except Error (Value × Value) := do
  let choices ← data.item (lit "choices")
  let choice ← choices.first
  let message ← choice.get (lit "message")
  pure (choice, message.orElse emptyDict)

/-- `_response`. -/
def responseOf (lib : Library) (p : Provider) (binding : ModelBinding) (data : Value) :
    Except Failure ProviderResponse :=
  match choiceOf data with
  | .ok (choice, message) => escaping (translated lib p binding data choice message)
  | .error .keyError | .error .indexError | .error .typeError => .error (.provider
      ⟨"InvalidResponse", lit "no choices in response: " ++ (lib.toStr data).take 500, true⟩)
  | .error e => .error (.value e)

/-- `OpenAICompatibleProvider.complete`, with what each of its requests meets. -/
def Provider.complete (lib : Library) (p : Provider) (binding : ModelBinding)
    (exchange : Nat → Exchange) : Except Failure ProviderResponse := do
  let data ← post lib p exchange p.maxRetries 0
  responseOf lib p binding data

/-! ## Which answers a completion's adapter can read -/

variable {lib : Library} {p : Provider} {binding : ModelBinding}

/-- A text that a `str` field takes. -/
def Taken (lib : Library) (v : Value) : Prop := ∃ s, v = .str s ∧ lib.takesStr s = true

def KeysTaken (lib : Library) (entries : List (Str × Value)) : Prop :=
  ∀ e ∈ entries, lib.takesStr e.1 = true

theorem strField_iff {v : Value} : Succeeds (strField lib v) ↔ Taken lib v := by
  cases v with
  | str s => by_cases h : lib.takesStr s = true <;> simp [strField, Taken, h]
  | _ => simp [strField, Taken]

theorem dictField_iff {entries : List (Str × Value)} :
    Succeeds (dictField lib entries) ↔ KeysTaken lib entries := by
  unfold dictField KeysTaken
  by_cases h : entries.all (fun e => lib.takesStr e.1) = true
  · rw [if_pos h]
    exact iff_of_true (succeeds_ok _) (List.all_eq_true.mp h)
  · rw [if_neg h]
    exact iff_of_false (not_succeeds_error _) fun hall => h (List.all_eq_true.mpr hall)

/-- The arguments are read as JSON, or kept as they are; their keys are texts. -/
def ArgumentsReadable (lib : Library) (raw : Value) : Prop :=
  ∃ input, arguments lib raw = .ok input ∧ KeysTaken lib input

structure CallReadable (lib : Library) (call : Value) (newId : Str) : Prop where
  isDict : call.isDict = true
  function : ((call.field (lit "function")).orElse emptyDict).isDict = true
  arguments : ArgumentsReadable lib
    (((call.field (lit "function")).orElse emptyDict).field (lit "arguments"))
  id : Taken lib ((call.field (lit "id")).orElse (.str newId))
  name : Taken lib (((call.field (lit "function")).orElse emptyDict).field (lit "name") (.str []))

theorem toolCall_iff {call : Value} {newId : Str} :
    Succeeds (toolCall lib p call newId) ↔ CallReadable lib call newId := by
  have hkeys : ∀ input : List (Str × Value), Succeeds (dictField lib input) ↔
      KeysTaken lib input := fun _ => dictField_iff
  simp only [toolCall, succeeds_get_bind]
  constructor
  · rintro ⟨hcall, -, -, hfunction, -, hrest⟩
    obtain ⟨input, hinput, hrest⟩ := succeeds_bind.mp hrest
    obtain ⟨id, hid, hrest⟩ := succeeds_bind.mp hrest
    obtain ⟨name, hname, hrest⟩ := succeeds_bind.mp hrest
    exact ⟨hcall, hfunction, ⟨input, hinput, (hkeys input).mp (succeeds_bind_pure.mp hrest)⟩,
      strField_iff.mp ⟨id, hid⟩, strField_iff.mp ⟨name, hname⟩⟩
  · rintro ⟨hcall, hfunction, ⟨input, hinput, htaken⟩, hid, hname⟩
    refine ⟨hcall, hcall, hcall, hfunction, hfunction, ?_⟩
    obtain ⟨id, hid⟩ := strField_iff.mpr hid
    obtain ⟨name, hname⟩ := strField_iff.mpr hname
    exact succeeds_bind.mpr ⟨input, hinput, succeeds_bind.mpr ⟨id, hid, succeeds_bind.mpr
      ⟨name, hname, succeeds_bind_pure.mpr ((hkeys input).mpr htaken)⟩⟩⟩

/-- There are calls to read, and each can be; or there are none. -/
def CallsReadable (lib : Library) (calls : Value) : Prop :=
  ∃ items, (calls.orElse (.list [])).iter = .ok items ∧
    ∀ c ∈ items.zipIdx, CallReadable lib c.1 (lib.newCallId c.2)

theorem callsOf_iff {calls : Value} : Succeeds (callsOf lib p calls) ↔ CallsReadable lib calls := by
  unfold callsOf CallsReadable
  rw [succeeds_bind]
  refine exists_congr fun items => and_congr_right fun _ => ?_
  rw [succeeds_bind_pure, succeeds_mapM]
  exact forall₂_congr fun c _ => toolCall_iff

theorem textOf_iff {content : Value} :
    Succeeds (textOf lib content) ↔ (content.truthy = true → Taken lib content) := by
  unfold textOf
  by_cases h : content.truthy = true
  · rw [if_pos h, succeeds_bind_pure, strField_iff]
    exact ⟨fun hs _ => hs, fun hs => hs h⟩
  · rw [if_neg h]
    exact iff_of_true (succeeds_ok _) fun htrue => absurd htrue h

theorem stopReason_iff {finish : Value} {hasCalls : Bool} :
    Succeeds (stopReason finish hasCalls) ↔ (finish.orElse (.str [])).hashable = true := by
  unfold stopReason
  by_cases h : (finish.orElse (.str [])).hashable = true
  · simp [h]
  · simp [h]

/-- The token counts are numbers, and what is billed of them is whole and not negative. -/
structure Countable (lib : Library) (usage : Value) : Prop where
  isDict : usage.isDict = true
  details : ((usage.field (lit "prompt_tokens_details")).orElse emptyDict).isDict = true
  counts : ∃ cached prompt completion total input output,
    ((((usage.field (lit "prompt_tokens_details")).orElse emptyDict).field
      (lit "cached_tokens")).orElse (.int 0)).number? = some cached ∧
    (orZero usage "prompt_tokens").number? = some prompt ∧
    (orZero usage "completion_tokens").number? = some completion ∧
    (orZero usage "total_tokens").number? = some total ∧
    inputTokens prompt cached = .ok input ∧ billedOutput prompt completion total = .ok output ∧
    Succeeds (whole lib input) ∧ Succeeds (whole lib output) ∧ Succeeds (whole lib cached)

theorem operand_ok_iff {v : Value} {n : Value.Number} : v.operand = .ok n ↔ v.number? = some n := by
  unfold Value.operand
  cases v.number? <;> simp

theorem usageOf_iff {usage : Value} : Succeeds (usageOf lib usage) ↔ Countable lib usage := by
  simp only [usageOf, succeeds_get_bind]
  constructor
  · rintro ⟨husage, hdetails, hrest⟩
    obtain ⟨cached, hcached, hrest⟩ := succeeds_bind.mp hrest
    obtain ⟨prompt, hprompt, hrest⟩ := succeeds_bind.mp hrest
    obtain ⟨completion, hcompletion, hrest⟩ := succeeds_bind.mp hrest
    obtain ⟨total, htotal, hrest⟩ := succeeds_bind.mp hrest
    obtain ⟨input, hinput, hrest⟩ := succeeds_bind.mp hrest
    obtain ⟨output, houtput, hrest⟩ := succeeds_bind.mp hrest
    obtain ⟨i, hi, hrest⟩ := succeeds_bind.mp hrest
    obtain ⟨o, ho, hrest⟩ := succeeds_bind.mp hrest
    exact ⟨husage, hdetails, cached, prompt, completion, total, input, output,
      operand_ok_iff.mp hcached, operand_ok_iff.mp hprompt, operand_ok_iff.mp hcompletion,
      operand_ok_iff.mp htotal, hinput, houtput, ⟨i, hi⟩, ⟨o, ho⟩, succeeds_bind_pure.mp hrest⟩
  · rintro ⟨husage, hdetails, cached, prompt, completion, total, input, output, hcached, hprompt,
      hcompletion, htotal, hinput, houtput, ⟨i, hi⟩, ⟨o, ho⟩, hc⟩
    refine ⟨husage, hdetails, ?_⟩
    exact succeeds_bind.mpr ⟨cached, operand_ok_iff.mpr hcached, succeeds_bind.mpr
      ⟨prompt, operand_ok_iff.mpr hprompt, succeeds_bind.mpr
      ⟨completion, operand_ok_iff.mpr hcompletion, succeeds_bind.mpr
      ⟨total, operand_ok_iff.mpr htotal, succeeds_bind.mpr ⟨input, hinput, succeeds_bind.mpr
      ⟨output, houtput, succeeds_bind.mpr ⟨i, hi, succeeds_bind.mpr
      ⟨o, ho, succeeds_bind_pure.mpr hc⟩⟩⟩⟩⟩⟩⟩⟩

/-- The message and what stands around it are of the shape the adapter walks. -/
structure ReplyReadable (lib : Library) (binding : ModelBinding) (data choice message : Value) :
    Prop where
  isMessage : message.isDict = true
  content : (message.field (lit "content")).truthy = true →
    Taken lib (message.field (lit "content"))
  calls : CallsReadable lib (message.field (lit "tool_calls"))
  isChoice : choice.isDict = true
  finish : ((choice.field (lit "finish_reason")).orElse (.str [])).hashable = true
  isReply : data.isDict = true
  usage : Countable lib ((data.field (lit "usage")).orElse emptyDict)
  model : Taken lib ((data.field (lit "model")).orElse (.str binding.modelId))

theorem translated_iff {data choice message : Value} :
    Succeeds (translated lib p binding data choice message) ↔
      ReplyReadable lib binding data choice message := by
  simp only [translated, succeeds_get_bind]
  constructor
  · rintro ⟨hmessage, -, -, hrest⟩
    obtain ⟨text, htext, hrest⟩ := succeeds_bind.mp hrest
    obtain ⟨-, hrest⟩ := succeeds_get_bind.mp hrest
    obtain ⟨calls, hcalls, hrest⟩ := succeeds_bind.mp hrest
    obtain ⟨hchoice, hrest⟩ := succeeds_get_bind.mp hrest
    obtain ⟨stop, hstop, hrest⟩ := succeeds_bind.mp hrest
    obtain ⟨hdata, hrest⟩ := succeeds_get_bind.mp hrest
    obtain ⟨usage, husage, hrest⟩ := succeeds_bind.mp hrest
    obtain ⟨-, hrest⟩ := succeeds_get_bind.mp hrest
    exact ⟨hmessage, textOf_iff.mp ⟨text, htext⟩, callsOf_iff.mp ⟨calls, hcalls⟩, hchoice,
      stopReason_iff.mp ⟨stop, hstop⟩, hdata, usageOf_iff.mp ⟨usage, husage⟩,
      strField_iff.mp (succeeds_bind_pure.mp hrest)⟩
  · rintro ⟨hmessage, htext, hcalls, hchoice, hfinish, hdata, husage, hmodel⟩
    refine ⟨hmessage, hmessage, hmessage, ?_⟩
    obtain ⟨text, htext⟩ := textOf_iff.mpr htext
    obtain ⟨calls, hcalls⟩ := (callsOf_iff (p := p)).mpr hcalls
    obtain ⟨usage, husage⟩ := usageOf_iff.mpr husage
    refine succeeds_bind.mpr ⟨text, htext, succeeds_get_bind.mpr ⟨hmessage, ?_⟩⟩
    refine succeeds_bind.mpr ⟨calls, hcalls, succeeds_get_bind.mpr ⟨hchoice, ?_⟩⟩
    refine (succeeds_bind_iff (P := True) fun stop _ => ?_).mpr ⟨stopReason_iff.mpr hfinish, trivial⟩
    refine iff_of_true (succeeds_get_bind.mpr ⟨hdata, ?_⟩) trivial
    refine succeeds_bind.mpr ⟨usage, husage, succeeds_get_bind.mpr ⟨hdata, ?_⟩⟩
    exact succeeds_bind_pure.mpr (strField_iff.mpr hmodel)

/-- Where the answer has a first choice, it and the rest can be read. -/
def ResponseReadable (lib : Library) (binding : ModelBinding) (data : Value) : Prop :=
  ∀ choices choice, data.item (lit "choices") = .ok choices → choices.first = .ok choice →
    ReplyReadable lib binding data choice ((choice.field (lit "message")).orElse emptyDict)

theorem answers_ok {α : Type} (a : α) : Answers (.ok a) := .inl (succeeds_ok a)

theorem answers_provider {α : Type} (e : ProviderError) :
    Answers (.error (.provider e) : Except Failure α) := .inr ⟨e, rfl⟩

theorem not_answers_value {α : Type} (e : Error) :
    ¬ Answers (.error (.value e) : Except Failure α) := by
  rintro (⟨a, h⟩ | ⟨e', h⟩) <;> cases h

theorem answers_escaping {α : Type} {x : Except Error α} : Answers (escaping x) ↔ Succeeds x := by
  cases x with
  | ok a => exact iff_of_true (answers_ok a) (succeeds_ok a)
  | error e => exact iff_of_false (not_answers_value e) (not_succeeds_error e)

theorem responseOf_iff {data : Value} :
    Answers (responseOf lib p binding data) ↔ ResponseReadable lib binding data := by
  unfold responseOf ResponseReadable
  cases hitem : data.item (lit "choices") with
  | error e =>
    have hchoice : choiceOf data = .error e := by
      simp [choiceOf, hitem, bind, Except.bind]
    refine iff_of_true ?_ fun choices choice h => ?_
    · rw [hchoice]
      rcases item_error hitem with rfl | rfl <;> exact answers_provider _
    · cases h
  | ok choices =>
    cases hfirst : choices.first with
    | error e =>
      have hchoice : choiceOf data = .error e := by
        simp [choiceOf, hitem, hfirst, bind, Except.bind]
      refine iff_of_true ?_ fun choices' choice h h' => ?_
      · rw [hchoice]
        rcases first_error hfirst with rfl | rfl | rfl <;> exact answers_provider _
      · cases h
        cases hfirst.symm.trans h'
    | ok choice =>
      have hall : (∀ choices' choice', (.ok choices : Except Error Value) = .ok choices' →
          choices'.first = .ok choice' → ReplyReadable lib binding data choice'
            ((choice'.field (lit "message")).orElse emptyDict)) ↔
          ReplyReadable lib binding data choice
            ((choice.field (lit "message")).orElse emptyDict) := by
        refine ⟨fun h => h choices choice rfl hfirst, fun h choices' choice' hc hf => ?_⟩
        cases hc
        cases hfirst.symm.trans hf
        exact h
      rw [hall]
      by_cases hdict : choice.isDict = true
      · have hchoice : choiceOf data =
            .ok (choice, (choice.field (lit "message")).orElse emptyDict) := by
          have hget := get_ok_iff.mpr ⟨hdict, (rfl : choice.field (lit "message") = _)⟩
          simp [choiceOf, hitem, hfirst, hget, bind, Except.bind, pure, Except.pure]
        rw [hchoice]
        exact answers_escaping.trans translated_iff
      · have hchoice : choiceOf data = .error .attributeError := by
          have hget : choice.get (lit "message") .none = .error .attributeError :=
            get_error (Bool.eq_false_iff.mpr hdict)
          simp [choiceOf, hitem, hfirst, hget, bind, Except.bind]
        rw [hchoice]
        exact iff_of_false (not_answers_value _) fun h => hdict h.isChoice

/-- The request ends in an error of the transport's own, in a reply whose JSON `good` can be
read from, or in an error status whose body is JSON or is not. -/
def Exchange.Readable (good : Value → Prop) : Exchange → Prop
  | .timeout _ | .transportError .. => True
  | .decodingError => False
  | .response r =>
    if r.statusCode < 400 then ∃ data, r.json = .ok data ∧ good data
    else ∀ e, r.json = .error e → e = .valueError

-- the adapter sends the request again after it
def Exchange.retried : Exchange → Bool
  | .transportError .. => true
  | .response r => 400 ≤ r.statusCode && r.statusCode ∈ retryableStatus
  | _ => false

/-- What a call meets: the first exchange, and the next ones while it is retried. -/
def met (exchange : Nat → Exchange) : Nat → Nat → List Exchange
  | 0, attempt => [exchange attempt]
  | left + 1, attempt => exchange attempt ::
      if (exchange attempt).retried = true then met exchange left (attempt + 1) else []

theorem errorMessage_iff {r : HttpResponse} :
    Succeeds (errorMessage lib r) ↔ ∀ e, r.json = .error e → e = .valueError := by
  unfold errorMessage
  cases hjson : r.json with
  | error e => cases e <;> simp
  | ok data =>
    refine iff_of_true ?_ (by nofun)
    cases data with
    | dict entries =>
      dsimp only
      by_cases h : ((Value.dict entries).field (lit "error")).isDict = true <;> simp [h]
    | _ => exact succeeds_ok _

/-- What a round comes to: over with an answer that can be read or not, or to be repeated. -/
theorem postOnce_cases (lib : Library) (p : Provider) (x : Exchange) {good : Value → Prop}
    {α : Type} {f : Value → Except Failure α} (hf : ∀ data, Answers (f data) ↔ good data) :
    (∃ y, postOnce lib p x = .over y ∧ x.retried = false ∧
      (Answers (y >>= f) ↔ x.Readable good)) ∨
    (∃ e, postOnce lib p x = .again e ∧ x.retried = true ∧ x.Readable good) ∨
    ∃ e, postOnce lib p x = .over (.error (.value e)) ∧ ¬ x.Readable good := by
  cases x with
  | timeout message => exact .inl ⟨_, rfl, rfl, iff_of_true (answers_provider _) trivial⟩
  | transportError errorClass message => exact .inr (.inl ⟨_, rfl, rfl, trivial⟩)
  | decodingError =>
    refine .inl ⟨_, rfl, rfl, iff_of_false ?_ id⟩
    rintro (⟨a, h⟩ | ⟨e, h⟩) <;> cases h
  | response r =>
    by_cases hstatus : r.statusCode < 400
    · refine .inl ⟨escaping r.json, ?_, ?_, ?_⟩
      · simp [postOnce, hstatus]
      · simp [Exchange.retried, hstatus]
      · simp only [Exchange.Readable, if_pos hstatus]
        cases hjson : r.json with
        | error e => exact iff_of_false (not_answers_value e) (by simp)
        | ok data =>
          rw [show (escaping (.ok data) >>= f) = f data from rfl, hf data]
          simp
    · have hready : (Exchange.response r).Readable good ↔ Succeeds (errorMessage lib r) := by
        simp only [Exchange.Readable, if_neg hstatus]
        exact errorMessage_iff.symm
      cases hmessage : errorMessage lib r with
      | error e =>
        refine .inr (.inr ⟨e, by simp [postOnce, hstatus, hmessage], fun h => ?_⟩)
        have hgot := hready.mp h
        rw [hmessage] at hgot
        exact not_succeeds_error e hgot
      | ok message =>
        have hread := hready.mpr ⟨message, hmessage⟩
        by_cases hagain : r.statusCode ∈ retryableStatus
        · refine .inr (.inl ⟨statusError r message, ?_, ?_, hread⟩)
          · simp [postOnce, hstatus, hmessage, hagain]
          · simp [Exchange.retried, hagain, Nat.not_lt.mp hstatus]
        · refine .inl ⟨.error (.provider (statusError r message)), ?_, ?_, ?_⟩
          · simp [postOnce, hstatus, hmessage, hagain]
          · simp [Exchange.retried, hagain]
          · exact iff_of_true (answers_provider _) hread

theorem post_iff {exchange : Nat → Exchange} {good : Value → Prop} {α : Type}
    {f : Value → Except Failure α} (hf : ∀ data, Answers (f data) ↔ good data) (left : Nat) :
    ∀ attempt, Answers (post lib p exchange left attempt >>= f) ↔
      ∀ x ∈ met exchange left attempt, x.Readable good := by
  induction left with
  | zero =>
    intro attempt
    simp only [met, List.forall_mem_singleton]
    rcases postOnce_cases lib p (exchange attempt) hf with
      ⟨y, hround, -, hy⟩ | ⟨e, hround, -, hread⟩ | ⟨e, hround, hread⟩
    · simp only [post, hround]
      exact hy
    · simp only [post, hround]
      exact iff_of_true (answers_provider e) hread
    · simp only [post, hround]
      exact iff_of_false (not_answers_value e) hread
  | succ left ih =>
    intro attempt
    simp only [met, List.forall_mem_cons]
    rcases postOnce_cases lib p (exchange attempt) hf with
      ⟨y, hround, hretried, hy⟩ | ⟨e, hround, hretried, hread⟩ | ⟨e, hround, hread⟩
    · simp only [post, hround, hretried]
      simpa using hy
    · simp only [post, hround, hretried, if_true]
      rw [ih (attempt + 1)]
      exact ⟨fun h => ⟨hread, h⟩, fun h => h.2⟩
    · simp only [post, hround]
      exact iff_of_false (not_answers_value e) fun h => hread h.1

/-- A completion ends in a reply or in a `ProviderError` exactly when everything it meets
can be read. -/
theorem complete_iff (lib : Library) (p : Provider) (binding : ModelBinding)
    (exchange : Nat → Exchange) :
    Answers (p.complete lib binding exchange) ↔
      ∀ x ∈ met exchange p.maxRetries 0, x.Readable (ResponseReadable lib binding) :=
  post_iff (fun _ => responseOf_iff) p.maxRetries 0

end Autora.Models
