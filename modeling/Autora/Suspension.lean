import Autora.Conversations

/-! A run that waits for approvals and the same run without: what each step of the
first does to the second. -/

namespace Autora.Agents

open Systems

variable {b : Behavior} {s s' t : AgentRun} {use : ToolUseBlock} {uses rest : List ToolUseBlock}

/-- The step of the run in which nothing needs approval. -/
def Act.plain : Act → Option Act
  | .policy .needsApproval => some (.policy .allow)
  | .approve _ | .reject _ | .renew | .resume | .recall => none
  | a => some a

def usedIds (ms : List Message) : List String :=
  (ms.flatMap fun m => toolUses m.content).map ToolUseBlock.id

/-- The calls of a run have ids of their own, and every approval is granted. -/
def AgentRun.grantedAll (s : AgentRun) : Act → Prop
  | .call r => (r.toolUses.map ToolUseBlock.id).Nodup ∧
      ∀ u ∈ r.toolUses, u.id ≠ "" ∧ u.id ∉ usedIds s.memory.messages
  | .reject _ => False
  | _ => True

instance (s : AgentRun) : DecidablePred s.grantedAll := fun a =>
  match a with
  | .call r => inferInstanceAs (Decidable (_ ∧ ∀ u ∈ r.toolUses, _))
  | .reject _ => isFalse id
  | .policy _ | .exceed | .evaluate _ | .unknown | .recall | .invoke _ | .approve _ | .renew
  | .resume | .stop => isTrue trivial

def OwnIds (content : List ContentBlock) : Prop :=
  ((toolUses content).map ToolUseBlock.id).Nodup

def Anything (_ : List ContentBlock) : Prop := True

/-- The same conversation and counters, but for what was approved. -/
structure Memory.Same (m m' : Memory) : Prop where
  messages : m.messages = m'.messages
  results : m.results = m'.results
  modelCalls : m.modelCalls = m'.modelCalls
  repairsUsed : m.repairsUsed = m'.repairsUsed
  evalRound : m.evalRound = m'.evalRound
  repairing : m.repairing = m'.repairing

/-- Where the other run stands. -/
def AgentRun.Beside (names : List String) (s t : AgentRun) : Prop :=
  match s.stage with
  | .waiting => ∃ use rest last, t.stage = .invoking (use :: rest) ∧ use.name ∈ names ∧
      s.steps.getLast? = some last ∧ last.messagesAfter = t.memory.after ∧
      use.id ≠ "" ∧ (∃ a ∈ s.approvals, a.state = .pending ∧ a.toolCallId = use.id) ∧
      ∀ a ∈ s.approvals, a.toolCallId ∉ rest.map ToolUseBlock.id
  | .ready => ∃ use rest last, t.stage = .invoking (use :: rest) ∧ use.name ∈ names ∧
      s.steps.getLast? = some last ∧ last.messagesAfter = t.memory.after ∧
      use.id ≠ "" ∧ (∃ a ∈ s.approvals, a.state = .approved ∧ a.toolCallId = use.id) ∧
      (∀ a ∈ s.approvals, a.toolCallId ∉ rest.map ToolUseBlock.id) ∧
      ∀ a ∈ s.approvals, a.state ≠ .pending
  | .deciding (use :: rest) => s.memory.Same t.memory ∧
      (∀ a ∈ s.approvals, a.toolCallId ∉ rest.map ToolUseBlock.id) ∧
      (∀ a ∈ s.approvals, a.state ≠ .pending) ∧
      ((use.id ∈ s.memory.approved ∧ use.name ∈ names ∧ t.stage = .invoking (use :: rest)) ∨
        (use.id ∉ s.memory.approved ∧ use.id ∉ s.approvals.map Approval.toolCallId ∧
          t.stage = .deciding (use :: rest)))
  | .invoking (use :: rest) => s.memory.Same t.memory ∧
      (∀ a ∈ s.approvals, a.toolCallId ∉ rest.map ToolUseBlock.id) ∧
      (∀ a ∈ s.approvals, a.state ≠ .pending) ∧ t.stage = .invoking (use :: rest)
  | stage => s.memory.Same t.memory ∧ (∀ a ∈ s.approvals, a.state ≠ .pending) ∧ t.stage = stage

/-- What the two runs have in common wherever they stand: the counters of the other run are
those that this run's steps give. -/
structure AgentRun.Level (s t : AgentRun) : Prop where
  invocations : s.invocations = t.invocations
  requests : s.requests = t.requests
  plain : t.memory.approved = [] ∧ t.approvals = []
  calls : t.memory.modelCalls = countOf s.steps .think + countOf s.steps .repair
  repairs : t.memory.repairsUsed = countOf s.steps .repair + if t.memory.repairing then 1 else 0
  rounds : t.memory.evalRound = countOf s.steps .evaluate
  approved : ∀ k ∈ s.memory.approved, k ∈ s.approvals.map Approval.toolCallId
  asked : ∀ a ∈ s.approvals, a.toolCallId ∈ usedIds t.memory.messages
  ids : ∀ k ∈ usedIds t.memory.messages, k ≠ ""

structure AgentRun.Alike (b : Behavior) (s t : AgentRun) : Prop where
  level : s.Level t
  beside : s.Beside b.toolNames t
  coherent : t.Coherent OwnIds Anything b.toolNames
  idle : t.stage ≠ .thinking → t.stage ≠ .ended → t.memory.repairing = false

theorem usedIds_append (xs ys : List Message) : usedIds (xs ++ ys) = usedIds xs ++ usedIds ys := by
  simp [usedIds]

theorem usedIds_results (results : List ToolResultBlock) :
    usedIds [Memory.resultMessage results] = [] := by
  simp [usedIds, Memory.resultMessage]

theorem countOf_concat (steps : List AgentStep) (step : AgentStep) (kind : StepKind) :
    countOf (steps ++ [step]) kind = countOf steps kind + if step.kind = kind then 1 else 0 := by
  simp only [countOf, List.countP_append, List.countP_cons, List.countP_nil, decide_eq_true_eq,
    Nat.zero_add]

theorem Memory.Same.after_eq {m m' : Memory} (h : m.Same m') : m.after = m'.after := by
  unfold Memory.after
  rw [h.messages, h.results]

/-- The calls of a turn are among the calls of the conversation, and their ids differ. -/
theorem Memory.Turn.ids {m : Memory} {names : List String} {invocations : List ToolUseBlock}
    (h : m.Turn OwnIds Anything names invocations uses) :
    (∀ u ∈ uses, u.id ∈ usedIds m.messages) ∧ (uses.map ToolUseBlock.id).Nodup := by
  obtain ⟨pre, content, executed, past, hm, _, _, hp, huses, _, _⟩ := h
  have hnodup : ((past ++ uses).map ToolUseBlock.id).Nodup := huses ▸ hp
  rw [List.map_append, List.nodup_append] at hnodup
  refine ⟨fun u hu => ?_, hnodup.2.1⟩
  rw [hm, usedIds_append]
  refine List.mem_append_right _ (List.mem_map.mpr ⟨u, ?_, rfl⟩)
  simp only [List.flatMap_cons, List.flatMap_nil, List.append_nil]
  rw [huses]
  exact List.mem_append_right _ hu

/-- A result more, in both runs. -/
theorem alike_acted (hl : s.Level t) (hm : s.memory.Same t.memory)
    (hrest : ∀ a ∈ s.approvals, a.toolCallId ∉ rest.map ToolUseBlock.id)
    (hpending : ∀ a ∈ s.approvals, a.state ≠ .pending)
    (hidle : t.memory.repairing = false)
    (ht : t.memory.Turn OwnIds Anything b.toolNames t.invocations rest) :
    (s.acted rest).Alike b (t.acted rest) := by
  have hcoh : (t.acted rest).Coherent OwnIds Anything b.toolNames := ht.acted
  cases rest with
  | nil =>
    have hsame : usedIds (t.memory.messages ++ [Memory.resultMessage t.memory.results]) =
        usedIds t.memory.messages := by
      rw [usedIds_append, usedIds_results, List.append_nil]
    refine ⟨⟨hl.invocations, hl.requests, hl.plain, hl.calls, hl.repairs, hl.rounds, hl.approved,
      fun a ha => ?_, fun k hk => hl.ids k (hsame ▸ hk)⟩, ⟨⟨?_, rfl, hm.modelCalls, hm.repairsUsed,
      hm.evalRound, hm.repairing⟩, hpending, rfl⟩, hcoh, fun hne _ => absurd rfl hne⟩
    · show a.toolCallId ∈ usedIds (t.memory.messages ++ _)
      rw [hsame]
      exact hl.asked a ha
    · show s.memory.messages ++ _ = t.memory.messages ++ _
      rw [hm.messages, hm.results]
  | cons u rest =>
    have hu : u.id ∉ s.approvals.map Approval.toolCallId := by
      intro hin
      obtain ⟨a, ha, hid⟩ := List.mem_map.mp hin
      exact hrest a ha (by rw [hid]; exact List.mem_cons_self)
    refine ⟨⟨hl.invocations, hl.requests, hl.plain, hl.calls, hl.repairs, hl.rounds, hl.approved,
      hl.asked, hl.ids⟩, ⟨hm, fun a ha hin => hrest a ha (List.mem_cons_of_mem _ hin), hpending,
      .inr ⟨fun hin => hu (hl.approved _ hin), hu, rfl⟩⟩, hcoh, fun _ _ => hidle⟩

/-- Both runs end. -/
theorem alike_end (hl : s.Level t) (hm : s.memory.Same t.memory)
    (hpending : ∀ a ∈ s.approvals, a.state ≠ .pending) : s.end_.Alike b t.end_ :=
  ⟨⟨hl.invocations, hl.requests, hl.plain, hl.calls, hl.repairs, hl.rounds, hl.approved, hl.asked,
    hl.ids⟩, ⟨hm, hpending, rfl⟩, trivial, fun _ hne => absurd rfl hne⟩

/-- The runs go on with the same model call. -/
theorem alike_call (h : s.Alike b t) (hstage : s.stage = .thinking) {r : ModelResponse}
    (hnew : ∀ u ∈ r.toolUses, u.id ≠ "" ∧ u.id ∉ usedIds s.memory.messages)
    (hcoh : (t.call r).Coherent OwnIds Anything b.toolNames) : (s.call r).Alike b (t.call r) := by
  have hb := h.beside
  rw [AgentRun.Beside, hstage] at hb
  obtain ⟨hm, hpending, _⟩ := hb
  have hl := h.level
  have hused : usedIds (t.memory.messages ++ [⟨.assistant, r.content⟩]) =
      usedIds t.memory.messages ++ r.toolUses.map ToolUseBlock.id := by
    rw [usedIds_append]
    simp [usedIds, ModelResponse.toolUses]
  have hfresh : ∀ u ∈ r.toolUses, u.id ∉ s.approvals.map Approval.toolCallId := by
    intro u hu hin
    obtain ⟨a, ha, hid⟩ := List.mem_map.mp hin
    have hasked := hl.asked a ha
    rw [← hm.messages, hid] at hasked
    exact (hnew u hu).2 hasked
  -- the step that is recorded is of the kind both runs count
  have hcalls : ∀ after, t.memory.modelCalls + 1 =
      countOf (s.steps ++ [⟨if s.memory.repairing then .repair else .think, after⟩]) .think +
        countOf (s.steps ++ [⟨if s.memory.repairing then .repair else .think, after⟩]) .repair := by
    intro after
    rw [countOf_concat, countOf_concat, hl.calls]
    cases s.memory.repairing <;> simp <;> omega
  have hrepairs : ∀ after, t.memory.repairsUsed =
      countOf (s.steps ++ [⟨if s.memory.repairing then .repair else .think, after⟩]) .repair := by
    intro after
    rw [countOf_concat, hl.repairs, hm.repairing]
    cases t.memory.repairing <;> simp
  have hrounds : ∀ after, t.memory.evalRound =
      countOf (s.steps ++ [⟨if s.memory.repairing then .repair else .think, after⟩]) .evaluate := by
    intro after
    rw [countOf_concat, hl.rounds]
    cases s.memory.repairing <;> simp
  have hsame : Memory.Same
      { s.memory with
        modelCalls := s.memory.modelCalls + 1, repairing := false
        messages := s.memory.messages ++ [⟨.assistant, r.content⟩], results := [] }
      { t.memory with
        modelCalls := t.memory.modelCalls + 1, repairing := false
        messages := t.memory.messages ++ [⟨.assistant, r.content⟩], results := [] } :=
    ⟨by rw [hm.messages], rfl, by rw [hm.modelCalls], hm.repairsUsed, hm.evalRound, rfl⟩
  have hreq : s.requests ++ [s.memory.messages] = t.requests ++ [t.memory.messages] := by
    rw [hl.requests, hm.messages]
  have hasked : ∀ a ∈ s.approvals,
      a.toolCallId ∈ usedIds (t.memory.messages ++ [⟨.assistant, r.content⟩]) := by
    intro a ha
    rw [hused]
    exact List.mem_append_left _ (hl.asked a ha)
  have hne : ∀ k ∈ usedIds (t.memory.messages ++ [⟨.assistant, r.content⟩]), k ≠ "" := by
    intro k hk
    rw [hused] at hk
    rcases List.mem_append.mp hk with hk | hk
    · exact hl.ids k hk
    · obtain ⟨u, hu, rfl⟩ := List.mem_map.mp hk
      exact (hnew u hu).1
  unfold AgentRun.call at hcoh ⊢
  simp only at hcoh ⊢
  split
  · next huses =>
    rw [if_pos huses] at hcoh
    refine ⟨⟨hl.invocations, hreq, hl.plain, hcalls _, hrepairs _, hrounds _, hl.approved, hasked,
      hne⟩, ?_, hcoh, fun _ _ => rfl⟩
    cases hu : r.toolUses with
    | nil => exact absurd hu huses.2
    | cons u rest =>
      have hmem : ∀ v ∈ u :: rest, v ∈ r.toolUses := fun v hv => hu ▸ hv
      refine ⟨hsame, fun a ha hin => ?_, hpending, .inr ⟨fun hin => ?_, hfresh u (hmem u
        List.mem_cons_self), rfl⟩⟩
      · obtain ⟨v, hv, hid⟩ := List.mem_map.mp hin
        exact hfresh v (hmem v (List.mem_cons_of_mem _ hv)) (List.mem_map.mpr ⟨a, ha, hid.symm⟩)
      · exact hfresh u (hmem u List.mem_cons_self) (hl.approved _ hin)
  · next huses =>
    rw [if_neg huses] at hcoh
    split
    · exact ⟨⟨hl.invocations, hreq, hl.plain, hcalls _, hrepairs _, hrounds _, hl.approved, hasked,
        hne⟩, ⟨hsame, hpending, rfl⟩, trivial, fun _ _ => rfl⟩
    · next hrefusal =>
      rw [if_neg hrefusal] at hcoh
      exact ⟨⟨hl.invocations, hreq, hl.plain, hcalls _, hrepairs _, hrounds _, hl.approved, hasked,
        hne⟩, ⟨hsame, hpending, rfl⟩, hcoh, fun _ _ => rfl⟩

theorem alike_evaluate (h : s.Alike b t) {parsed : Bool} {issues : List String}
    (hstage : s.stage = .evaluating parsed issues) (found : List String)
    (hcoh : (t.evaluate b found).Coherent OwnIds Anything b.toolNames) :
    (s.evaluate b found).Alike b (t.evaluate b found) := by
  have hb := h.beside
  rw [AgentRun.Beside, hstage] at hb
  obtain ⟨hm, hpending, htstage⟩ := hb
  have hl := h.level
  have hidle := h.idle (by rw [htstage]; simp) (by rw [htstage]; simp)
  have hcount : ∀ after (kind : StepKind), countOf (s.steps ++ [⟨.evaluate, after⟩]) kind =
      countOf s.steps kind + if StepKind.evaluate = kind then 1 else 0 :=
    fun after kind => countOf_concat _ _ _
  have hcalls : ∀ after, t.memory.modelCalls = countOf (s.steps ++ [⟨.evaluate, after⟩]) .think +
      countOf (s.steps ++ [⟨.evaluate, after⟩]) .repair := by
    intro after
    rw [hcount, hcount, hl.calls]
    rfl
  have hrepair : ∀ after, countOf (s.steps ++ [⟨.evaluate, after⟩]) .repair =
      t.memory.repairsUsed := by
    intro after
    rw [hcount, hl.repairs, hidle]
    rfl
  have hrounds : ∀ after, t.memory.evalRound + 1 =
      countOf (s.steps ++ [⟨.evaluate, after⟩]) .evaluate := by
    intro after
    rw [hcount, hl.rounds]
    rfl
  have hsame : Memory.Same { s.memory with evalRound := s.memory.evalRound + 1 }
      { t.memory with evalRound := t.memory.evalRound + 1 } :=
    ⟨hm.messages, hm.results, hm.modelCalls, hm.repairsUsed, by rw [hm.evalRound], hm.repairing⟩
  have hrepairs : ∀ after, t.memory.repairsUsed = countOf (s.steps ++ [⟨.evaluate, after⟩]) .repair +
      if t.memory.repairing then 1 else 0 := by
    intro after
    rw [hrepair, hidle]
    rfl
  have hused : usedIds (t.memory.messages ++ [Message.user (repairPrompt found)]) =
      usedIds t.memory.messages := by
    rw [usedIds_append]
    exact List.append_nil _
  unfold AgentRun.evaluate at hcoh ⊢
  simp only at hcoh ⊢
  split
  · exact ⟨⟨hl.invocations, hl.requests, hl.plain, hcalls _, hrepairs _, hrounds _, hl.approved,
      hl.asked, hl.ids⟩, ⟨hsame, hpending, rfl⟩, trivial, fun _ hne => absurd rfl hne⟩
  · next hissues =>
    rw [if_neg hissues] at hcoh
    by_cases hlimit : s.memory.repairsUsed < b.repairLimit
    · have hlimit' : t.memory.repairsUsed < b.repairLimit := hm.repairsUsed ▸ hlimit
      rw [if_pos hlimit, if_pos hlimit']
      rw [if_pos hlimit'] at hcoh
      refine ⟨⟨hl.invocations, hl.requests, hl.plain, hcalls _, ?_, hrounds _, hl.approved,
        fun a ha => ?_, fun k hk => hl.ids k (hused ▸ hk)⟩, ⟨⟨?_, hm.results, hm.modelCalls,
        congrArg (· + 1) hm.repairsUsed, congrArg (· + 1) hm.evalRound, rfl⟩, hpending, rfl⟩, hcoh, fun hne _ => absurd rfl hne⟩
      · show t.memory.repairsUsed + 1 = countOf (s.steps ++ [_]) .repair + 1
        rw [hrepair]
      · show a.toolCallId ∈ usedIds (t.memory.messages ++ _)
        rw [hused]
        exact hl.asked a ha
      · show s.memory.messages ++ _ = t.memory.messages ++ _
        rw [hm.messages]
    · have hlimit' : ¬ t.memory.repairsUsed < b.repairLimit := hm.repairsUsed ▸ hlimit
      rw [if_neg hlimit, if_neg hlimit']
      exact ⟨⟨hl.invocations, hl.requests, hl.plain, hcalls _, hrepairs _, hrounds _, hl.approved,
        hl.asked, hl.ids⟩, ⟨hsame, hpending, rfl⟩, trivial, fun _ hne => absurd rfl hne⟩

/-- A call that needs approval here is allowed there. -/
theorem alike_suspend (h : s.Alike b t) (hstage : s.stage = .deciding (use :: rest))
    (hname : use.name ∈ b.toolNames) (hnot : use.id ∉ s.memory.approved) :
    (s.suspend use).Alike b { t with
      allowed := t.allowed ++ [(use.name, use.input)]
      stage := .invoking (use :: rest) } := by
  have hb := h.beside
  rw [AgentRun.Beside, hstage] at hb
  obtain ⟨hm, hrest, hpending, hthere⟩ := hb
  have htstage : t.stage = .deciding (use :: rest) := by
    rcases hthere with ⟨hin, _⟩ | ⟨_, _, ht⟩
    · exact absurd hin hnot
    · exact ht
  have hcoh := h.coherent
  rw [AgentRun.Coherent, htstage] at hcoh
  obtain ⟨hmem, hnodup⟩ := hcoh.2.ids
  have hl := h.level
  have hidle := h.idle (by rw [htstage]; simp) (by rw [htstage]; simp)
  have hwaiting : s.isWaiting = false := by
    simp only [AgentRun.isWaiting, List.any_eq_false, decide_eq_true_eq]
    exact hpending
  have husein : use.id ∈ usedIds t.memory.messages := hmem use List.mem_cons_self
  have hcount : ∀ after (kind : StepKind), kind ≠ .observe →
      countOf (s.steps ++ [⟨.observe, after⟩]) kind = countOf s.steps kind := by
    intro after kind hk
    rw [countOf_concat, if_neg fun he => hk he.symm, Nat.add_zero]
  have happ : ∀ a ∈ s.approvals ++ [⟨use.name, use.input, use.id, .pending, none⟩],
      a ∈ s.approvals ∨ a.toolCallId = use.id := by
    intro a ha
    rcases List.mem_append.mp ha with ha | ha
    · exact .inl ha
    · rw [List.mem_singleton.mp ha]
      exact .inr rfl
  unfold AgentRun.suspend
  simp only [hwaiting, Bool.false_eq_true, if_false]
  refine ⟨⟨hl.invocations, hl.requests, hl.plain, ?_, ?_, ?_, fun k hk => (by cases hk),
    fun a ha => ?_, hl.ids⟩, ⟨use, rest, ⟨.observe, s.memory.after⟩, rfl, hname,
    List.getLast?_concat, hm.after_eq, hl.ids _ husein, ⟨⟨use.name, use.input, use.id, .pending,
    none⟩, List.mem_append_right _ (List.mem_singleton_self _), rfl, rfl⟩, fun a ha => ?_⟩,
    ⟨⟨use, rest, rfl, hname⟩, hcoh.2⟩, fun _ _ => hidle⟩
  · show t.memory.modelCalls = countOf (s.steps ++ [_]) .think + countOf (s.steps ++ [_]) .repair
    rw [hcount _ _ (by simp), hcount _ _ (by simp), hl.calls]
  · show t.memory.repairsUsed = countOf (s.steps ++ [_]) .repair + _
    rw [hcount _ _ (by simp)]
    exact hl.repairs
  · show t.memory.evalRound = countOf (s.steps ++ [_]) .evaluate
    rw [hcount _ _ (by simp), hl.rounds]
  · rcases happ a ha with ha | ha
    · exact hl.asked a ha
    · rw [ha]
      exact husein
  · rcases happ a ha with ha | ha
    · exact hrest a ha
    · rw [ha]
      exact (List.nodup_cons.mp hnodup).1

theorem mem_settle {state : ApprovalState} {by_ : Option Decider} {a : Approval}
    (h : a ∈ s.settle state by_) : ∃ a' ∈ s.approvals, a.toolCallId = a'.toolCallId ∧
      (a.state = .pending → state = .pending) := by
  obtain ⟨a', ha', rfl⟩ := List.mem_map.mp h
  refine ⟨a', ha', ?_⟩
  split
  · exact ⟨rfl, id⟩
  · next hne => exact ⟨rfl, fun he => absurd he hne⟩

theorem settled_mem_map (state : ApprovalState) (by_ : Option Decider) {a : Approval}
    (h : a ∈ s.approvals) : (if a.state = .pending then { a with state := state, decidedBy := by_ }
      else a) ∈ s.settle state by_ ∧ (if a.state = .pending then
        { a with state := state, decidedBy := by_ } else a).toolCallId = a.toolCallId := by
  refine ⟨List.mem_map.mpr ⟨a, h, rfl⟩, ?_⟩
  split <;> rfl

theorem settle_mem {state : ApprovalState} {by_ : Option Decider} {k : String}
    (h : ∃ a ∈ s.approvals, a.state = .pending ∧ a.toolCallId = k) :
    ∃ a ∈ s.settle state by_, a.state = state ∧ a.toolCallId = k := by
  obtain ⟨a, ha, hp, rfl⟩ := h
  refine ⟨{ a with state := state, decidedBy := by_ }, List.mem_map.mpr ⟨a, ha, ?_⟩, rfl, rfl⟩
  rw [if_pos hp]

/-- What is stored gives back the run as the other one has it. -/
theorem alike_resume (h : s.Alike b t) (hstage : s.stage = .ready)
    (hs : s.step b .resume = some s') : s'.Alike b t := by
  have hb := h.beside
  rw [AgentRun.Beside, hstage] at hb
  obtain ⟨use, rest, last, htstage, hname, hlast, hafter, hne, ⟨a, ha, happ, hid⟩, hrest, hpending⟩ :=
    hb
  have hcoh := h.coherent
  rw [AgentRun.Coherent, htstage] at hcoh
  obtain ⟨_, hturn⟩ := hcoh
  have hl := h.level
  have hidle := h.idle (by rw [htstage]; simp) (by rw [htstage]; simp)
  obtain ⟨hmsg, hres, huses⟩ := resumed_turn hturn (fun _ hp => hp) s.steps s.approvals
  have hin : use.id ∈ approvedIds s.approvals := by
    refine List.mem_filter.mpr ⟨List.mem_map.mpr ⟨a, List.mem_filter.mpr ⟨ha, by simp [happ]⟩, hid⟩,
      by simp [hne]⟩
  have happroved : ∀ k ∈ approvedIds s.approvals, k ∈ s.approvals.map Approval.toolCallId := by
    intro k hk
    obtain ⟨hk, _⟩ := List.mem_filter.mp hk
    obtain ⟨a, ha, rfl⟩ := List.mem_map.mp hk
    exact List.mem_map.mpr ⟨a, (List.mem_filter.mp ha).1, rfl⟩
  simp only [AgentRun.step, hstage, hlast, hafter, Option.some.injEq] at hs
  subst hs
  refine ⟨⟨hl.invocations, hl.requests, hl.plain, hl.calls, hl.repairs, hl.rounds, happroved,
    hl.asked, hl.ids⟩, ?_, h.coherent, h.idle⟩
  have hrepairs : countOf s.steps .repair = t.memory.repairsUsed := by
    rw [hl.repairs, hidle]
    rfl
  unfold AgentRun.Beside
  simp only [huses, if_neg (List.cons_ne_nil use rest)]
  exact ⟨⟨hmsg, hres, hl.calls.symm, hrepairs, hl.rounds.symm, hidle.symm⟩, hrest, hpending,
    .inl ⟨hin, hname, htstage⟩⟩

/-- One step of the run is one step of the other, or none. -/
theorem alike_step {a : Act} (h : s.Alike b t) (hok : s.grantedAll a)
    (hs : s.step b a = some s') :
    ∃ t', a.plain.elim (some t) (t.step b) = some t' ∧ s'.Alike b t' := by
  have hb := h.beside
  have hl := h.level
  have hcoh := h.coherent
  have hstep : ∀ {a' : Act} {t' : AgentRun}, t.step b a' = some t' →
      t.turnsAre OwnIds Anything b a' → t'.Coherent OwnIds Anything b.toolNames :=
    fun ht hok' => coherent_step (fun _ hp => hp) hcoh hok' ht
  unfold AgentRun.Beside at hb
  have hs₀ := hs
  unfold AgentRun.step at hs
  split at hs
  · next hstage =>
    simp only [hstage] at hb
    obtain ⟨hm, hpending, ht⟩ := hb
    split at hs <;> cases hs
    next hmax =>
    refine ⟨t.end_, ?_, alike_end hl hm hpending⟩
    rw [hm.modelCalls] at hmax
    simp [Act.plain, AgentRun.step, ht, hmax]
  · next r hstage =>
    have hb' := hb
    simp only [hstage] at hb'
    obtain ⟨hm, _, ht⟩ := hb'
    split at hs <;> cases hs
    next hmax =>
    have htstep : t.step b (.call r) = some (t.call r) := by
      rw [hm.modelCalls] at hmax
      simp [AgentRun.step, ht, hmax]
    exact ⟨t.call r, htstep, alike_call h hstage hok.2 (hstep htstep fun _ => hok.1)⟩
  · next parsed issues found hstage =>
    have hb' := hb
    simp only [hstage] at hb'
    cases hs
    have htstep : t.step b (.evaluate found) =
        some (t.evaluate b (evaluated parsed issues found)) := by simp [AgentRun.step, hb'.2.2]
    refine ⟨_, htstep, alike_evaluate h hstage _ (hstep htstep ?_)⟩
    simp only [AgentRun.turnsAre, hb'.2.2]
    exact .inr (.inr fun _ _ => trivial)
  · next use rest hstage =>
    simp only [hstage] at hb
    obtain ⟨hm, hrest, hpending, hthere⟩ := hb
    split at hs <;> cases hs
    next hunknown =>
    rcases hthere with ⟨_, hname, _⟩ | ⟨_, _, ht⟩
    · exact absurd hname hunknown
    have hidle := h.idle (by rw [ht]; simp) (by rw [ht]; simp)
    rw [AgentRun.Coherent, ht] at hcoh
    let r := unknownTool b use
    refine ⟨(t.addResult r).acted rest, by simp [Act.plain, AgentRun.step, ht, hunknown, r], ?_⟩
    have hturn := hcoh.2.answered (r := r) rfl t.invocations (by simp [hunknown])
    exact alike_acted (s := s.addResult r) (t := t.addResult r)
      ⟨hl.invocations, hl.requests, hl.plain, hl.calls, hl.repairs, hl.rounds, hl.approved,
        hl.asked, hl.ids⟩
      ⟨hm.messages, congrArg (· ++ [r]) hm.results, hm.modelCalls, hm.repairsUsed, hm.evalRound,
        hm.repairing⟩ hrest hpending hidle hturn
  · next use rest hstage =>
    simp only [hstage] at hb
    obtain ⟨hm, hrest, hpending, hthere⟩ := hb
    split at hs <;> cases hs
    next hin =>
    rcases hthere with ⟨_, _, ht⟩ | ⟨hnot, _⟩
    · exact ⟨t, rfl, ⟨hl.invocations, hl.requests, hl.plain, hl.calls, hl.repairs, hl.rounds,
        hl.approved, hl.asked, hl.ids⟩, ⟨hm, hrest, hpending, ht⟩, h.coherent, h.idle⟩
    · exact absurd hin.2 hnot
  · next use rest decision hstage =>
    simp only [hstage] at hb
    obtain ⟨hm, hrest, hpending, hthere⟩ := hb
    split at hs
    · next hin =>
      have ht : t.stage = .deciding (use :: rest) := by
        rcases hthere with ⟨hin', _⟩ | ⟨_, _, ht⟩
        · exact absurd hin' hin.2
        · exact ht
      have hallowed : t.step b (.policy .allow) = some { t with
          allowed := t.allowed ++ [(use.name, use.input)]
          stage := .invoking (use :: rest) } := by
        simp [AgentRun.step, ht, hin.1, hl.plain.1]
      have hidle := h.idle (by rw [ht]; simp) (by rw [ht]; simp)
      cases decision with
      | allow =>
        cases hs
        exact ⟨_, hallowed, ⟨hl.invocations, hl.requests, hl.plain, hl.calls, hl.repairs, hl.rounds,
          hl.approved, hl.asked, hl.ids⟩, ⟨hm, hrest, hpending, rfl⟩, hstep hallowed trivial,
          fun _ _ => hidle⟩
      | deny =>
        cases hs
        refine ⟨t.end_, by simp [Act.plain, AgentRun.step, ht, hin.1, hl.plain.1], ?_⟩
        exact alike_end hl hm hpending
      | needsApproval =>
        cases hs
        exact ⟨_, hallowed, alike_suspend h hstage hin.1 hin.2⟩
    · cases hs
  · next use rest invocation hstage =>
    simp only [hstage] at hb
    obtain ⟨hm, hrest, hpending, ht⟩ := hb
    have hidle := h.idle (by rw [ht]; simp) (by rw [ht]; simp)
    rw [AgentRun.Coherent, ht] at hcoh
    obtain ⟨⟨use', rest', heq, hname⟩, hturn⟩ := hcoh
    cases heq
    have hinv : s.invocations ++ [use] = t.invocations ++ [use] := by rw [hl.invocations]
    have hinvoked : t.invocations ++ [use] =
        t.invocations ++ [use].filter fun u => u.name ∈ b.toolNames := by simp [hname]
    have hsame : ∀ r : ToolResultBlock, Memory.Same
        { s.memory with results := s.memory.results ++ [r] }
        { t.memory with results := t.memory.results ++ [r] } := fun r =>
      ⟨hm.messages, congrArg (· ++ [r]) hm.results, hm.modelCalls, hm.repairsUsed, hm.evalRound,
        hm.repairing⟩
    cases invocation with
    | unknownTool message =>
      cases hs
      let r : ToolResultBlock := ⟨use.id, message, true⟩
      refine ⟨({ t with invocations := t.invocations ++ [use] }.addResult r).acted rest,
        by simp [Act.plain, AgentRun.step, ht, r], ?_⟩
      exact alike_acted (s := { s with invocations := s.invocations ++ [use] }.addResult r)
        (t := { t with invocations := t.invocations ++ [use] }.addResult r)
        ⟨hinv, hl.requests, hl.plain, hl.calls, hl.repairs, hl.rounds, hl.approved, hl.asked, hl.ids⟩
        (hsame r) hrest hpending hidle (hturn.answered (r := r) rfl _ hinvoked)
    | returned content isError =>
      cases hs
      let r : ToolResultBlock := ⟨use.id, content, isError⟩
      refine ⟨(({ t with invocations := t.invocations ++ [use] }.addResult r).record .act).acted rest,
        by simp [Act.plain, AgentRun.step, ht, r], ?_⟩
      have hcount : ∀ after (kind : StepKind), kind ≠ .act →
          countOf (s.steps ++ [⟨.act, after⟩]) kind = countOf s.steps kind := by
        intro after kind hk
        rw [countOf_concat, if_neg fun he => hk he.symm, Nat.add_zero]
      refine alike_acted
        (s := ({ s with invocations := s.invocations ++ [use] }.addResult r).record .act)
        (t := ({ t with invocations := t.invocations ++ [use] }.addResult r).record .act)
        ⟨hinv, hl.requests, hl.plain, ?_, ?_, ?_, hl.approved, hl.asked, hl.ids⟩
        (hsame r) hrest hpending hidle (hturn.answered (r := r) rfl _ hinvoked)
      · show t.memory.modelCalls = countOf (s.steps ++ [_]) .think + countOf (s.steps ++ [_]) .repair
        rw [hcount _ _ (by simp), hcount _ _ (by simp), hl.calls]
      · show t.memory.repairsUsed = countOf (s.steps ++ [_]) .repair + _
        rw [hcount _ _ (by simp)]
        exact hl.repairs
      · show t.memory.evalRound = countOf (s.steps ++ [_]) .evaluate
        rw [hcount _ _ (by simp), hl.rounds]
  · next by_ hstage =>
    simp only [hstage] at hb
    obtain ⟨use, rest, last, ht, hname, hlast, hafter, hne, hpend, hrest⟩ := hb
    cases hs
    refine ⟨t, rfl, ⟨hl.invocations, hl.requests, hl.plain, hl.calls, hl.repairs, hl.rounds,
      fun k hk => ?_, fun a ha => ?_, hl.ids⟩, ⟨use, rest, last, ht, hname, hlast, hafter, hne,
      settle_mem hpend, fun a ha => ?_, fun a ha hp => ?_⟩, h.coherent, h.idle⟩
    · obtain ⟨a, ha, rfl⟩ := List.mem_map.mp (hl.approved k hk)
      obtain ⟨h1, h2⟩ := settled_mem_map (s := s) .approved (some by_) ha
      exact List.mem_map.mpr ⟨_, h1, h2⟩
    · obtain ⟨a', ha', hid, _⟩ := mem_settle ha
      rw [hid]
      exact hl.asked a' ha'
    · obtain ⟨a', ha', hid, _⟩ := mem_settle ha
      rw [hid]
      exact hrest a' ha'
    · obtain ⟨_, _, _, hstate⟩ := mem_settle ha
      cases hstate hp
  · exact absurd hok id
  · next hstage =>
    simp only [hstage] at hb
    obtain ⟨use, rest, last, ht, hname, hlast, hafter, hne, hpend, hrest⟩ := hb
    cases hs
    have hback : ∀ a ∈ s.settle .expired none ++ s.approvals.filter fun a => a.state = .pending,
        ∃ a' ∈ s.approvals, a.toolCallId = a'.toolCallId := by
      intro a ha
      rcases List.mem_append.mp ha with ha | ha
      · obtain ⟨a', ha', hid, _⟩ := mem_settle ha
        exact ⟨a', ha', hid⟩
      · exact ⟨a, (List.mem_filter.mp ha).1, rfl⟩
    refine ⟨t, rfl, ⟨hl.invocations, hl.requests, hl.plain, hl.calls, hl.repairs, hl.rounds,
      fun k hk => ?_, fun a ha => ?_, hl.ids⟩, ?_, h.coherent, h.idle⟩
    · obtain ⟨a, ha, rfl⟩ := List.mem_map.mp (hl.approved k hk)
      obtain ⟨h1, h2⟩ := settled_mem_map (s := s) .expired none ha
      exact List.mem_map.mpr ⟨_, List.mem_append_left _ h1, h2⟩
    · obtain ⟨a', ha', hid⟩ := hback a ha
      rw [hid]
      exact hl.asked a' ha'
    · unfold AgentRun.Beside
      simp only [hstage]
      obtain ⟨a, ha, hp, hid⟩ := hpend
      refine ⟨use, rest, last, ht, hname, hlast, hafter, hne, ⟨a, List.mem_append_right _
        (List.mem_filter.mpr ⟨ha, by simp [hp]⟩), hp, hid⟩, fun a ha => ?_⟩
      obtain ⟨a', ha', hid⟩ := hback a ha
      rw [hid]
      exact hrest a' ha'
  · next hstage => exact ⟨t, rfl, alike_resume h hstage hs₀⟩
  · next hstage =>
    simp only [hstage] at hb
    cases hs
    exact ⟨t.end_, by simp [Act.plain, AgentRun.step, hb.2.2], alike_end hl hb.1 hb.2.1⟩
  · next uses hstage =>
    cases hs
    cases uses with
    | nil =>
      simp only [hstage] at hb
      exact ⟨t.end_, by simp [Act.plain, AgentRun.step, hb.2.2], alike_end hl hb.1 hb.2.1⟩
    | cons use rest =>
      simp only [hstage] at hb
      obtain ⟨hm, _, hpending, ⟨_, _, ht⟩ | ⟨_, _, ht⟩⟩ := hb
      · exact ⟨t.end_, by simp [Act.plain, AgentRun.step, ht], alike_end hl hm hpending⟩
      · exact ⟨t.end_, by simp [Act.plain, AgentRun.step, ht], alike_end hl hm hpending⟩
  · next uses hstage =>
    cases hs
    cases uses with
    | nil =>
      simp only [hstage] at hb
      exact ⟨t.end_, by simp [Act.plain, AgentRun.step, hb.2.2], alike_end hl hb.1 hb.2.1⟩
    | cons use rest =>
      simp only [hstage] at hb
      obtain ⟨hm, _, hpending, ht⟩ := hb
      exact ⟨t.end_, by simp [Act.plain, AgentRun.step, ht], alike_end hl hm hpending⟩
  · next parsed issues hstage =>
    simp only [hstage] at hb
    cases hs
    exact ⟨t.end_, by simp [Act.plain, AgentRun.step, hb.2.2], alike_end hl hb.1 hb.2.1⟩
  · cases hs

/-- The whole run. -/
theorem alike_follow {acts : List Act} :
    ∀ {s s' t : AgentRun}, System.follow AgentRun.grantedAll (AgentRun.step b) s acts = some s' →
      s.Alike b t → ∃ t', System.follow anyStep (AgentRun.step b) t (acts.filterMap Act.plain) =
        some t' ∧ s'.Alike b t' := by
  induction acts with
  | nil =>
    intro s s' t hs h
    cases hs
    exact ⟨t, rfl, h⟩
  | cons a acts ih =>
    intro s s' t hs h
    simp only [System.follow] at hs
    split at hs
    · next hok =>
      obtain ⟨s₁, hs₁, hrest⟩ := Option.bind_eq_some_iff.mp hs
      obtain ⟨t₁, ht₁, h₁⟩ := alike_step h hok hs₁
      obtain ⟨t', ht', h'⟩ := ih hrest h₁
      refine ⟨t', ?_, h'⟩
      cases hplain : a.plain with
      | none =>
        rw [hplain] at ht₁
        cases ht₁
        rw [List.filterMap_cons_none hplain]
        exact ht'
      | some a' =>
        rw [hplain] at ht₁
        rw [List.filterMap_cons_some hplain, System.follow,
          if_pos (show anyStep t a' from trivial)]
        exact Option.bind_eq_some_iff.mpr ⟨t₁, ht₁, ht'⟩
    · cases hs

/-- The same conversation, the same counters, the same calls. -/
structure AgentRun.SameAs (s t : AgentRun) : Prop where
  conversation : s.memory.messages = t.memory.messages ∧ s.memory.results = t.memory.results
  counters : s.memory.modelCalls = t.memory.modelCalls ∧
    s.memory.repairsUsed = t.memory.repairsUsed ∧ s.memory.evalRound = t.memory.evalRound
  invocations : s.invocations = t.invocations
  requests : s.requests = t.requests

theorem alike_start (observe : String) :
    (AgentRun.start observe).Alike b (AgentRun.start observe) :=
  ⟨⟨rfl, rfl, ⟨rfl, rfl⟩, rfl, rfl, rfl, fun k hk => (by cases hk), fun a ha => (by cases ha),
    fun k hk => (by cases hk)⟩, ⟨⟨rfl, rfl, rfl, rfl, rfl, rfl⟩, fun a ha => (by cases ha), rfl⟩,
    coherent_start observe, fun hne => absurd rfl hne⟩

/-- A run that is not waiting for an approval is as if nothing had needed one: after the same
steps with every call allowed, nothing was asked and everything else is the same. Between two
turns the calls of its answered turns were made once each, in order, and each message after a
turn has their results in order. -/
theorem suspension_invisible (b : Behavior) {observe : String} {acts : List Act} {s : AgentRun}
    (h : System.follow AgentRun.grantedAll (AgentRun.step b) (.start observe) acts = some s)
    (hs : s.stage ≠ .waiting ∧ s.stage ≠ .ready) :
    (∃ t, System.follow anyStep (AgentRun.step b) (.start observe) (acts.filterMap Act.plain) =
      some t ∧ t.approvals = [] ∧ s.SameAs t) ∧
      (s.stage = .thinking →
        Exchanges OwnIds Anything b.toolNames s.memory.messages s.invocations) := by
  obtain ⟨t, ht, halike⟩ := alike_follow h (alike_start observe)
  have hl := halike.level
  have hb := halike.beside
  have hm : s.memory.Same t.memory := by
    unfold AgentRun.Beside at hb
    split at hb
    · exact absurd ‹_› hs.1
    · exact absurd ‹_› hs.2
    · exact hb.1
    · exact hb.1
    · exact hb.1
  refine ⟨⟨t, ht, hl.plain.2, ⟨hm.messages, hm.results⟩,
    ⟨hm.modelCalls, hm.repairsUsed, hm.evalRound⟩, hl.invocations, hl.requests⟩, fun hstage => ?_⟩
  have hthere : t.stage = .thinking := by
    rw [AgentRun.Beside, hstage] at hb
    exact hb.2.2
  have hcoh := halike.coherent
  rw [AgentRun.Coherent, hthere] at hcoh
  rw [hm.messages, hl.invocations]
  exact hcoh

/-! A run that waits twice, and an id that says nothing. -/

def posting : Behavior := ⟨["post"], 8, 1⟩

def posts (ids : List String) : ModelResponse :=
  ⟨ids.map fun id => .toolUse ⟨id, "post", id⟩, .toolUse, false, []⟩

theorem suspension_invisible_twice : ∃ s t : AgentRun, s.invocations.length = 4 ∧
    s.approvals.length = 3 ∧ t.approvals = [] ∧ s.SameAs t := by
  -- three of four calls wait, two of them in the first turn and one after a repair round
  let acts : List Act := [.call (posts ["a", "b", "c"]), .policy .needsApproval, .approve .human,
    .resume, .recall, .invoke (.returned "1" false), .policy .allow, .invoke (.returned "2" false),
    .policy .needsApproval, .approve .delegate, .resume, .recall, .invoke (.returned "3" true),
    .call ⟨[.text "\x7b"], .maxTokens, false, []⟩, .evaluate [], .call (posts ["d"]),
    .policy .needsApproval, .approve .human, .resume, .recall, .invoke (.returned "4" false)]
  have hrun : (System.follow AgentRun.grantedAll (AgentRun.step posting) (.start "post it")
      acts).map (fun s => (s.invocations.length, s.approvals.length, s.stage)) =
      some (4, 3, .thinking) := by decide +kernel
  obtain ⟨s, hs, hrun⟩ := Option.map_eq_some_iff.mp hrun
  have hstage : s.stage = .thinking := congrArg (Prod.snd ∘ Prod.snd) hrun
  obtain ⟨⟨t, _, hno, hsame⟩, _⟩ := suspension_invisible posting hs (by simp [hstage])
  exact ⟨s, t, congrArg Prod.fst hrun, congrArg (Prod.fst ∘ Prod.snd) hrun, hno, hsame⟩

/-- The calls of a run have ids of their own, one of them perhaps empty. -/
def AgentRun.distinctIds (s : AgentRun) : Act → Prop
  | .call r => (r.toolUses.map ToolUseBlock.id).Nodup ∧
      ∀ u ∈ r.toolUses, u.id ∉ usedIds s.memory.messages
  | .reject _ => False
  | _ => True

instance (s : AgentRun) : DecidablePred s.distinctIds := fun a =>
  match a with
  | .call r => inferInstanceAs (Decidable (_ ∧ ∀ u ∈ r.toolUses, _))
  | .reject _ => isFalse id
  | .policy _ | .exceed | .evaluate _ | .unknown | .recall | .invoke _ | .approve _ | .renew
  | .resume | .stop => isTrue trivial

theorem empty_id_asked_again : ¬ ∀ (b : Behavior) (observe : String) (acts : List Act)
    (s : AgentRun),
    System.follow AgentRun.distinctIds (AgentRun.step b) (.start observe) acts = some s →
    s.stage ≠ .waiting ∧ s.stage ≠ .ready →
    ∃ t, System.follow anyStep (AgentRun.step b) (.start observe) (acts.filterMap Act.plain) =
      some t ∧ t.approvals = [] ∧ s.SameAs t := by
  intro h
  -- an approved call without an id is not found among the approved ones, and is asked again
  let acts : List Act := [.call (posts [""]), .policy .needsApproval, .approve .human, .resume,
    .policy .needsApproval, .approve .human, .resume]
  have hrun : (System.follow AgentRun.distinctIds (AgentRun.step posting) (.start "post it")
      acts).map AgentRun.stage = some (.deciding [⟨"", "post", ""⟩]) := by decide +kernel
  obtain ⟨s, hs, hstage⟩ := Option.map_eq_some_iff.mp hrun
  obtain ⟨t, ht, _⟩ := h posting "post it" acts s hs (by simp [hstage])
  have hnone : System.follow anyStep (AgentRun.step posting) (.start "post it")
      (acts.filterMap Act.plain) = none := by decide +kernel
  rw [hnone] at ht
  cases ht

end Autora.Agents
