import Autora.AgentRunner

/-! The shape of a run's conversation: turns that were answered and replies that
were sent back, and what a suspended run finds again. -/

namespace Autora.Agents

open Systems

variable {P Q : List ContentBlock → Prop} {names : List String} {b : Behavior}
variable {s s' : AgentRun} {use : ToolUseBlock} {uses rest : List ToolUseBlock}

/-- A conversation of answered turns and replies sent back, and the calls of known tools
among the answered ones, in order. -/
inductive Exchanges (P Q : List ContentBlock → Prop) (names : List String) :
    List Message → List ToolUseBlock → Prop
  | start (text : String) : Exchanges P Q names [Message.user text] []
  | answered {ms : List Message} {executed : List ToolUseBlock} {content : List ContentBlock}
      {results : List ToolResultBlock} (h : Exchanges P Q names ms executed)
      (hno : toolResults content = []) (hp : P content)
      (hr : results.map ToolResultBlock.toolUseId = (toolUses content).map ToolUseBlock.id) :
      Exchanges P Q names (ms ++ [⟨.assistant, content⟩, Memory.resultMessage results])
        (executed ++ (toolUses content).filter fun u => u.name ∈ names)
  | sentBack {ms : List Message} {executed : List ToolUseBlock} {content : List ContentBlock}
      {text : String} (h : Exchanges P Q names ms executed) (hno : toolResults content = [])
      (hq : Q content) :
      Exchanges P Q names (ms ++ [⟨.assistant, content⟩, Message.user text]) executed

/-- In the middle of a turn: the first calls have their results, `uses` are still to run. -/
def Memory.Turn (P Q : List ContentBlock → Prop) (names : List String) (m : Memory)
    (invocations uses : List ToolUseBlock) : Prop :=
  ∃ pre content executed past, m.messages = pre ++ [⟨.assistant, content⟩] ∧
    Exchanges P Q names pre executed ∧ toolResults content = [] ∧ P content ∧
    toolUses content = past ++ uses ∧
    m.results.map ToolResultBlock.toolUseId = past.map ToolUseBlock.id ∧
    invocations = executed ++ past.filter fun u => u.name ∈ names

def AgentRun.Coherent (P Q : List ContentBlock → Prop) (names : List String) (s : AgentRun) :
    Prop :=
  match s.stage with
  | .thinking => Exchanges P Q names s.memory.messages s.invocations
  | .deciding uses => uses ≠ [] ∧ s.memory.Turn P Q names s.invocations uses
  | .invoking uses => (∃ use rest, uses = use :: rest ∧ use.name ∈ names) ∧
      s.memory.Turn P Q names s.invocations uses
  | .evaluating _ _ => ∃ pre content, s.memory.messages = pre ++ [⟨.assistant, content⟩] ∧
      Exchanges P Q names pre s.invocations ∧ toolResults content = []
  | .waiting | .ready => ∃ last m uses, s.steps.getLast? = some last ∧
      last.messagesAfter = Memory.after m ∧ uses ≠ [] ∧ m.Turn P Q names s.invocations uses
  | .ended => True

/-- A reply whose calls are run is as `P` asks, one that is sent back as `Q` asks. -/
def AgentRun.turnsAre (P Q : List ContentBlock → Prop) (b : Behavior) (s : AgentRun) : Act → Prop
  | .call r => r.stopReason = .toolUse → P r.content
  | .evaluate found =>
    match s.stage with
    | .evaluating parsed issues => evaluated parsed issues found = [] ∨
        b.repairLimit ≤ s.memory.repairsUsed ∨
        ∀ last ∈ s.memory.messages.getLast?, Q last.content
    | _ => True
  | _ => True

instance [DecidablePred P] [DecidablePred Q] (b : Behavior) (s : AgentRun) :
    DecidablePred (s.turnsAre P Q b) := fun a =>
  match a with
  | .call r => inferInstanceAs (Decidable (r.stopReason = .toolUse → P r.content))
  | .evaluate found =>
    match h : s.stage with
    | .evaluating parsed issues =>
      decidable_of_iff (evaluated parsed issues found = [] ∨ b.repairLimit ≤ s.memory.repairsUsed ∨
        ∀ last ∈ s.memory.messages.getLast?, Q last.content) (by simp only [AgentRun.turnsAre, h])
    | .deciding _ | .thinking | .invoking _ | .waiting | .ready | .ended =>
      isTrue (by simp only [AgentRun.turnsAre, h])
  | .policy _ | .exceed | .unknown | .recall | .invoke _ | .approve _ | .reject _ | .renew
  | .resume | .stop => isTrue trivial

theorem Memory.Turn.answered {m : Memory} {invocations : List ToolUseBlock}
    (h : m.Turn P Q names invocations (use :: rest)) {r : ToolResultBlock}
    (hr : r.toolUseId = use.id) (invoked : List ToolUseBlock)
    (hi : invoked = invocations ++ [use].filter fun u => u.name ∈ names) :
    { m with results := m.results ++ [r] }.Turn P Q names invoked rest := by
  obtain ⟨pre, content, executed, past, hm, hex, hno, hp, huses, hres, hinv⟩ := h
  refine ⟨pre, content, executed, past ++ [use], hm, hex, hno, hp, ?_, ?_, ?_⟩
  · rw [huses, List.append_assoc]
    rfl
  · rw [List.map_append, hres, List.map_append]
    simp [hr]
  · rw [hi, hinv, List.filter_append, List.append_assoc]

/-- After its first call a turn goes on, or is answered. -/
theorem Memory.Turn.acted (h : s.memory.Turn P Q names s.invocations rest) :
    (s.acted rest).Coherent P Q names := by
  cases rest with
  | cons u rest => exact ⟨List.cons_ne_nil _ _, h⟩
  | nil =>
    obtain ⟨pre, content, executed, past, hm, hex, hno, hp, huses, hres, hinv⟩ := h
    rw [List.append_nil] at huses
    have hids : s.memory.results.map ToolResultBlock.toolUseId =
        (toolUses content).map ToolUseBlock.id := by
      rw [hres, huses]
    have hturn := hex.answered hno hp hids
    show Exchanges P Q names (s.memory.messages ++ _) s.invocations
    rw [hm, hinv, List.append_assoc, ← huses]
    exact hturn

/-- What is stored in the middle of a turn gives back the turn. -/
theorem resumed_turn {m : Memory} {invocations : List ToolUseBlock}
    (h : m.Turn P Q names invocations uses)
    (hp : ∀ content, P content → ((toolUses content).map ToolUseBlock.id).Nodup)
    (steps : List AgentStep) (approvals : List Approval) :
    (resumed m.after steps approvals).1.messages = m.messages ∧
      (resumed m.after steps approvals).1.results = m.results ∧
      (resumed m.after steps approvals).2 = uses := by
  obtain ⟨pre, content, executed, past, hm, hex, hno, hP, huses, hres, hinv⟩ := h
  have hnodup := hp content hP
  rw [huses, List.map_append, List.nodup_append] at hnodup
  simp only [resumed, unfinished_after hm]
  refine ⟨trivial, trivial, ?_⟩
  rw [pendingUses_turn hm, huses, hres, List.filter_append, List.filter_eq_nil_iff.mpr,
    List.filter_eq_self.mpr, List.nil_append]
  · intro u hu
    simp only [decide_eq_true_eq]
    intro hin
    exact hnodup.2.2 u.id hin u.id (List.mem_map.mpr ⟨u, hu, rfl⟩) rfl
  · intro u hu
    simp only [decide_eq_true_eq, not_not]
    exact List.mem_map.mpr ⟨u, hu, rfl⟩

/-- One step. -/
theorem coherent_step (hp : ∀ content, P content → ((toolUses content).map ToolUseBlock.id).Nodup)
    {a : Act} (h : s.Coherent P Q b.toolNames) (hok : s.turnsAre P Q b a)
    (hs : s.step b a = some s') : s'.Coherent P Q b.toolNames := by
  unfold AgentRun.Coherent at h
  unfold AgentRun.step at hs
  split at hs
  · split at hs <;> cases hs
    trivial
  · next r hstage =>
    simp only [hstage] at h
    split at hs <;> cases hs
    unfold AgentRun.call
    simp only
    split
    · next huses =>
      refine ⟨huses.2, s.memory.messages, r.content, s.invocations, [], rfl, h,
        toolResults_content r, hok huses.1, rfl, rfl, ?_⟩
      exact (List.append_nil _).symm
    · split
      · trivial
      · exact ⟨s.memory.messages, r.content, rfl, h, toolResults_content r⟩
  · next parsed issues found hstage =>
    simp only [hstage] at h
    obtain ⟨pre, content, hm, hex, hno⟩ := h
    cases hs
    simp only [AgentRun.turnsAre, hstage] at hok
    unfold AgentRun.evaluate
    simp only
    split
    · trivial
    · next hissues =>
      split
      · next hlimit =>
        have hq : Q content := by
          rcases hok with hnone | hover | hq
          · exact absurd hnone hissues
          · exact absurd hlimit (Nat.not_lt.mpr hover)
          · rw [hm, List.getLast?_concat] at hq
            exact hq _ rfl
        show Exchanges P Q b.toolNames (s.memory.messages ++ _) s.invocations
        rw [hm, List.append_assoc]
        exact hex.sentBack hno hq
      · trivial
  · next use rest hstage =>
    simp only [hstage] at h
    split at hs <;> cases hs
    next hunknown =>
    exact Memory.Turn.acted (s := s.addResult (unknownTool b use))
      (h.2.answered rfl _ (by simp [hunknown, AgentRun.addResult]))
  · next use rest hstage =>
    simp only [hstage] at h
    split at hs <;> cases hs
    next hin => exact ⟨⟨use, rest, rfl, hin.1⟩, h.2⟩
  · next use rest decision hstage =>
    simp only [hstage] at h
    split at hs
    · next hin =>
      cases decision <;> cases hs
      · exact ⟨⟨use, rest, rfl, hin.1⟩, h.2⟩
      · trivial
      · unfold AgentRun.suspend
        simp only
        split
        · trivial
        · exact ⟨⟨.observe, s.memory.after⟩, s.memory, use :: rest, List.getLast?_concat, rfl,
            List.cons_ne_nil _ _, h.2⟩
    · cases hs
  · next use rest invocation hstage =>
    simp only [hstage] at h
    obtain ⟨⟨use', rest', heq, hname⟩, hturn⟩ := h
    cases heq
    have hinvoked : s.invocations ++ [use] =
        s.invocations ++ [use].filter fun u => u.name ∈ b.toolNames := by simp [hname]
    cases invocation with
    | unknownTool message =>
      cases hs
      let r : ToolResultBlock := ⟨use.id, message, true⟩
      exact Memory.Turn.acted (s := { s with invocations := s.invocations ++ [use] }.addResult r)
        (hturn.answered (r := r) rfl _ hinvoked)
    | returned content isError =>
      cases hs
      let r : ToolResultBlock := ⟨use.id, content, isError⟩
      exact Memory.Turn.acted
        (s := ({ s with invocations := s.invocations ++ [use] }.addResult r).record .act)
        (hturn.answered (r := r) rfl _ hinvoked)
  · next hstage =>
    simp only [hstage] at h
    cases hs
    exact h
  · cases hs
    trivial
  · next hstage =>
    simp only [hstage] at h
    cases hs
    unfold AgentRun.Coherent
    simp only [hstage]
    exact h
  · next hstage =>
    simp only [hstage] at h
    obtain ⟨last, m, uses, hlast, hm, hne, hturn⟩ := h
    obtain ⟨hmsg, hres, huses⟩ := resumed_turn hturn hp s.steps s.approvals
    simp only [hlast, Option.some.injEq] at hs
    subst hs
    rw [hm]
    unfold AgentRun.Coherent
    simp only [huses, if_neg hne]
    obtain ⟨pre, content, executed, past, h1, h2, h3, h4, h5, h6, h7⟩ := hturn
    exact ⟨hne, pre, content, executed, past, by rw [hmsg, h1], h2, h3, h4, h5, by rw [hres, h6], h7⟩
  · cases hs
    trivial
  · cases hs
    trivial
  · cases hs
    trivial
  · cases hs
    trivial
  · cases hs

theorem coherent_start (observe : String) : (AgentRun.start observe).Coherent P Q names :=
  .start observe

end Autora.Agents
