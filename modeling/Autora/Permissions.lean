import Mathlib.Data.List.ReduceOption
import Autora.AgentRunner

/-! Which tool calls a run executes, and on whose word. -/

namespace Autora.Agents

open Systems

variable {b : Behavior} {s s' : AgentRun} {grants : List (Option Nat)}
variable {uses rest : List ToolUseBlock} {use : ToolUseBlock}

/-- What a call rests on: the policy engine allowed it, or the approval with that number
was granted for exactly that tool and those arguments. -/
def AgentRun.Granted (s : AgentRun) (u : ToolUseBlock) : Option Nat → Prop
  | none => (u.name, u.input) ∈ s.allowed
  | some i => ∃ a : Approval, s.approvals[i]? = some a ∧ a.state = .approved ∧ a.decidedBy.isSome = true ∧
      a.tool = u.name ∧ a.args = u.input

/-- Every executed call has its permission, and no approval permits two. -/
def AgentRun.Permitted (s : AgentRun) : Prop :=
  ∃ grants, List.Forall₂ s.Granted s.invocations grants ∧ grants.reduceOption.Nodup

/-- A call that is put up for approval shares its id with no later call of the run. -/
def AgentRun.ownIds (s : AgentRun) : Act → Prop
  | .call r => ∀ u ∈ r.toolUses, ∀ a ∈ s.approvals, a.toolCallId ≠ u.id
  | .policy .needsApproval =>
    match s.stage with
    | .deciding (use :: rest) => ∀ v ∈ rest, v.id ≠ use.id
    | _ => True
  | _ => True

instance (s : AgentRun) : DecidablePred s.ownIds := fun a =>
  match a with
  | .call r => inferInstanceAs (Decidable (∀ u ∈ r.toolUses, _))
  | .policy .needsApproval =>
    match h : s.stage with
    | .deciding (use :: rest) =>
      decidable_of_iff (∀ v ∈ rest, v.id ≠ use.id) (by simp [AgentRun.ownIds, h])
    | .deciding [] | .thinking | .invoking _ | .evaluating _ _ | .waiting | .ready | .ended =>
      isTrue (by simp [AgentRun.ownIds, h])
  | .policy .allow | .policy .deny | .exceed | .evaluate _ | .unknown | .recall | .invoke _
  | .approve _ | .reject _ | .renew | .resume | .stop => isTrue trivial

/-- The approvals of the run are for the calls still to run that have their ids, and none
of them has been used. -/
structure AgentRun.Clear (s : AgentRun) (grants : List (Option Nat)) (uses : List ToolUseBlock) :
    Prop where
  asked : ∀ (i : Nat) (a : Approval), s.approvals[i]? = some a → ∀ u ∈ uses, u.id = a.toolCallId →
    a.tool = u.name ∧ a.args = u.input ∧ i ∉ grants.reduceOption
  once : uses.Pairwise fun u v => u.id = v.id → ∀ a ∈ s.approvals, a.toolCallId ≠ u.id

/-- The calls of the last turn that have no result are among those still to run. -/
def Memory.InTurn (m : Memory) (uses : List ToolUseBlock) : Prop :=
  ∃ pre content, m.messages = pre ++ [⟨.assistant, content⟩] ∧
    ((toolUses content).filter fun u => u.id ∉ m.results.map ToolResultBlock.toolUseId).Sublist uses

def AgentRun.Rests (s : AgentRun) (grants : List (Option Nat)) : Prop :=
  match s.stage with
  | .deciding uses => s.memory.InTurn uses ∧ s.Clear grants uses
  | .invoking uses => s.memory.InTurn uses ∧ s.Clear grants uses ∧ ∀ u rest, uses = u :: rest →
      (u.name, u.input) ∈ s.allowed ∨
        ∃ (i : Nat) (a : Approval), s.approvals[i]? = some a ∧ a.state = .approved ∧ a.toolCallId = u.id
  | .waiting | .ready => ∃ last m uses, s.steps.getLast? = some last ∧
      last.messagesAfter = Memory.after m ∧ m.InTurn uses ∧ s.Clear grants uses
  | _ => True

structure AgentRun.Covered (s : AgentRun) (grants : List (Option Nat)) : Prop where
  granted : List.Forall₂ s.Granted s.invocations grants
  once : grants.reduceOption.Nodup
  approved : ∀ k ∈ s.memory.approved, ∃ (i : Nat) (a : Approval), s.approvals[i]? = some a ∧ a.state = .approved ∧
    a.toolCallId = k
  decided : ∀ (i : Nat) (a : Approval), s.approvals[i]? = some a → a.state = .approved → a.decidedBy.isSome = true
  rests : s.Rests grants

theorem AgentRun.Clear.sublist {uses' : List ToolUseBlock} (h : s.Clear grants uses)
    (hs : uses'.Sublist uses) : s.Clear grants uses' :=
  ⟨fun i a ha u hu => h.asked i a ha u (hs.subset hu), h.once.sublist hs⟩

theorem forall₂_mem_right {α β : Type} {R : α → β → Prop} {xs : List α} {ys : List β}
    (h : List.Forall₂ R xs ys) {y : β} (hy : y ∈ ys) : ∃ x ∈ xs, R x y := by
  induction h with
  | nil => cases hy
  | cons hxy _ ih =>
    rcases List.mem_cons.mp hy with rfl | hy
    · exact ⟨_, List.mem_cons_self, hxy⟩
    · obtain ⟨x, hx, hr⟩ := ih hy
      exact ⟨x, List.mem_cons_of_mem _ hx, hr⟩

theorem mem_reduceOption_granted (h : List.Forall₂ s.Granted s.invocations grants) :
    ∀ i ∈ grants.reduceOption, ∃ a : Approval, s.approvals[i]? = some a ∧ a.state = .approved := by
  intro i hi
  have hmem : some i ∈ grants := List.reduceOption_mem_iff.mp hi
  obtain ⟨u, _, hu⟩ := forall₂_mem_right h hmem
  obtain ⟨a, ha, hstate, _⟩ := hu
  exact ⟨a, ha, hstate⟩

/-- Once more is allowed or granted, what was granted stays so. -/
theorem granted_mono (hallowed : ∀ x ∈ s.allowed, x ∈ s'.allowed)
    (happ : ∀ (i : Nat) (a : Approval), s.approvals[i]? = some a → a.state = .approved → s'.approvals[i]? = some a) :
    ∀ u g, s.Granted u g → s'.Granted u g := by
  intro u g hg
  cases g with
  | none => exact hallowed _ hg
  | some i =>
    obtain ⟨a, ha, hstate, hrest⟩ := hg
    exact ⟨a, happ i a ha hstate, hstate, hrest⟩

/-! A result more. -/

theorem Memory.InTurn.answered {m : Memory} (h : m.InTurn (use :: rest)) {r : ToolResultBlock}
    (hr : r.toolUseId = use.id) : { m with results := m.results ++ [r] }.InTurn rest := by
  obtain ⟨pre, content, hm, hs⟩ := h
  refine ⟨pre, content, hm, ?_⟩
  have hfilter : ((toolUses content).filter fun u =>
      u.id ∉ (m.results ++ [r]).map ToolResultBlock.toolUseId) =
      ((toolUses content).filter fun u => u.id ∉ m.results.map ToolResultBlock.toolUseId).filter
        fun u => u.id ≠ use.id := by
    rw [List.filter_filter]
    refine List.filter_congr fun u _ => ?_
    simp only [List.map_append, List.map_cons, List.map_nil, hr, List.mem_append,
      List.mem_singleton, ← Bool.decide_and, decide_eq_decide]
    tauto
  show List.Sublist (List.filter _ _) rest
  rw [hfilter]
  have hsub := hs.filter fun u => decide (u.id ≠ use.id)
  rw [List.filter_cons_of_neg (by simp)] at hsub
  exact hsub.trans List.filter_sublist

/-- After the first call of a turn the rest of it is still to be decided. -/
theorem AgentRun.covered_acted (hg : List.Forall₂ s.Granted s.invocations grants)
    (hn : grants.reduceOption.Nodup)
    (ha : ∀ k ∈ s.memory.approved, ∃ (i : Nat) (a : Approval), s.approvals[i]? = some a ∧
      a.state = .approved ∧ a.toolCallId = k)
    (hd : ∀ (i : Nat) (a : Approval), s.approvals[i]? = some a → a.state = .approved →
      a.decidedBy.isSome = true)
    (ht : s.memory.InTurn rest) (hc : s.Clear grants rest) : (s.acted rest).Covered grants := by
  cases rest with
  | nil => exact ⟨hg, hn, ha, hd, trivial⟩
  | cons u rest => exact ⟨hg, hn, ha, hd, ht, hc.asked, hc.once⟩

/-! Settling. -/

def settled (state : ApprovalState) (by_ : Option Decider) (a : Approval) : Approval :=
  if a.state = .pending then { a with state := state, decidedBy := by_ } else a

theorem settled_keeps (state : ApprovalState) (by_ : Option Decider) (a : Approval) :
    (settled state by_ a).tool = a.tool ∧ (settled state by_ a).args = a.args ∧
      (settled state by_ a).toolCallId = a.toolCallId ∧
      (a.state = .approved → settled state by_ a = a) := by
  unfold settled
  split
  · next h => exact ⟨rfl, rfl, rfl, fun ha => by rw [h] at ha; cases ha⟩
  · exact ⟨rfl, rfl, rfl, fun _ => rfl⟩

theorem AgentRun.getElem?_settle (s : AgentRun) (state : ApprovalState) (by_ : Option Decider)
    (i : Nat) : (s.settle state by_)[i]? = (s.approvals[i]?).map (settled state by_) := by
  rw [AgentRun.settle, List.getElem?_map]
  rfl

/-- Settled approvals, and copies of them, are still for the same calls. -/
theorem AgentRun.Clear.settle (h : s.Clear grants uses) (approvals : List Approval)
    (hall : ∀ (i : Nat) (a : Approval), approvals[i]? = some a → ∃ (j : Nat) (a' : Approval), s.approvals[j]? = some a' ∧
      a.tool = a'.tool ∧ a.args = a'.args ∧ a.toolCallId = a'.toolCallId ∧
      (i = j ∨ s.approvals.length ≤ i))
    (hg : ∀ i ∈ grants.reduceOption, i < s.approvals.length) :
    { s with approvals := approvals }.Clear grants uses := by
  constructor
  · intro i a ha u hu hid
    obtain ⟨j, a', ha', htool, hargs, hcall, hij⟩ := hall i a ha
    obtain ⟨h1, h2, h3⟩ := h.asked j a' ha' u hu (by rw [hid, hcall])
    refine ⟨by rw [htool, h1], by rw [hargs, h2], fun hi => ?_⟩
    rcases hij with rfl | hij
    · exact h3 hi
    · have := hg i hi
      omega
  · refine h.once.imp fun {u v} hne hid a ha => ?_
    obtain ⟨i, hi⟩ := List.mem_iff_getElem?.mp ha
    obtain ⟨j, a', ha', _, _, hcall, _⟩ := hall i a hi
    rw [hcall]
    exact hne hid a' (List.mem_of_getElem? ha')

theorem AgentRun.Covered.lt (h : s.Covered grants) :
    ∀ i ∈ grants.reduceOption, i < s.approvals.length := by
  intro i hi
  obtain ⟨a, ha, _⟩ := mem_reduceOption_granted h.granted i hi
  exact (List.getElem?_eq_some_iff.mp ha).1

/-- The approvals after a decision or an expiry, while nobody works on the run. -/
theorem AgentRun.Covered.decide (h : s.Covered grants) (hw : s.stage = .waiting)
    (state : ApprovalState) (by_ : Option Decider) (again : List Approval) {stage : Stage}
    (hby : state = .approved → by_.isSome = true)
    (hagain : ∀ a ∈ again, a.state ≠ .approved ∧ a ∈ s.approvals)
    (hstage : stage = .waiting ∨ stage = .ready ∨ stage = .ended) :
    { s with approvals := s.settle state by_ ++ again, stage := stage }.Covered grants := by
  have hlen : (s.settle state by_).length = s.approvals.length := List.length_map ..
  have hkeep : ∀ (i : Nat) (a : Approval), s.approvals[i]? = some a → a.state = .approved →
      (s.settle state by_ ++ again)[i]? = some a := by
    intro i a ha hstate
    have hi : i < (s.settle state by_).length := by
      rw [hlen]
      exact (List.getElem?_eq_some_iff.mp ha).1
    rw [List.getElem?_append_left hi, s.getElem?_settle, ha, Option.map_some,
      (settled_keeps state by_ a).2.2.2 hstate]
  have hback : ∀ (i : Nat) (a : Approval), (s.settle state by_ ++ again)[i]? = some a →
      (∃ a' : Approval, s.approvals[i]? = some a' ∧ a = settled state by_ a') ∨
        (s.approvals.length ≤ i ∧ a ∈ again) := by
    intro i a ha
    by_cases hi : i < (s.settle state by_).length
    · rw [List.getElem?_append_left hi, s.getElem?_settle] at ha
      obtain ⟨a', ha', rfl⟩ := Option.map_eq_some_iff.mp ha
      exact .inl ⟨a', ha', rfl⟩
    · rw [List.getElem?_append_right (by omega)] at ha
      exact .inr ⟨by omega, List.mem_of_getElem? ha⟩
  have hgrant : ∀ u g, s.Granted u g →
      { s with approvals := s.settle state by_ ++ again, stage := stage }.Granted u g :=
    granted_mono (fun _ hx => hx) hkeep
  refine ⟨h.granted.imp hgrant, h.once, ?_, ?_, ?_⟩
  · intro k hk
    obtain ⟨i, a, ha, hstate, hid⟩ := h.approved k hk
    exact ⟨i, a, hkeep i a ha hstate, hstate, hid⟩
  · intro i a ha hstate
    rcases hback i a ha with ⟨a', ha', rfl⟩ | ⟨_, ha⟩
    · unfold settled at hstate ⊢
      split
      · next hp =>
        rw [if_pos hp] at hstate
        exact hby hstate
      · next hp =>
        rw [if_neg hp] at hstate
        exact h.decided i a' ha' hstate
    · exact absurd hstate (hagain a ha).1
  · have hrests := h.rests
    rw [AgentRun.Rests, hw] at hrests
    obtain ⟨last, m, uses, hlast, hm, hturn, hclear⟩ := hrests
    have hclear' := hclear.settle (s.settle state by_ ++ again) (fun i a ha => by
      rcases hback i a ha with ⟨a', ha', rfl⟩ | ⟨hi, ha⟩
      · obtain ⟨h1, h2, h3, _⟩ := settled_keeps state by_ a'
        exact ⟨i, a', ha', h1, h2, h3, .inl rfl⟩
      · obtain ⟨j, hj⟩ := List.mem_iff_getElem?.mp (hagain a ha).2
        exact ⟨j, a, hj, rfl, rfl, rfl, .inr hi⟩) h.lt
    rcases hstage with rfl | rfl | rfl
    · exact ⟨last, m, uses, hlast, hm, hturn, hclear'.asked, hclear'.once⟩
    · exact ⟨last, m, uses, hlast, hm, hturn, hclear'.asked, hclear'.once⟩
    · trivial

theorem reduceOption_concat (grants : List (Option Nat)) (g : Option Nat) :
    (grants ++ [g]).reduceOption = grants.reduceOption ++ g.toList := by
  rw [List.reduceOption_append]
  cases g <;> rfl

/-- The call in front is executed, on what it rests on. -/
theorem AgentRun.Covered.invoked (h : s.Covered grants) (hstage : s.stage = .invoking (use :: rest))
    (r : ToolResultBlock) (hr : r.toolUseId = use.id) (steps : List AgentStep) : ∃ g,
      ({ s.addResult r with invocations := s.invocations ++ [use], steps := steps }.acted
        rest).Covered (grants ++ [g]) := by
  have hrests := h.rests
  rw [AgentRun.Rests, hstage] at hrests
  obtain ⟨hturn, hclear, hhead⟩ := hrests
  have hturn' := hturn.answered hr
  have hrest : (use :: rest).tail.Sublist (use :: rest) := List.tail_sublist _
  -- the approval that is used, if any, is for no call of the rest
  obtain ⟨g, hg, hnew, hclear'⟩ : ∃ g, s.Granted use g ∧ (∀ i, g = some i → i ∉ grants.reduceOption) ∧
      s.Clear (grants ++ [g]) rest := by
    rcases hhead use rest rfl with hallow | ⟨i, a, ha, hstate, hid⟩
    · refine ⟨none, hallow, by simp, ?_⟩
      have hc := hclear.sublist hrest
      refine ⟨fun i a ha u hu hid => ?_, hc.once⟩
      rw [reduceOption_concat, Option.toList_none, List.append_nil]
      exact hc.asked i a ha u hu hid
    · obtain ⟨htool, hargs, hunused⟩ := hclear.asked i a ha use List.mem_cons_self hid.symm
      refine ⟨some i, ⟨a, ha, hstate, h.decided i a ha hstate, htool, hargs⟩, ?_, ?_⟩
      · intro j hj
        cases hj
        exact hunused
      · have hc := hclear.sublist hrest
        refine ⟨fun j a' ha' u hu hid' => ?_, hc.once⟩
        obtain ⟨h1, h2, h3⟩ := hc.asked j a' ha' u hu hid'
        refine ⟨h1, h2, fun hj => ?_⟩
        rw [reduceOption_concat] at hj
        rcases List.mem_append.mp hj with hj | hj
        · exact h3 hj
        · have hji : j = i := by simpa using hj
          subst hji
          rw [ha] at ha'
          cases ha'
          exact (List.pairwise_cons.mp hclear.once).1 u hu (by rw [hid', hid]) a
            (List.mem_of_getElem? ha) hid
  refine ⟨g, AgentRun.covered_acted ?_ ?_ h.approved h.decided hturn'
    ⟨hclear'.asked, hclear'.once⟩⟩
  · exact List.rel_append h.granted (List.Forall₂.cons hg .nil)
  · rw [reduceOption_concat]
    refine List.nodup_append.mpr ⟨h.once, by cases g <;> simp, ?_⟩
    intro i hi j hj
    cases g with
    | none => cases hj
    | some k =>
      rw [List.mem_singleton.mp hj]
      rintro rfl
      exact hnew _ rfl hi

theorem approvedIds_mem {approvals : List Approval} {k : String} (h : k ∈ approvedIds approvals) :
    ∃ (i : Nat) (a : Approval), approvals[i]? = some a ∧ a.state = .approved ∧ a.toolCallId = k := by
  obtain ⟨h, _⟩ := List.mem_filter.mp h
  obtain ⟨a, ha, rfl⟩ := List.mem_map.mp h
  obtain ⟨ha, hstate⟩ := List.mem_filter.mp ha
  obtain ⟨i, hi⟩ := List.mem_iff_getElem?.mp ha
  exact ⟨i, a, hi, by simpa using hstate, rfl⟩

theorem AgentRun.Covered.resume (h : s.Covered grants) (hstage : s.stage = .ready)
    (hs : s.step b .resume = some s') : s'.Covered grants := by
  have hrests := h.rests
  rw [AgentRun.Rests, hstage] at hrests
  obtain ⟨last, m, uses, hlast, hm, ⟨pre, content, hcontent, hsub⟩, hclear⟩ := hrests
  simp only [AgentRun.step, hstage, hlast, resumed, hm, unfinished_after hcontent,
    pendingUses_turn hcontent, Option.some.injEq] at hs
  subst hs
  refine ⟨h.granted, h.once, fun k hk => approvedIds_mem hk, h.decided, ?_⟩
  have hclear' := hclear.sublist hsub
  unfold AgentRun.Rests
  split
  · next uses' he =>
    split at he
    · cases he
    · cases he
      exact ⟨⟨pre, content, hcontent, List.Sublist.refl _⟩, hclear'.asked, hclear'.once⟩
  all_goals
    next he =>
      split at he <;> trivial

theorem AgentRun.Covered.suspend (h : s.Covered grants) (hstage : s.stage = .deciding (use :: rest))
    (hown : ∀ v ∈ rest, v.id ≠ use.id) : (s.suspend use).Covered grants := by
  have hrests := h.rests
  rw [AgentRun.Rests, hstage] at hrests
  obtain ⟨hturn, hclear⟩ := hrests
  unfold AgentRun.suspend
  simp only
  split
  · exact ⟨h.granted, h.once, h.approved, h.decided, trivial⟩
  let asked : Approval := ⟨use.name, use.input, use.id, .pending, none⟩
  have hold : ∀ (i : Nat) (a : Approval), s.approvals[i]? = some a →
      (s.approvals ++ [asked])[i]? = some a := by
    intro i a ha
    rw [List.getElem?_append_left (List.getElem?_eq_some_iff.mp ha).1]
    exact ha
  have hback : ∀ (i : Nat) (a : Approval), (s.approvals ++ [asked])[i]? = some a →
      s.approvals[i]? = some a ∨ (i = s.approvals.length ∧ a = asked) := by
    intro i a ha
    rcases Nat.lt_trichotomy i s.approvals.length with hi | hi | hi
    · rw [List.getElem?_append_left hi] at ha
      exact .inl ha
    · subst hi
      rw [List.getElem?_concat_length] at ha
      exact .inr ⟨rfl, (Option.some.inj ha).symm⟩
    · rw [List.getElem?_eq_none (by simp; omega)] at ha
      cases ha
  have hgrant : ∀ u g, s.Granted u g → AgentRun.Granted { s.record .observe with
      approvals := s.approvals ++ [asked], memory := .released, stage := .waiting } u g :=
    granted_mono (fun _ hx => hx) fun i a ha _ => hold i a ha
  refine ⟨h.granted.imp hgrant, h.once, fun k hk => (by cases hk), ?_, ?_⟩
  · intro i a ha hstate
    rcases hback i a ha with ha | ⟨_, rfl⟩
    · exact h.decided i a ha hstate
    · cases hstate
  · refine ⟨⟨.observe, s.memory.after⟩, s.memory, use :: rest, List.getLast?_concat, rfl, hturn,
      ⟨?_, ?_⟩⟩
    · intro i a ha u hu hid
      rcases hback i a ha with ha | ⟨rfl, rfl⟩
      · exact hclear.asked i a ha u hu hid
      · rcases List.mem_cons.mp hu with rfl | hu
        · refine ⟨rfl, rfl, fun hi => ?_⟩
          have := h.lt _ hi
          omega
        · exact absurd hid (hown u hu)
    · refine List.pairwise_cons.mpr ⟨fun v hv hid => absurd hid.symm (hown v hv), ?_⟩
      refine (List.pairwise_cons.mp hclear.once).2.imp_of_mem fun {u v} hu _ hne hid a ha => ?_
      rcases List.mem_append.mp ha with ha | ha
      · exact hne hid a ha
      · rw [List.mem_singleton.mp ha]
        exact fun he => hown u hu he.symm

/-- One step. -/
theorem covered_step {a : Act} (h : ∃ grants, s.Covered grants) (hok : s.ownIds a)
    (hs : s.step b a = some s') : ∃ grants, s'.Covered grants := by
  obtain ⟨grants, h⟩ := h
  -- nothing but the stage and what is not of interest here
  have hends : s.end_.Covered grants := ⟨h.granted, h.once, h.approved, h.decided, trivial⟩
  have hrests := h.rests
  unfold AgentRun.Rests at hrests
  unfold AgentRun.step at hs
  split at hs
  · split at hs <;> cases hs
    exact ⟨grants, hends⟩
  · next r hstage =>
    split at hs <;> cases hs
    refine ⟨grants, ?_⟩
    unfold AgentRun.call
    simp only
    split
    · refine ⟨h.granted, h.once, h.approved, h.decided, ⟨s.memory.messages, r.content, rfl, ?_⟩,
        ⟨?_, ?_⟩⟩
      · exact List.filter_sublist
      · intro i a ha u hu hid
        exact absurd hid.symm (hok u hu a (List.mem_of_getElem? ha))
      · exact List.pairwise_of_forall_mem_list fun u hu _ _ _ a ha => hok u hu a ha
    · split
      · exact ⟨h.granted, h.once, h.approved, h.decided, trivial⟩
      · exact ⟨h.granted, h.once, h.approved, h.decided, trivial⟩
  · cases hs
    refine ⟨grants, ?_⟩
    unfold AgentRun.evaluate
    simp only
    split
    · exact ⟨h.granted, h.once, h.approved, h.decided, trivial⟩
    · split
      · exact ⟨h.granted, h.once, h.approved, h.decided, trivial⟩
      · exact ⟨h.granted, h.once, h.approved, h.decided, trivial⟩
  · next use rest hstage =>
    simp only [hstage] at hrests
    split at hs <;> cases hs
    refine ⟨grants, AgentRun.covered_acted h.granted h.once h.approved h.decided
      (hrests.1.answered rfl) ?_⟩
    have hc := hrests.2.sublist (List.sublist_cons_self use rest)
    exact ⟨hc.asked, hc.once⟩
  · next use rest hstage =>
    simp only [hstage] at hrests
    split at hs <;> cases hs
    next hin =>
    refine ⟨grants, h.granted, h.once, h.approved, h.decided, hrests.1,
      ⟨hrests.2.asked, hrests.2.once⟩, ?_⟩
    rintro u rest' ⟨⟩
    exact .inr (h.approved use.id hin.2)
  · next use rest decision hstage =>
    split at hs
    · cases decision with
      | allow =>
        simp only [hstage] at hrests
        cases hs
        have hgrant : ∀ u g, s.Granted u g → AgentRun.Granted { s with
            allowed := s.allowed ++ [(use.name, use.input)]
            stage := .invoking (use :: rest) } u g :=
          granted_mono (fun x hx => List.mem_append_left _ hx) fun _ _ ha _ => ha
        refine ⟨grants, h.granted.imp hgrant, h.once, h.approved, h.decided, hrests.1,
          ⟨hrests.2.asked, hrests.2.once⟩, ?_⟩
        rintro u rest' ⟨⟩
        exact .inl (List.mem_append_right _ List.mem_cons_self)
      | deny =>
        cases hs
        exact ⟨grants, hends⟩
      | needsApproval =>
        cases hs
        simp only [AgentRun.ownIds, hstage] at hok
        exact ⟨grants, h.suspend hstage hok⟩
    · cases hs
  · next use rest invocation hstage =>
    cases invocation with
    | unknownTool message =>
      cases hs
      obtain ⟨g, hg⟩ := h.invoked hstage ⟨use.id, message, true⟩ rfl s.steps
      exact ⟨_, hg⟩
    | returned content isError =>
      cases hs
      obtain ⟨g, hg⟩ := h.invoked hstage ⟨use.id, content, isError⟩ rfl _
      exact ⟨_, hg⟩
  · next by_ hstage =>
    cases hs
    have hd := h.decide hstage .approved (some by_) [] (fun _ => rfl) (by simp) (.inr (.inl rfl))
    rw [List.append_nil] at hd
    exact ⟨grants, hd⟩
  · next by_ hstage =>
    cases hs
    have hd := h.decide hstage .rejected (some by_) [] (fun hne => by cases hne) (by simp) (.inr (.inr rfl))
    rw [List.append_nil] at hd
    exact ⟨grants, hd⟩
  · next hstage =>
    cases hs
    have hd := h.decide hstage .expired none (s.approvals.filter fun a => a.state = .pending)
      (fun hne => by cases hne)
      (by
        intro a ha
        obtain ⟨ha, hp⟩ := List.mem_filter.mp ha
        refine ⟨fun hne => ?_, ha⟩
        rw [hne] at hp
        cases hp) (.inl rfl)
    refine ⟨grants, hd.granted, hd.once, hd.approved, hd.decided, ?_⟩
    have hr := hd.rests
    unfold AgentRun.Rests at hr ⊢
    rw [hstage]
    exact hr
  · next hstage =>
    refine ⟨grants, h.resume (b := b) hstage ?_⟩
    simp only [AgentRun.step, hstage]
    exact hs
  · cases hs
    exact ⟨grants, hends⟩
  · cases hs
    exact ⟨grants, hends⟩
  · cases hs
    exact ⟨grants, hends⟩
  · cases hs
    exact ⟨grants, hends⟩
  · cases hs

/-- Where no other call has the id of one that was put up for approval, no tool runs
without permission. -/
theorem no_tool_without_permission (b : Behavior) {s : AgentRun}
    (h : (running b).Reach AgentRun.ownIds s) : s.Permitted := by
  have hcov : ∃ grants, s.Covered grants := by
    refine h.invariant ?_ fun _ _ _ hc hok hs => covered_step hc hok hs
    rintro s ⟨observe, rfl⟩
    exact ⟨[], .nil, List.nodup_nil, fun k hk => (by cases hk), fun i a ha => (by cases ha), trivial⟩
  obtain ⟨grants, hcov⟩ := hcov
  exact ⟨grants, hcov.granted, hcov.once⟩

/-! A reused id. -/

def publishing : Behavior := ⟨["publish"], 8, 1⟩

/-- A reply that calls one tool. -/
def callsFor (id input : String) : ModelResponse :=
  ⟨[.toolUse ⟨id, "publish", input⟩], .toolUse, false, []⟩

theorem reused_id_runs_unasked : ¬ ∀ (b : Behavior) (s : AgentRun),
    (running b).Reach anyStep s → s.Permitted := by
  intro h
  -- the second turn's call has the id of the first turn's, which a person approved
  let acts : List Act := [.call (callsFor "call_1" "draft"), .policy .needsApproval,
    .approve .human, .resume, .recall, .invoke (.returned "ok" false),
    .call (callsFor "call_1" "everything"), .recall, .invoke (.returned "ok" false)]
  have hrun : (System.follow anyStep (AgentRun.step publishing) (.start "publish it") acts).map
      (fun s => (s.invocations.map ToolUseBlock.input, s.allowed,
        s.approvals.map Approval.args)) = some (["draft", "everything"], [], ["draft"]) := by
    decide +kernel
  obtain ⟨s, hs, hrun⟩ := Option.map_eq_some_iff.mp hrun
  have hinv := congrArg Prod.fst hrun
  have hallowed : s.allowed = [] := congrArg (Prod.fst ∘ Prod.snd) hrun
  have happ : s.approvals.map Approval.args = ["draft"] := congrArg (Prod.snd ∘ Prod.snd) hrun
  obtain ⟨grants, hgranted, _⟩ := h publishing s
    ⟨_, ⟨_, rfl⟩, System.follow_path (fun _ _ _ hs => hs) hs⟩
  have hmem : "everything" ∈ s.invocations.map ToolUseBlock.input := by
    simp only at hinv
    rw [hinv]
    simp
  obtain ⟨u, hu, hinput⟩ := List.mem_map.mp hmem
  obtain ⟨g, _, hg⟩ := forall₂_mem_right hgranted.flip hu
  cases g with
  | none =>
    have hin : (u.name, u.input) ∈ s.allowed := hg
    rw [hallowed] at hin
    cases hin
  | some i =>
    obtain ⟨a, ha, _, _, _, hargs⟩ := hg
    have hin : a.args ∈ s.approvals.map Approval.args :=
      List.mem_map.mpr ⟨a, List.mem_of_getElem? ha, rfl⟩
    rw [happ, hargs, hinput] at hin
    simp at hin

theorem no_tool_without_permission_twice :
    ∃ s : AgentRun, s.invocations.length = 3 ∧ s.Permitted := by
  -- one call is allowed, one approved after its approval expired once, and the next turn's too
  let acts : List Act := [.call ⟨[.toolUse ⟨"a", "publish", "1"⟩, .toolUse ⟨"b", "publish", "2"⟩],
    .toolUse, false, []⟩, .policy .allow, .invoke (.returned "ok" false), .policy .needsApproval,
    .renew, .approve .delegate, .resume, .recall, .invoke (.returned "ok" false),
    .call (callsFor "c" "3"), .policy .needsApproval, .approve .human, .resume, .recall,
    .invoke (.returned "ok" false)]
  have hrun : (System.follow AgentRun.ownIds (AgentRun.step publishing) (.start "publish it")
      acts).map (fun s => s.invocations.length) = some 3 := by decide +kernel
  obtain ⟨s, hs, hlen⟩ := Option.map_eq_some_iff.mp hrun
  exact ⟨s, hlen, no_tool_without_permission publishing
    ⟨_, ⟨_, rfl⟩, System.follow_path (fun _ _ _ hs => hs) hs⟩⟩

end Autora.Agents
