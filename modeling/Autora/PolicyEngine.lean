import Autora.Lib.Untyped

/-! The policy engine: whether an actor may perform an action, and what a company's overrides
can do to the answer. -/

namespace Autora.Policy

open Untyped

inductive Outcome where
  | allow | needsApproval | deny
  deriving DecidableEq, Repr

inductive SideEffect where
  | read | write | irreversible
  deriving DecidableEq, Repr

inductive ActorKind where
  | agent | system | human
  deriving DecidableEq, Repr

abbrev Mapping := List (Str × Value)

inductive Raised where
  | policyError (message : Str)
  | other (e : Error)
  deriving DecidableEq, Repr

def Outcome.name : Outcome → Str
  | allow => lit "allow"
  | needsApproval => lit "needs_approval"
  | deny => lit "deny"

/-- `_STRICTNESS`. -/
def Outcome.strictness : Outcome → Nat
  | allow => 0
  | needsApproval => 1
  | deny => 2

/-- An outcome named by a key of `_STRICTNESS`. -/
def Outcome.read (v : Value) : Option Outcome :=
  [Outcome.allow, .needsApproval, .deny].find? fun o => match v with
    | .str s => s = o.name
    | _ => false

structure Limit where
  check : Mapping → Mapping → Mapping → Option Str
  over_ : Outcome
  description : Str

structure Rule where
  action : Str
  role : Str
  outcome : Outcome
  limit : Option Limit

def Rule.ruleId (rule : Rule) : Str := rule.action ++ lit ":" ++ rule.role

structure Decision where
  outcome : Outcome
  ruleId : Str
  reason : Str
  action : Str
  role : Option Str
  deriving DecidableEq, Repr

def anyAgent : Str := lit "*"

def overridesKey : Str := lit "policy.overrides"

/-- The declared actions and the rules by action and role. -/
structure PolicyEngine where
  actions : List (Str × SideEffect)
  rules : List ((Str × Str) × Rule)
  keyed : ∀ x ∈ rules, x.1 = (x.2.action, x.2.role)
  declared : ∀ x ∈ rules, (actions.lookup x.2.action).isSome = true
  noHuman : ∀ x ∈ rules, x.2.role ≠ lit "human"

/-- `_IDENT.match`: the `$` lets a line end follow. -/
def isIdent (s : Str) : Bool :=
  let body := if s.getLast? = some 10 then s.dropLast else s
  match body with
  | [] => false
  | c :: rest => (97 ≤ c && c ≤ 122) &&
      rest.all fun d => (97 ≤ d && d ≤ 122) || (48 ≤ d && d ≤ 57) || d = 95

section

variable (repr : Value → Str)

namespace PolicyEngine

def empty : PolicyEngine := ⟨[], [], nofun, nofun, nofun⟩

def sideEffectName : SideEffect → Str
  | .read => lit "read"
  | .write => lit "write"
  | .irreversible => lit "irreversible"

def declare (engine : PolicyEngine) (action : Str) (sideEffect : SideEffect) :
    Except Raised PolicyEngine :=
  if !isIdent action then
    .error (.policyError (lit "action must be lower_snake_case: " ++ repr (.str action)))
  else match engine.actions.lookup action with
    | some existing =>
      if existing ≠ sideEffect then
        .error (.policyError (action ++ lit " already declared as " ++ sideEffectName existing))
      else .ok engine
    | none => .ok { engine with
        actions := engine.actions ++ [(action, sideEffect)]
        declared := by
          intro x hx
          rw [List.lookup_append, Option.isSome_or, engine.declared x hx]
          rfl }

/-- One rule; the engine is as it was when it is refused. -/
def addRule (engine : PolicyEngine) (rule : Rule) : Except Raised PolicyEngine :=
  if hd : (engine.actions.lookup rule.action).isSome = true then
    if rule.role ≠ anyAgent ∧ !isIdent rule.role then
      .error (.policyError (lit "invalid role " ++ repr (.str rule.role)))
    else if hh : rule.role = lit "human" then
      .error (.policyError (lit "humans are always allowed; do not write rules for them"))
    else if (engine.rules.lookup (rule.action, rule.role)).isSome then
      .error (.policyError (lit "duplicate rule " ++ rule.ruleId))
    else .ok { engine with
      rules := engine.rules ++ [((rule.action, rule.role), rule)]
      keyed := List.forall_mem_append.mpr ⟨engine.keyed, by simp⟩
      declared := List.forall_mem_append.mpr ⟨engine.declared, by simpa using hd⟩
      noHuman := List.forall_mem_append.mpr ⟨engine.noHuman, by simpa using hh⟩ }
  else .error (.policyError (lit "rule for undeclared action " ++ repr (.str rule.action)))

/-- The rules before one that is refused are kept. -/
def add (engine : PolicyEngine) : List Rule → PolicyEngine × Option Raised
  | [] => (engine, none)
  | rule :: rules => match addRule repr engine rule with
    | .ok engine => add engine rules
    | .error e => (engine, some e)

def ruleFor (engine : PolicyEngine) (kind : ActorKind) (action role : Str) : Option Rule :=
  match engine.rules.lookup (action, role) with
  | some rule => some rule
  | none => if kind = .agent then engine.rules.lookup (action, anyAgent) else none

end PolicyEngine

/-- The rule's outcome within its limit or over it. -/
def Rule.judged (rule : Rule) (args facts policies : Mapping) : Outcome × List Str :=
  let reasons := [lit "rule " ++ rule.ruleId ++ lit ": " ++ rule.outcome.name]
  match rule.limit with
  | none => (rule.outcome, reasons)
  | some limit =>
    if rule.outcome = .allow then match limit.check args facts policies with
      | none => (rule.outcome, reasons)
      | some violation => (limit.over_, reasons ++
          [lit "limit (" ++ limit.description ++ lit ") exceeded: " ++ violation])
    else (rule.outcome, reasons)

def needHuman (sideEffect : SideEffect) (judged : Outcome × List Str) : Outcome × List Str :=
  if sideEffect = .irreversible ∧ judged.1 = .allow then
    (.needsApproval, judged.2 ++ [lit "irreversible actions always need a human"])
  else judged

/-- `((policies.get(OVERRIDES_KEY) or {}).get(action) or {}).get(role)`. -/
def overrideFor (policies : Mapping) (action role : Str) : Except Error Value := do
  let entry ← (((policies.lookup overridesKey).getD .none).orElse (.dict [])).get action
  (entry.orElse (.dict [])).get role

def tighten (override : Value) (judged : Outcome × List Str) :
    Except Error (Outcome × List Str) :=
  match override with
  | .none => .ok judged
  | override =>
    if !override.hashable then .error .typeError
    else match Outcome.read override with
      | none => .ok (judged.1, judged.2 ++
          [lit "ignored invalid company override " ++ repr override])
      | some o =>
        if judged.1.strictness < o.strictness then
          .ok (o, judged.2 ++ [lit "tightened by company policy to " ++ o.name])
        else if o.strictness < judged.1.strictness then
          .ok (judged.1, judged.2 ++ [lit "ignored company override " ++ repr override ++
            lit ": policies can only tighten"])
        else .ok judged

def raises {α : Type} : Except Error α → Except Raised α
  | .ok a => .ok a
  | .error e => .error (.other e)

def roleOf (kind : ActorKind) (role : Option Str) : Option Str :=
  if kind = .system then some (lit "system") else role

namespace PolicyEngine

def decide (engine : PolicyEngine) (kind : ActorKind) (action : Str) (role : Option Str)
    (args facts policies : Mapping) : Except Raised Decision :=
  if kind = .human then
    .ok ⟨.allow, lit "human_operator", lit "operators may do anything", action, some (lit "human")⟩
  else match engine.actions.lookup action with
    | none => .ok ⟨.deny, lit "unknown_action", repr (.str action) ++ lit " is not a known action",
        action, role⟩
    | some sideEffect => match roleOf kind role with
      | none => .error (.policyError (lit "agent decisions need the agent's role"))
      | some role => match engine.ruleFor kind action role with
        | none => .ok ⟨.deny, lit "default_deny",
            lit "no rule lets " ++ role ++ lit " " ++ action, action, some role⟩
        | some rule => do
          let judged := needHuman sideEffect (rule.judged args facts policies)
          let override ← raises (overrideFor policies action role)
          let (outcome, reasons) ← raises (tighten repr override judged)
          pure ⟨outcome, rule.ruleId, (lit "; ").intercalate reasons, action, some role⟩

end PolicyEngine

end

variable {repr : Value → Str} {engine : PolicyEngine} {kind : ActorKind} {action role : Str}
  {given : Option Str} {args facts policies : Mapping} {rule : Rule} {sideEffect : SideEffect}

theorem Outcome.read_name (o : Outcome) : Outcome.read (.str o.name) = some o := by
  cases o <;> decide +kernel

theorem Outcome.read_eq {v : Value} {o : Outcome} : Outcome.read v = some o ↔ v = .str o.name := by
  constructor
  · intro h
    have hp := List.find?_some h
    cases v <;> simp_all
  · rintro rfl
    exact o.read_name

/-! What the overrides let be asked of them. -/

/-- A value that `value or {}` makes an object of. -/
def isObject (v : Value) : Bool := !v.truthy || v.isDict

theorem asked {v : Value} {key : Str} :
    (v.orElse (.dict [])).get key =
      if isObject v then .ok (v.field key) else .error .attributeError := by
  unfold Value.orElse
  by_cases ht : v.truthy = true
  · rw [if_pos ht]
    cases v <;> simp_all [isObject, Value.isDict, Value.get, Value.field, Value.truthy]
  · rw [if_neg ht, if_pos (by simp [isObject, ht])]
    cases v <;> simp_all [Value.get, Value.field, Value.truthy]

/-- What is stored as the company's overrides. -/
def overrides (policies : Mapping) : Value := (policies.lookup overridesKey).getD .none

/-- What the overrides say for an action and a role, if they can be asked. -/
def stated (policies : Mapping) (action role : Str) : Value :=
  ((overrides policies).field action).field role

/-- The overrides are nothing or an object, what they say for the action too, and what that says
for the role is no list and no object. -/
structure Shaped (policies : Mapping) (action role : Str) : Prop where
  overrides : isObject (overrides policies) = true
  entry : isObject ((Policy.overrides policies).field action) = true
  override : (stated policies action role).hashable = true

theorem overrideFor_ok {v : Value} : overrideFor policies action role = .ok v ↔
    isObject (overrides policies) = true ∧ isObject ((overrides policies).field action) = true ∧
      v = stated policies action role := by
  have hfirst : overrideFor policies action role =
      (((overrides policies).orElse (.dict [])).get action >>= fun entry =>
        (entry.orElse (.dict [])).get role) := rfl
  rw [hfirst, asked]
  by_cases ho : isObject (overrides policies) = true
  · rw [if_pos ho]
    change ((((overrides policies).field action).orElse (.dict [])).get role = .ok v) ↔ _
    rw [asked]
    by_cases he : isObject ((overrides policies).field action) = true
    · rw [if_pos he, Except.ok.injEq]
      exact ⟨fun h => ⟨ho, he, h.symm⟩, fun h => h.2.2.symm⟩
    · rw [if_neg he]
      exact iff_of_false nofun fun h => he h.2.1
  · rw [if_neg ho]
    exact iff_of_false nofun fun h => ho h.1

/-- The strictness of what the overrides state; nothing they state that is no outcome counts. -/
def statedStrictness (policies : Mapping) (action role : Str) : Nat :=
  match Outcome.read (stated policies action role) with
  | some o => o.strictness
  | none => 0

/-- The override tightens and never loosens, unless it is a list or an object. -/
theorem tighten_spec {override : Value} {judged : Outcome × List Str} :
    (override.hashable = false ∧ tighten repr override judged = .error .typeError) ∨
    (override.hashable = true ∧ ∃ outcome reasons,
      tighten repr override judged = .ok (outcome, reasons) ∧
        outcome.strictness = max judged.1.strictness
          (match Outcome.read override with
            | some o => o.strictness
            | none => 0)) := by
  cases hh : override.hashable with
  | false =>
    refine Or.inl ⟨rfl, ?_⟩
    cases override <;> simp_all [tighten, Value.hashable]
  | true =>
    refine Or.inr ⟨rfl, ?_⟩
    cases hr : Outcome.read override with
    | none =>
      unfold tighten
      split
      · exact ⟨judged.1, judged.2, rfl, (Nat.max_zero _).symm⟩
      · rw [hh, hr]
        exact ⟨judged.1, _, rfl, (Nat.max_zero _).symm⟩
    | some o =>
      rw [Outcome.read_eq.mp hr]
      unfold tighten
      simp only [Value.hashable, Bool.not_true, Outcome.read_name]
      by_cases h1 : judged.1.strictness < o.strictness
      · exact ⟨o, _, by simp [h1]; rfl, by omega⟩
      · by_cases h2 : o.strictness < judged.1.strictness
        · exact ⟨judged.1, _, by simp [h1, h2]; rfl, by omega⟩
        · exact ⟨judged.1, judged.2, by simp [h1, h2], by omega⟩

/-- The outcome of a rule that covers the role, before the overrides. -/
def ruled (sideEffect : SideEffect) (rule : Rule) (args facts policies : Mapping) : Outcome :=
  (needHuman sideEffect (rule.judged args facts policies)).1

theorem decide_covered (hk : kind ≠ .human) (ha : engine.actions.lookup action = some sideEffect)
    (hr : roleOf kind given = some role) (hc : engine.ruleFor kind action role = some rule) :
    (¬ Shaped policies action role →
      ∀ d, engine.decide repr kind action given args facts policies ≠ .ok d) ∧
    (Shaped policies action role →
      ∃ d, engine.decide repr kind action given args facts policies = .ok d ∧
        d.outcome.strictness = max (ruled sideEffect rule args facts policies).strictness
          (statedStrictness policies action role)) := by
  have hd : engine.decide repr kind action given args facts policies =
      (raises (overrideFor policies action role) >>= fun override =>
        raises (tighten repr override (needHuman sideEffect (rule.judged args facts policies))) >>=
          fun judged => pure ⟨judged.1, rule.ruleId, (lit "; ").intercalate judged.2, action,
            some role⟩) := by
    simp only [PolicyEngine.decide, if_neg hk, ha, hr, hc]
  constructor
  · intro hs d hok
    rw [hd] at hok
    cases ho : overrideFor policies action role with
    | error e =>
      rw [ho] at hok
      cases hok
    | ok v =>
      obtain ⟨h1, h2, rfl⟩ := overrideFor_ok.mp ho
      rcases @tighten_spec repr (stated policies action role)
        (needHuman sideEffect (rule.judged args facts policies)) with ⟨-, ht⟩ | ⟨hh, -⟩
      · rw [ho] at hok
        change (raises (tighten repr _ _) >>= _) = _ at hok
        rw [ht] at hok
        cases hok
      · exact hs ⟨h1, h2, hh⟩
  · intro hs
    have ho : overrideFor policies action role = .ok (stated policies action role) :=
      overrideFor_ok.mpr ⟨hs.overrides, hs.entry, rfl⟩
    rcases @tighten_spec repr (stated policies action role)
      (needHuman sideEffect (rule.judged args facts policies)) with
        ⟨hh, -⟩ | ⟨-, outcome, reasons, ht, hmax⟩
    · have := hs.override
      rw [hh] at this
      cases this
    · rw [hd, ho]
      change ∃ d, (raises (tighten repr _ _) >>= _) = _ ∧ _
      rw [ht]
      exact ⟨_, rfl, hmax⟩

theorem needHuman_strict (judged : Outcome × List Str) :
    (needHuman sideEffect judged).1.strictness =
      max judged.1.strictness (if sideEffect = .irreversible then 1 else 0) := by
  unfold needHuman
  by_cases hi : sideEffect = .irreversible
  · by_cases ho : judged.1 = .allow
    · rw [if_pos ⟨hi, ho⟩, if_pos hi, ho]
      rfl
    · rw [if_neg fun h => ho h.2, if_pos hi]
      cases h : judged.1 <;> simp_all [Outcome.strictness]
  · rw [if_neg fun h => hi h.1, if_neg hi, Nat.max_zero]

theorem strictness_le (o : Outcome) : o.strictness ≤ Outcome.deny.strictness := by
  cases o <;> decide

theorem allow_iff {o : Outcome} : o = .allow ↔ o.strictness = 0 := by
  cases o <;> simp [Outcome.strictness]

/-! The law of the overrides. -/

/-- The company's policies with the overrides taken away. -/
def without (policies : Mapping) : Mapping := policies.filter fun kv => kv.1 ≠ overridesKey

theorem overrides_without : overrides (without policies) = .none := by
  have hn : (without policies).lookup overridesKey = none := by
    rw [List.lookup_eq_none_iff]
    intro kv hkv
    have := (List.mem_filter.mp hkv).2
    simp only [decide_eq_true_eq] at this
    exact bne_iff_ne.mpr (Ne.symm this)
  rw [overrides, hn]
  rfl

theorem shaped_without : Shaped (without policies) action role ∧
    statedStrictness (without policies) action role = 0 := by
  have hs : stated (without policies) action role = .none := by
    rw [stated, overrides_without]
    rfl
  refine ⟨⟨?_, ?_, ?_⟩, ?_⟩
  · rw [overrides_without]
    rfl
  · rw [overrides_without]
    rfl
  · rw [hs]
    rfl
  · rw [statedStrictness, hs]
    rfl

/-- The overrides name an outcome for the action and the role. -/
def Overridden (policies : Mapping) (action role : Str) (o : Outcome) : Prop :=
  ∃ entries roles, policies.lookup overridesKey = some (.dict entries) ∧
    entries.lookup action = some (.dict roles) ∧ roles.lookup role = some (.str o.name)

theorem Overridden.stated {o : Outcome} (h : Overridden policies action role o) :
    statedStrictness policies action role = o.strictness := by
  obtain ⟨entries, roles, ho, he, hr⟩ := h
  have hs : Policy.stated policies action role = .str o.name := by
    simp [Policy.stated, overrides, ho, Value.field, he, hr]
  rw [statedStrictness, hs, Outcome.read_name]

theorem overridden_of_stated {o : Outcome} (h : stated policies action role = .str o.name) :
    Overridden policies action role o := by
  unfold stated overrides at h
  cases ho : policies.lookup overridesKey with
  | none =>
    rw [ho] at h
    cases h
  | some v =>
    rw [ho, Option.getD_some] at h
    cases v with
    | dict entries =>
      cases he : entries.lookup action with
      | none =>
        simp only [Value.field, he, Option.getD_none] at h
        cases h
      | some w =>
        simp only [Value.field, he, Option.getD_some] at h
        cases w with
        | dict roles =>
          cases hr : roles.lookup role with
          | none =>
            simp only [hr, Option.getD_none] at h
            cases h
          | some x =>
            simp only [hr, Option.getD_some] at h
            exact ⟨entries, roles, ho, he, by rw [hr, h]⟩
        | _ => cases h
    | _ => cases h

/-- The engine decides, never more loosely than without the overrides or than they ask, never
allowing what is irreversible, and denying what no rule covers. -/
def Tightens (repr : Value → Str) (engine : PolicyEngine) (kind : ActorKind) (action : Str)
    (given : Option Str) (args facts policies : Mapping) : Prop :=
  ∃ d, engine.decide repr kind action given args facts policies = .ok d ∧
    (∃ d₀, engine.decide repr kind action given args facts (without policies) = .ok d₀ ∧
      d₀.outcome.strictness ≤ d.outcome.strictness) ∧
    (∀ role o, roleOf kind given = some role → Overridden policies action role o →
      o.strictness ≤ d.outcome.strictness) ∧
    (engine.actions.lookup action = some .irreversible → d.outcome ≠ .allow) ∧
    ((∀ role, roleOf kind given = some role → engine.ruleFor kind action role = none) →
      d.outcome = .deny)

/-- A limit that the arguments keep within only because its check sees the overrides asks for
no more than the side effect or the override does. -/
def Unloosened (sideEffect : SideEffect) (rule : Rule) (action role : Str)
    (args facts policies : Mapping) : Prop :=
  ∀ limit, rule.limit = some limit → rule.outcome = .allow →
    limit.check args facts policies = none → limit.check args facts (without policies) ≠ none →
      limit.over_ = .allow ∨ (sideEffect = .irreversible ∧ limit.over_ = .needsApproval) ∨
        ∃ o, Overridden policies action role o ∧ limit.over_.strictness ≤ o.strictness

/-- What an irreversible action asks for at least. -/
def floor (sideEffect : SideEffect) : Nat := if sideEffect = .irreversible then 1 else 0

theorem ruled_strict : (ruled sideEffect rule args facts policies).strictness =
    max (rule.judged args facts policies).1.strictness (floor sideEffect) :=
  needHuman_strict _

theorem judged_limit {limit : Limit} (hl : rule.limit = some limit) (ha : rule.outcome = .allow) :
    (rule.judged args facts policies).1 =
      match limit.check args facts policies with
      | none => .allow
      | some _ => limit.over_ := by
  simp only [Rule.judged, hl, ha]
  cases limit.check args facts policies <;> rfl

theorem judged_unlimited (h : ∀ limit, rule.limit = some limit → rule.outcome ≠ .allow) :
    (rule.judged args facts policies).1 = rule.outcome := by
  cases hl : rule.limit with
  | none => simp only [Rule.judged, hl]
  | some limit => simp only [Rule.judged, hl, if_neg (h limit hl)]

/-- The overrides taken away, a rule is no stricter, unless its limit is then exceeded. -/
theorem ruled_without :
    (ruled sideEffect rule args facts (without policies)).strictness ≤
      (ruled sideEffect rule args facts policies).strictness ∨
    ∃ limit, rule.limit = some limit ∧ rule.outcome = .allow ∧
      limit.check args facts policies = none ∧
      limit.check args facts (without policies) ≠ none := by
  rw [ruled_strict, ruled_strict]
  by_cases hlim : ∀ limit, rule.limit = some limit → rule.outcome ≠ .allow
  · rw [judged_unlimited hlim, judged_unlimited hlim]
    exact Or.inl (Nat.le_refl _)
  · simp only [not_forall, not_not] at hlim
    obtain ⟨limit, hl, ha⟩ := hlim
    rw [judged_limit hl ha, judged_limit hl ha]
    cases hc : limit.check args facts policies with
    | none =>
      cases hc' : limit.check args facts (without policies) with
      | none => exact Or.inl (Nat.le_refl _)
      | some violation => exact Or.inr ⟨limit, hl, ha, hc, by rw [hc']; nofun⟩
    | some violation =>
      refine Or.inl ?_
      cases limit.check args facts (without policies) with
      | none => exact max_le_max_right _ (Nat.zero_le _)
      | some violation' => exact Nat.le_refl _

theorem statedStrictness_pos (h : 0 < statedStrictness policies action role) :
    ∃ o, Overridden policies action role o ∧
      statedStrictness policies action role = o.strictness := by
  cases hr : Outcome.read (stated policies action role) with
  | none =>
    rw [statedStrictness, hr] at h
    exact absurd h (Nat.lt_irrefl 0)
  | some o =>
    have ho := overridden_of_stated (Outcome.read_eq.mp hr)
    exact ⟨o, ho, ho.stated⟩

/-- The law of one rule: no looser with the overrides exactly where its limit is unloosened. -/
theorem unloosened_iff : Unloosened sideEffect rule action role args facts policies ↔
    (ruled sideEffect rule args facts (without policies)).strictness ≤
      max (ruled sideEffect rule args facts policies).strictness
        (statedStrictness policies action role) := by
  constructor
  · intro hu
    rcases @ruled_without args facts policies rule sideEffect with hle | ⟨limit, hl, ha, hc, hc'⟩
    · exact Nat.le_trans hle (Nat.le_max_left _ _)
    · obtain ⟨violation, hv⟩ := Option.ne_none_iff_exists'.mp hc'
      rw [ruled_strict, ruled_strict, judged_limit hl ha, judged_limit hl ha, hc, hv]
      rcases hu limit hl ha hc hc' with ho | ⟨hi, ho⟩ | ⟨o, ho, hle⟩
      · rw [ho]
        exact Nat.le_max_left _ _
      · rw [ho, floor, if_pos hi]
        exact Nat.le_max_left _ _
      · rw [ho.stated]
        dsimp only
        omega
  · intro hle limit hl ha hc hc'
    obtain ⟨violation, hv⟩ := Option.ne_none_iff_exists'.mp hc'
    rw [ruled_strict, ruled_strict, judged_limit hl ha, judged_limit hl ha, hc, hv] at hle
    by_cases hs : limit.over_.strictness ≤ statedStrictness policies action role
    · by_cases hz : limit.over_.strictness = 0
      · exact Or.inl (allow_iff.mpr hz)
      · obtain ⟨o, ho, heq⟩ := statedStrictness_pos (show 0 < statedStrictness policies action role by
          omega)
        exact Or.inr (Or.inr ⟨o, ho, heq ▸ hs⟩)
    · have hfloor : limit.over_.strictness ≤ floor sideEffect := by
        simp only [Outcome.strictness] at hle hs ⊢
        omega
      unfold floor at hfloor
      split at hfloor
      · next hi =>
        cases ho : limit.over_ with
        | allow => exact Or.inl rfl
        | needsApproval => exact Or.inr (Or.inl ⟨hi, rfl⟩)
        | deny =>
          rw [ho] at hfloor
          exact absurd hfloor (by decide)
      · exact Or.inl (allow_iff.mpr (Nat.le_zero.mp hfloor))

theorem tightens_iff (repr : Value → Str) (engine : PolicyEngine) (action : Str)
    (given : Option Str) (args facts policies : Mapping) (hk : kind ≠ .human) :
    Tightens repr engine kind action given args facts policies ↔
      engine.actions.lookup action = none ∨ ∃ role, roleOf kind given = some role ∧
        ∀ sideEffect rule, engine.actions.lookup action = some sideEffect →
          engine.ruleFor kind action role = some rule →
          Shaped policies action role ∧
            Unloosened sideEffect rule action role args facts policies := by
  cases ha : engine.actions.lookup action with
  | none =>
    refine iff_of_true ?_ (Or.inl rfl)
    have hd : ∀ p, engine.decide repr kind action given args facts p =
        .ok ⟨.deny, lit "unknown_action", repr (.str action) ++ lit " is not a known action",
          action, given⟩ := by
      intro p
      simp only [PolicyEngine.decide, if_neg hk, ha]
    refine ⟨_, hd _, ⟨_, hd _, Nat.le_refl _⟩, fun _ o _ _ => strictness_le o, nofun,
      fun _ => rfl⟩
  | some sideEffect =>
    rw [or_iff_right (by nofun)]
    cases hr : roleOf kind given with
    | none =>
      refine iff_of_false ?_ nofun
      rintro ⟨d, hd, -⟩
      simp only [PolicyEngine.decide, if_neg hk, ha, hr] at hd
      cases hd
    | some role =>
      cases hc : engine.ruleFor kind action role with
      | none =>
        refine iff_of_true ?_ ⟨role, rfl, fun _ rule _ h => by rw [hc] at h; cases h⟩
        have hd : ∀ p, engine.decide repr kind action given args facts p =
            .ok ⟨.deny, lit "default_deny", lit "no rule lets " ++ role ++ lit " " ++ action,
              action, some role⟩ := by
          intro p
          simp only [PolicyEngine.decide, if_neg hk, ha, hr, hc]
        refine ⟨_, hd _, ⟨_, hd _, Nat.le_refl _⟩, fun _ o _ _ => strictness_le o, nofun,
          fun _ => rfl⟩
      | some rule =>
        obtain ⟨hbad, hgood⟩ := @decide_covered repr engine kind action role given args facts
          policies rule sideEffect hk ha hr hc
        obtain ⟨hsh, hst⟩ := @shaped_without action role policies
        obtain ⟨d₀, hd₀, hm₀⟩ := (@decide_covered repr engine kind action role given args facts
          (without policies) rule sideEffect hk ha hr hc).2 hsh
        rw [hst, Nat.max_zero] at hm₀
        constructor
        · rintro ⟨d, hd, ⟨d₁, hd₁, hle⟩, -, -, -⟩
          have hs : Shaped policies action role := by
            by_contra hs
            exact hbad hs d hd
          obtain ⟨d', hd', hm⟩ := hgood hs
          rw [hd] at hd'
          cases hd'
          rw [hd₀] at hd₁
          cases hd₁
          rw [hm₀, hm] at hle
          refine ⟨role, rfl, fun se r hse hrule => ?_⟩
          cases hse
          rw [hc] at hrule
          cases hrule
          exact ⟨hs, unloosened_iff.mpr hle⟩
        · rintro ⟨role', hr', hall⟩
          cases hr'
          obtain ⟨hs, hu⟩ := hall sideEffect rule rfl hc
          obtain ⟨d, hd, hm⟩ := hgood hs
          refine ⟨d, hd, ⟨d₀, hd₀, ?_⟩, ?_, ?_, ?_⟩
          · rw [hm₀, hm]
            exact unloosened_iff.mp hu
          · intro role'' o hrole ho
            rw [hr] at hrole
            cases hrole
            rw [hm, ho.stated]
            exact Nat.le_max_right _ _
          · intro hi hallow
            rw [ha] at hi
            cases hi
            rw [hallow, ruled_strict] at hm
            simp only [floor, if_true, Outcome.strictness] at hm
            omega
          · intro hnone
            have := hnone role hr
            rw [hc] at this
            cases this

/-- Writers may draft. -/
def draftingEngine : PolicyEngine where
  actions := [(lit "draft", .write)]
  rules := [((lit "draft", lit "writer"), ⟨lit "draft", lit "writer", .allow, none⟩)]
  keyed := List.forall_mem_singleton.mpr rfl
  declared := List.forall_mem_singleton.mpr (by decide +kernel)
  noHuman := List.forall_mem_singleton.mpr (by decide +kernel)

/-- Overrides with an outcome where an object of roles should be. -/
def flatOverrides : Mapping :=
  [(overridesKey, .dict [(lit "draft", .str (lit "deny"))])]

theorem flat_overrides_raise :
    ¬ ∀ (repr : Value → Str) (engine : PolicyEngine) (kind : ActorKind) (action : Str)
      (given : Option Str) (args facts policies : Mapping), kind ≠ .human →
      Tightens repr engine kind action given args facts policies := by
  intro h
  obtain ⟨d, hd, -⟩ := h (fun _ => []) draftingEngine .agent (lit "draft") (some (lit "writer"))
    [] [] flatOverrides nofun
  have hraised : draftingEngine.decide (fun _ => []) .agent (lit "draft") (some (lit "writer"))
      [] [] flatOverrides = .error (.other .attributeError) := by
    rfl
  rw [hraised] at hd
  cases hd

theorem tightens_iff_drafting :
    Tightens (fun _ => []) draftingEngine .agent (lit "draft") none [] [] flatOverrides ↔
      draftingEngine.actions.lookup (lit "draft") = none ∨ ∃ role, roleOf .agent none = some role ∧
        ∀ sideEffect rule, draftingEngine.actions.lookup (lit "draft") = some sideEffect →
          draftingEngine.ruleFor .agent (lit "draft") role = some rule →
          Shaped flatOverrides (lit "draft") role ∧
            Unloosened sideEffect rule (lit "draft") role [] [] flatOverrides :=
  tightens_iff (fun _ => []) draftingEngine (lit "draft") none [] [] flatOverrides nofun

end Autora.Policy
