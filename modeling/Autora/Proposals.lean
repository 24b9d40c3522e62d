import Autora.Opportunities

/-! Every sequence of the business verbs and of `expire_due`: one proposal up for decision
on an opportunity, frozen documents, versions that count up, and opportunities that name
the business they became. -/

namespace Autora.Ventures

open Systems Transactions Refusals
open Autora.Approvals (Actor)

variable {s t u : Portfolio} {ctx : Context} {id : Id} {x : PUnit}

inductive Act where
  | command (ctx : Context) (command : Command)
  | expireDue (company : Id)
  | elapse (time : Time)

def Portfolio.exec (s : Portfolio) : Act → Portfolio
  | .command ctx command => settle Raised.isRefusal (handler ctx command) s
  | .expireDue company => settle Raised.isRefusal (expireDue company) s
  | .elapse time => { s with now := s.now + time }

/-- A company begins with any businesses and with opportunities nobody has looked at. -/
def business : System Portfolio Act where
  init s := s.proposals = [] ∧
    ∀ o ∈ s.opportunities, o.state = .discovered ∧ o.businessUnitId = none
  step s a t := t = s.exec a

/-- An `AdvanceOpportunity` that moves its opportunity and names an existing business: the
target is APPROVED and the business is the company's. -/
def namesItsOwn (s : Portfolio) : Act → Prop
  | .command ctx (.advanceOpportunity c) =>
    match s.opportunities[c.opportunityId]?, OpportunityState.read c.toState,
      c.businessUnitId.bind (s.units[·]?) with
    | some o, some target, some unit =>
      o.companyId = ctx.companyId → target ≠ .rejected →
        opportunityFsm.can o.state target = true →
        target = .approved ∧ unit.companyId = ctx.companyId
    | _, _, _ => True
  | _ => True

instance : ∀ s, DecidablePred (namesItsOwn s)
  | s, .command ctx (.advanceOpportunity c) => by
    show Decidable (match s.opportunities[c.opportunityId]?, OpportunityState.read c.toState,
      c.businessUnitId.bind (s.units[·]?) with
    | some o, some target, some unit =>
      o.companyId = ctx.companyId → target ≠ .rejected →
        opportunityFsm.can o.state target = true →
        target = .approved ∧ unit.companyId = ctx.companyId
    | _, _, _ => True)
    split <;> infer_instance
  | _, .command _ (.scoreOpportunity _ _) => isTrue trivial
  | _, .command _ (.rejectOpportunity _ _) => isTrue trivial
  | _, .command _ (.discoverOpportunity _) => isTrue trivial
  | _, .command _ (.recordOpportunitySignal _ _) => isTrue trivial
  | _, .command _ (.draftProposal _ _) => isTrue trivial
  | _, .command _ (.submitProposal _) => isTrue trivial
  | _, .command _ (.createBusinessUnit _) => isTrue trivial
  | _, .expireDue _ => isTrue trivial
  | _, .elapse _ => isTrue trivial

/-! What holds between two steps. -/

def OneSubmitted (s : Portfolio) : Prop :=
  ∀ (i j : Nat) (p q : BusinessProposal), s.proposals[i]? = some p → s.proposals[j]? = some q →
    p.opportunityId = q.opportunityId → p.state = .submitted → q.state = .submitted → i = j

/-- The versions of an opportunity's proposals, first to last. -/
def Portfolio.versions (s : Portfolio) (opportunity : Id) : List Nat :=
  (s.proposalsFor opportunity).map BusinessProposal.version

def CountsUp (s : Portfolio) : Prop :=
  ∀ opportunity, s.versions opportunity = List.range' 1 (s.versions opportunity).length

structure Opportunity.Sound (s : Portfolio) (o : Opportunity) : Prop where
  named : o.businessUnitId.isSome ↔ o.state = .approved
  ours : ∀ b, o.businessUnitId = some b → ∃ unit, s.units[b]? = some unit ∧
    unit.companyId = o.companyId

structure Sound (s : Portfolio) : Prop where
  one : OneSubmitted s
  counts : CountsUp s
  names : ∀ (i : Nat) (o : Opportunity), s.opportunities[i]? = some o → o.Sound s
  linked : ∀ (i : Nat) (p : BusinessProposal), s.proposals[i]? = some p →
    ∃ o, s.opportunities[p.opportunityId]? = some o ∧ o.companyId = p.companyId

/-- Proposals that were put up say what they said. -/
def Frozen (s t : Portfolio) : Prop :=
  ∀ (i : Nat) (p : BusinessProposal), s.proposals[i]? = some p → p.state ≠ .draft →
    ∃ q, t.proposals[i]? = some q ∧ q.state ≠ .draft ∧ q.content = p.content ∧
      q.opportunityId = p.opportunityId ∧ q.version = p.version

/-- Every business opened in the step comes of one proposal, put up for decision about an
opportunity that is being evaluated or validated. -/
def OpenedWell (s t : Portfolio) : Prop :=
  ∀ b, s.units.length ≤ b → b < t.units.length →
    ∃ (i : Nat) (p : BusinessProposal) (o : Opportunity),
      s.proposals[i]? = some p ∧ p.state = .submitted ∧
      s.opportunities[p.opportunityId]? = some o ∧
      (o.state = .evaluating ∨ o.state = .validating) ∧
      (t.proposals[i]?.bind BusinessProposal.businessUnitId) = some b ∧
      (t.opportunities[p.opportunityId]?.bind Opportunity.businessUnitId) = some b

/-! What a step does to the tables. -/

/-- The opportunity moves, and is pointed at a business when one is given. -/
structure Advanced (id : Id) (target : OpportunityState) (unit : Option Id)
    (s t : Portfolio) : Prop where
  legal : ∃ o, s.opportunities[id]? = some o ∧ opportunityFsm.can o.state target = true ∧
    ∀ b, unit = some b → b < s.units.length
  named : target = .approved → unit ≠ none
  written : ∃ f : Opportunity → Opportunity, t.opportunities = s.opportunities.modify id f ∧
    ∀ o, (f o).companyId = o.companyId ∧ (f o).state = target ∧
      (f o).businessUnitId = if unit.isSome then unit else o.businessUnitId
  proposals : t.proposals = s.proposals
  units : t.units = s.units

theorem setOpportunity_opportunities {f : Opportunity → Opportunity} :
    (s.setOpportunity id f).opportunities = s.opportunities.modify id f := rfl

theorem returns_moveOpportunity {target : OpportunityState}
    (h : Returns (moveOpportunity id target) s x t) :
    ∃ o, s.opportunities[id]? = some o ∧ opportunityFsm.can o.state target = true ∧
      (∀ b, o.businessUnitId = some b → b < s.units.length) ∧
      t = s.setOpportunity id fun o => { o with state := target } := by
  simp only [moveOpportunity, returns_bind, returns_get, returns_found, returns_ensure,
    returns_modify] at h
  obtain ⟨_, _, ⟨rfl, rfl⟩, o, _, ⟨ho, rfl⟩, _, _, ⟨hc, rfl⟩, _, _, ⟨hb, rfl⟩, rfl⟩ := h
  refine ⟨o, ho, hc, ?_, rfl⟩
  intro b hob
  simpa [hob] using hb

theorem Opportunity.told_keeps {target : OpportunityState} {actor : Actor}
    {reason : Option String} {unit : Option Id} {now : Time} (o : Opportunity) :
    (o.told target actor reason unit now).companyId = o.companyId ∧
      (o.told target actor reason unit now).state = o.state ∧
      (o.told target actor reason unit now).businessUnitId =
        if unit.isSome then unit else o.businessUnitId := by
  unfold Opportunity.told
  split <;> split <;> simp_all

theorem returns_advance {target : OpportunityState} {actor : Actor} {reason : Option String}
    {unit : Option Id} (h : Returns (advance id target actor reason unit) s x t) :
    Advanced id target unit s t := by
  simp only [advance, returns_bind, returns_ensure, returns_modify] at h
  obtain ⟨_, _, ⟨hn, rfl⟩, _, _, rfl, h⟩ := h
  obtain ⟨o, ho, hc, hb, rfl⟩ := returns_moveOpportunity h
  rw [setOpportunity_opportunities, List.getElem?_modify_eq] at ho
  obtain ⟨o', ho', rfl⟩ := Option.map_eq_some_iff.mp ho
  rw [o'.told_keeps.2.1] at hc
  refine ⟨⟨o', ho', hc, ?_⟩, fun ht hnone => hn ⟨ht, hnone⟩,
    ⟨_, by rw [setOpportunity_opportunities, setOpportunity_opportunities,
      List.modify_modify_eq], fun o => ?_⟩, rfl, rfl⟩
  · intro b hbb
    exact hb b (by rw [o'.told_keeps.2.2, hbb]; rfl)
  · exact ⟨o.told_keeps.1, rfl, o.told_keeps.2.2⟩

/-- A proposal is rewritten in place; what it says stays. -/
structure Rewritten (g : Nat → BusinessProposal → BusinessProposal) (s t : Portfolio) : Prop where
  rows : ∀ j : Nat, t.proposals[j]? = (s.proposals[j]?).map (g j)
  content : ∀ j p, (g j p).content = p.content
  company : ∀ j p, (g j p).companyId = p.companyId
  opportunity : ∀ j p, (g j p).opportunityId = p.opportunityId
  version : ∀ j p, (g j p).version = p.version

theorem versions_congr (h : t.proposals.map (fun p => (p.opportunityId, p.version)) =
    s.proposals.map fun p => (p.opportunityId, p.version)) (opportunity : Id) :
    t.versions opportunity = s.versions opportunity := by
  have key : ∀ l : List BusinessProposal,
      (l.filter fun p => p.opportunityId = opportunity).map BusinessProposal.version =
        ((l.map fun p => (p.opportunityId, p.version)).filter fun k => k.1 = opportunity).map
          Prod.snd := by
    intro l
    rw [List.filter_map, List.map_map]
    rfl
  show (t.proposals.filter _).map _ = (s.proposals.filter _).map _
  rw [key, key, h]

theorem Rewritten.versions {g : Nat → BusinessProposal → BusinessProposal}
    (h : Rewritten g s t) (opportunity : Id) : t.versions opportunity = s.versions opportunity := by
  apply versions_congr
  apply List.ext_getElem?
  intro j
  rw [List.getElem?_map, List.getElem?_map, h.rows j, Option.map_map]
  congr 1
  funext p
  show ((g j p).opportunityId, (g j p).version) = _
  rw [h.opportunity, h.version]

theorem Rewritten.row {g : Nat → BusinessProposal → BusinessProposal} (h : Rewritten g s t)
    {j : Nat} {q : BusinessProposal} (hq : t.proposals[j]? = some q) :
    ∃ p, s.proposals[j]? = some p ∧ g j p = q := by
  rw [h.rows j] at hq
  exact Option.map_eq_some_iff.mp hq

theorem setProposal_rewritten {f : BusinessProposal → BusinessProposal}
    (hc : ∀ p, (f p).content = p.content) (ho : ∀ p, (f p).companyId = p.companyId)
    (hp : ∀ p, (f p).opportunityId = p.opportunityId) (hv : ∀ p, (f p).version = p.version) :
    Rewritten (fun j p => if j = id then f p else p) s (s.setProposal id f) where
  rows j := by
    show (s.proposals.modify id f)[j]? = _
    rw [List.getElem?_modify]
    cases s.proposals[j]? with
    | none => rfl
    | some p =>
      by_cases h : id = j
      · simp [h]
      · simp [h, Ne.symm h]
  content j p := by split <;> simp [hc]
  company j p := by split <;> simp [ho]
  opportunity j p := by split <;> simp [hp]
  version j p := by split <;> simp [hv]

theorem setProposal_setProposal {f g : BusinessProposal → BusinessProposal} :
    (s.setProposal id f).setProposal id g = s.setProposal id (g ∘ f) := by
  simp only [Portfolio.setProposal, List.modify_modify_eq]

theorem Rewritten.of_eq {g : Nat → BusinessProposal → BusinessProposal} (h : Rewritten g s t)
    (hs : s.proposals = u.proposals) : Rewritten g u t :=
  ⟨fun j => hs ▸ h.rows j, h.content, h.company, h.opportunity, h.version⟩

theorem returns_moveProposal {target : ProposalState} (h : Returns (moveProposal target id) s x t) :
    ∃ p, s.proposals[id]? = some p ∧ proposalFsm.can p.state target = true ∧
      t = s.setProposal id fun p => { p with state := target } := by
  simp only [moveProposal, returns_bind, returns_get, returns_found, returns_ensure,
    returns_modify] at h
  obtain ⟨_, _, ⟨rfl, rfl⟩, p, _, ⟨hp, rfl⟩, _, _, ⟨hc, rfl⟩, rfl⟩ := h
  exact ⟨p, hp, hc, rfl⟩

theorem returns_supersede {ids : List Id}
    (h : Returns (forEach (moveProposal .superseded) ids) s x t) :
    t.opportunities = s.opportunities ∧ t.units = s.units ∧
      ∀ j : Nat, t.proposals[j]? = (s.proposals[j]?).map fun p =>
        if j ∈ ids then { p with state := .superseded } else p := by
  induction ids generalizing s with
  | nil =>
    rw [returns_forEach_nil] at h
    subst h
    exact ⟨rfl, rfl, fun j => by simp⟩
  | cons i ids ih =>
    obtain ⟨u, hu, h⟩ := returns_forEach_cons.mp h
    obtain ⟨p, hp, -, rfl⟩ := returns_moveProposal hu
    obtain ⟨ho, hn, hr⟩ := ih h
    refine ⟨ho, hn, fun j => ?_⟩
    rw [hr j]
    show ((s.proposals.modify i _)[j]?).map _ = _
    rw [List.getElem?_modify, Option.map_eq_map, Option.map_map]
    congr 1
    funext q
    by_cases hij : i = j
    · subst hij
      by_cases hm : i ∈ ids <;> simp [hm]
    · by_cases hm : j ∈ ids <;> simp [hm, hij, Ne.symm hij]

/-- The proposals after one of them was put up. -/
def putUp (id opportunity : Id) (j : Nat) (p : BusinessProposal) : BusinessProposal :=
  if j = id then { p with state := .submitted }
  else if p.opportunityId = opportunity ∧ p.state = .submitted then { p with state := .superseded }
  else p

theorem putUp_rewritten {opportunity : Id}
    (h : ∀ j : Nat, t.proposals[j]? = (s.proposals[j]?).map (putUp id opportunity j)) :
    Rewritten (putUp id opportunity) s t := by
  refine ⟨h, ?_, ?_, ?_, ?_⟩ <;>
  · intro j p
    unfold putUp
    split
    · rfl
    · split <;> rfl

theorem mem_earlier {opportunity : Id} {j : Nat} :
    j ∈ s.earlier opportunity id ↔ ∃ p, s.proposals[j]? = some p ∧
      p.opportunityId = opportunity ∧ j ≠ id ∧ p.state = .submitted := by
  simp only [Portfolio.earlier, List.mem_filter, List.mem_range, Option.any_eq_true,
    Bool.and_eq_true, decide_eq_true_eq, ne_eq]
  constructor
  · rintro ⟨-, p, hp, ⟨ho, hj⟩, hs⟩
    exact ⟨p, hp, ho, hj, hs⟩
  · rintro ⟨p, hp, ho, hj, hs⟩
    exact ⟨(List.getElem?_eq_some_iff.mp hp).1, p, hp, ⟨ho, hj⟩, hs⟩

theorem returns_submit {opportunity : Id} (h : Returns (submit id opportunity) s x t) :
    (∃ p, s.proposals[id]? = some p ∧ p.state = .draft) ∧ t.opportunities = s.opportunities ∧
      t.units = s.units ∧ Rewritten (putUp id opportunity) s t := by
  simp only [submit, returns_bind, returns_get] at h
  obtain ⟨_, s, ⟨rfl, rfl⟩, _, _, hu, h⟩ := h
  obtain ⟨p, hp, hc, rfl⟩ := returns_moveProposal hu
  obtain ⟨ho, hn, hr⟩ := returns_supersede h
  refine ⟨⟨p, hp, ?_⟩, ho, hn, putUp_rewritten fun j => ?_⟩
  · cases hstate : p.state <;> simp_all [StateMachine.can, StateMachine.allowedFrom, proposalFsm]
  · rw [hr j]
    show ((s.proposals.modify id _)[j]?).map _ = _
    rw [List.getElem?_modify, Option.map_eq_map, Option.map_map]
    cases hq : s.proposals[j]? with
    | none => rfl
    | some q =>
      have hm : j ∈ s.earlier opportunity id ↔
          q.opportunityId = opportunity ∧ j ≠ id ∧ q.state = .submitted := by
        rw [mem_earlier, hq]
        simp only [Option.some.injEq, exists_eq_left']
      by_cases hj : j = id
      · subst hj
        simp [hm, putUp]
      · by_cases hs : q.opportunityId = opportunity ∧ q.state = .submitted
        · simp [hm, putUp, hj, hs, Ne.symm hj]
        · simp [hm, putUp, hj, hs, Ne.symm hj]

/-- The tables an opportunity, its proposals and its business are in stay as they are. -/
structure SameTables (s t : Portfolio) : Prop where
  opportunities : t.opportunities = s.opportunities
  proposals : t.proposals = s.proposals
  units : t.units = s.units

theorem SameTables.trans (h : SameTables s t) (h' : SameTables t u) : SameTables s u :=
  ⟨h'.opportunities.trans h.opportunities, h'.proposals.trans h.proposals,
    h'.units.trans h.units⟩

theorem returns_recordSignal {signal : SignalInput} {ref : Option String}
    (h : Returns (recordSignal ctx id signal ref) s x t) : SameTables s t := by
  rw [recordSignal, returns_modify] at h
  subst h
  exact ⟨rfl, rfl, rfl⟩

theorem returns_recordSignals {signals : List (SignalInput × Option String)}
    (h : Returns (forEach (fun p => recordSignal ctx id p.1 p.2) signals) s x t) :
    SameTables s t := by
  induction signals generalizing s with
  | nil =>
    rw [returns_forEach_nil] at h
    subst h
    exact ⟨rfl, rfl, rfl⟩
  | cons p signals ih =>
    obtain ⟨u, hu, h⟩ := returns_forEach_cons.mp h
    exact (returns_recordSignal hu).trans (ih h)

theorem returns_firstProduct {content : ProposalContent}
    (h : Returns (firstProduct ctx id content) s x t) : SameTables s t := by
  simp only [firstProduct, returns_ite, returns_pure, returns_bind, returns_vetted, returns_get,
    returns_ensure, returns_modify] at h
  rcases h with ⟨-, -, rfl⟩ | ⟨-, _, _, ⟨-, rfl⟩, _, _, ⟨-, rfl⟩, _, _, ⟨rfl, rfl⟩,
    _, _, ⟨-, rfl⟩, _, _, ⟨-, rfl⟩, rfl⟩
  · exact ⟨rfl, rfl, rfl⟩
  · exact ⟨rfl, rfl, rfl⟩

theorem returns_openingCapital {proposal : Id} {capital : Rat}
    (h : Returns (openingCapital ctx id proposal capital) s x t) : SameTables s t := by
  simp only [openingCapital, returns_ite, returns_pure, returns_bind, returns_ensure,
    returns_modify] at h
  rcases h with ⟨-, _, _, ⟨-, rfl⟩, rfl⟩ | ⟨-, -, rfl⟩
  · exact ⟨rfl, rfl, rfl⟩
  · exact ⟨rfl, rfl, rfl⟩

theorem returns_opportunityOf {o : Opportunity} (h : Returns (opportunityOf ctx id) s o t) :
    s.opportunities[id]? = some o ∧ o.companyId = ctx.companyId ∧ t = s := by
  simp only [opportunityOf, returns_bind, returns_get, returns_found, returns_ensure,
    returns_pure] at h
  obtain ⟨_, _, ⟨rfl, rfl⟩, _, _, ⟨ho, rfl⟩, _, _, ⟨hc, rfl⟩, rfl, rfl⟩ := h
  exact ⟨ho, hc, rfl⟩

theorem returns_proposalOf {p : BusinessProposal} (h : Returns (proposalOf ctx id) s p t) :
    s.proposals[id]? = some p ∧ p.companyId = ctx.companyId ∧ t = s := by
  simp only [proposalOf, returns_bind, returns_get, returns_found, returns_ensure,
    returns_pure] at h
  obtain ⟨_, _, ⟨rfl, rfl⟩, _, _, ⟨hp, rfl⟩, _, _, ⟨hc, rfl⟩, rfl, rfl⟩ := h
  exact ⟨hp, hc, rfl⟩

/-- The business and the approval of its proposal are written; the opportunity is not yet. -/
structure Opening (id : Id) (p : BusinessProposal) (s t : Portfolio) : Prop where
  opportunities : t.opportunities = s.opportunities
  submitted : s.proposals[id]? = some p ∧ p.state = .submitted
  unit : ∃ w, t.units = s.units ++ [w] ∧ w.companyId = p.companyId
  approved : ∃ f : BusinessProposal → BusinessProposal,
    Rewritten (fun j q => if j = id then f q else q) s t ∧
      ∀ q, (f q).state = .approved ∧ (f q).businessUnitId = some s.units.length

theorem returns_decide {outcome : ProposalState} {reason : Option String}
    (h : Returns (decide id outcome reason) s x t) :
    t = s.setProposal id fun p =>
      { p with decidedAt := some s.now, decisionReason := reason, state := outcome } := by
  simp only [decide, returns_bind, returns_ensure, returns_modify] at h
  obtain ⟨_, _, ⟨-, rfl⟩, _, _, rfl, h⟩ := h
  obtain ⟨-, -, -, rfl⟩ := returns_moveProposal h
  exact setProposal_setProposal

theorem returns_createBusinessUnit {c : CreateBusinessUnit}
    (h : Returns (createBusinessUnit ctx c) s x t) :
    ∃ p u v, Opening c.proposalId p s u ∧
      Advanced p.opportunityId .approved (some s.units.length) u v ∧ SameTables v t := by
  simp only [createBusinessUnit, returns_bind, returns_ensure, returns_get, returns_found,
    returns_modify] at h
  obtain ⟨p, _, hp, _, _, ⟨hs, rfl⟩, _, s, ⟨rfl, rfl⟩, o, _, ⟨ho, rfl⟩, _, _, ⟨-, rfl⟩,
    _, _, rfl, _, a, hprod, _, _, rfl, _, b, hdec, _, v, hadv, hcap⟩ := h
  obtain ⟨hp, hcompany, hpost⟩ := returns_proposalOf hp
  subst hpost
  obtain ⟨hopp, hprop, hunits⟩ := returns_firstProduct hprod
  obtain rfl := returns_decide hdec
  rw [setProposal_setProposal] at hadv
  refine ⟨p, _, v, ?_, returns_advance hadv, returns_openingCapital hcap⟩
  refine ⟨hopp, ⟨hp, hs⟩, ⟨_, hunits, hcompany.symm⟩, _, Rewritten.of_eq (setProposal_rewritten
    (fun _ => rfl) (fun _ => rfl) (fun _ => rfl) fun _ => rfl) hprop, fun q => ⟨rfl, rfl⟩⟩

/-! What keeps the invariant. -/

theorem Portfolio.versions_eq (h : t.proposals = s.proposals) (opportunity : Id) :
    t.versions opportunity = s.versions opportunity := by
  unfold Portfolio.versions Portfolio.proposalsFor
  rw [h]

/-- A step that touches neither the proposals nor the businesses there are. -/
theorem Sound.opportunities (hs : Sound s) (hp : t.proposals = s.proposals)
    (ho : ∀ (i : Nat) (o : Opportunity), s.opportunities[i]? = some o →
      ∃ o', t.opportunities[i]? = some o' ∧ o'.companyId = o.companyId)
    (hn : ∀ (i : Nat) (o : Opportunity), t.opportunities[i]? = some o → o.Sound t) : Sound t where
  one i j p q := by
    rw [hp]
    exact hs.one i j p q
  counts opportunity := by
    rw [Portfolio.versions_eq hp]
    exact hs.counts opportunity
  names := hn
  linked i p hi := by
    rw [hp] at hi
    obtain ⟨o, hoi, hc⟩ := hs.linked i p hi
    obtain ⟨o', ho', hc'⟩ := ho _ o hoi
    exact ⟨o', ho', hc'.trans hc⟩

theorem Opportunity.Sound.mono {o : Opportunity} (h : o.Sound s)
    (hu : ∀ (b : Nat) (w : BusinessUnit), s.units[b]? = some w → t.units[b]? = some w) :
    o.Sound t where
  named := h.named
  ours b hb := by
    obtain ⟨w, hw, hc⟩ := h.ours b hb
    exact ⟨w, hu b w hw, hc⟩

theorem SameTables.sound (h : SameTables s t) (hs : Sound s) : Sound t := by
  apply hs.opportunities h.proposals
  · intro i o ho
    exact ⟨o, by rw [h.opportunities, ho], rfl⟩
  · intro i o ho
    rw [h.opportunities] at ho
    exact (hs.names i o ho).mono fun b w hw => by rw [h.units, hw]

/-- The move names no business, or it approves and names one of the opportunity's company. -/
def NamesOurs (s : Portfolio) (id : Id) (target : OpportunityState) (unit : Option Id) : Prop :=
  ∀ o b w, s.opportunities[id]? = some o → unit = some b → s.units[b]? = some w →
    target = .approved ∧ w.companyId = o.companyId

theorem can_from_open {a b : OpportunityState} (h : opportunityFsm.can a b = true) :
    a ≠ .approved ∧ a ≠ .rejected ∧ a ≠ .expired := by
  cases a <;> simp_all [StateMachine.can, StateMachine.allowedFrom, opportunityFsm]

theorem Advanced.sound {target : OpportunityState} {unit : Option Id}
    (h : Advanced id target unit s t) (hs : Sound s) (hn : NamesOurs s id target unit) :
    Sound t := by
  obtain ⟨o, ho, hc, hb⟩ := h.legal
  obtain ⟨f, hf, hk⟩ := h.written
  apply hs.opportunities h.proposals
  · intro i o' ho'
    rw [hf, List.getElem?_modify, ho']
    by_cases hi : id = i
    · exact ⟨f o', by simp [hi], (hk o').1⟩
    · exact ⟨o', by simp [hi], rfl⟩
  · intro i o' ho'
    rw [hf, List.getElem?_modify] at ho'
    by_cases hi : id = i
    · subst hi
      simp only [ho, if_true, Option.map_eq_map, Option.map_some, Option.some.injEq] at ho'
      subst ho'
      have hunnamed : o.businessUnitId = none := by
        rw [← Option.not_isSome_iff_eq_none, (hs.names id o ho).named]
        exact (can_from_open hc).1
      cases unit with
      | none =>
        have hnone : (f o).businessUnitId = none := by
          rw [(hk o).2.2]
          exact hunnamed
        refine ⟨?_, by rw [hnone]; nofun⟩
        rw [hnone, (hk o).2.1]
        exact ⟨nofun, fun h' => absurd rfl (h.named h')⟩
      | some b =>
        have hsome : (f o).businessUnitId = some b := (hk o).2.2
        have hw : s.units[b]? = some (s.units.get ⟨b, hb b rfl⟩) := List.getElem?_eq_getElem _
        obtain ⟨ht, hcompany⟩ := hn o b _ ho rfl hw
        refine ⟨?_, ?_⟩
        · rw [hsome, (hk o).2.1]
          exact ⟨fun _ => ht, fun _ => rfl⟩
        · intro b' hb'
          obtain rfl := Option.some.inj (hsome.symm.trans hb')
          exact ⟨_, by rw [h.units]; exact hw, by rw [(hk o).1]; exact hcompany⟩
    · simp only [hi, if_false, Option.map_eq_map, Option.map_id'] at ho'
      exact (hs.names i o' ho').mono fun b w hw => by rw [h.units, hw]

theorem Sound.discovered {o : Opportunity} (hs : Sound s) (hstate : o.state = .discovered)
    (hn : o.businessUnitId = none) (ho : t.opportunities = s.opportunities ++ [o])
    (hp : t.proposals = s.proposals) (hu : t.units = s.units) : Sound t := by
  apply hs.opportunities hp
  · intro i o' ho'
    have hi := (List.getElem?_eq_some_iff.mp ho').1
    exact ⟨o', by rw [ho, List.getElem?_append_left hi, ho'], rfl⟩
  · intro i o' ho'
    rw [ho] at ho'
    by_cases hi : i < s.opportunities.length
    · rw [List.getElem?_append_left hi] at ho'
      exact (hs.names i o' ho').mono fun b w hw => by rw [hu, hw]
    · rw [List.getElem?_append_right (by omega)] at ho'
      obtain rfl := List.mem_singleton.mp (List.mem_of_getElem? ho')
      exact ⟨by rw [hn, hstate]; exact ⟨nofun, nofun⟩, by rw [hn]; nofun⟩

theorem Sound.scored {score : Rat} (hs : Sound s) :
    Sound (s.setOpportunity id fun o => { o with score := some score }) := by
  have hrow : ∀ i : Nat, (s.setOpportunity id fun o =>
      { o with score := some score }).opportunities[i]? = (s.opportunities[i]?).map fun o =>
        if id = i then { o with score := some score } else o := by
    intro i
    rw [setOpportunity_opportunities, List.getElem?_modify]
    by_cases h : id = i <;> simp [h]
  apply hs.opportunities (t := s.setOpportunity id fun o => { o with score := some score }) rfl
  · intro i o ho
    refine ⟨_, by rw [hrow, ho]; rfl, ?_⟩
    split <;> rfl
  · intro i o ho
    rw [hrow] at ho
    obtain ⟨o', ho', rfl⟩ := Option.map_eq_some_iff.mp ho
    obtain ⟨hnamed, hours⟩ := hs.names i o' ho'
    split <;> exact ⟨hnamed, hours⟩

theorem lastVersion_eq (hs : CountsUp s) (opportunity : Id) :
    s.lastVersion opportunity = (s.versions opportunity).length := by
  have key : ∀ n : Nat, (List.range' 1 n).foldl max 0 = n := by
    intro n
    induction n with
    | zero => rfl
    | succ n ih =>
      rw [List.range'_1_concat, List.foldl_append, ih]
      show max n (1 + n) = n + 1
      omega
  show (s.versions opportunity).foldl max 0 = _
  rw [hs opportunity, key, List.length_range']

theorem Sound.drafted {p : BusinessProposal} {o : Opportunity} (hs : Sound s)
    (hd : p.state = .draft) (hv : p.version = s.lastVersion p.opportunityId + 1)
    (ho : s.opportunities[p.opportunityId]? = some o) (hc : o.companyId = p.companyId)
    (hp : t.proposals = s.proposals ++ [p]) (hopp : t.opportunities = s.opportunities)
    (hu : t.units = s.units) : Sound t := by
  have hrow : ∀ (i : Nat) (q : BusinessProposal), t.proposals[i]? = some q →
      s.proposals[i]? = some q ∨ q = p := by
    intro i q hq
    rw [hp] at hq
    by_cases hi : i < s.proposals.length
    · rw [List.getElem?_append_left hi] at hq
      exact .inl hq
    · rw [List.getElem?_append_right (by omega)] at hq
      exact .inr (List.mem_singleton.mp (List.mem_of_getElem? hq))
  refine ⟨?_, ?_, ?_, ?_⟩
  · intro i j q r hq hr hqr hqs hrs
    rcases hrow i q hq with hq | rfl
    · rcases hrow j r hr with hr | rfl
      · exact hs.one i j q r hq hr hqr hqs hrs
      · rw [hd] at hrs
        cases hrs
    · rw [hd] at hqs
      cases hqs
  · intro opportunity
    have hold := hs.counts opportunity
    have hlast := lastVersion_eq hs.counts opportunity
    unfold Portfolio.versions Portfolio.proposalsFor at hold hlast ⊢
    rw [hp, List.filter_append, List.map_append]
    by_cases hopp : p.opportunityId = opportunity
    · subst hopp
      simp only [decide_true, List.filter_cons_of_pos, List.filter_nil, List.map_cons,
        List.map_nil, List.length_append, List.length_singleton]
      rw [hv, hlast, List.range'_1_concat, ← hold, Nat.add_comm 1]
    · simpa [hopp] using hold
  · intro i o' ho'
    rw [hopp] at ho'
    exact (hs.names i o' ho').mono fun b w hw => by rw [hu, hw]
  · intro i q hq
    rw [hopp]
    rcases hrow i q hq with hq | rfl
    · exact hs.linked i q hq
    · exact ⟨o, ho, hc⟩

theorem Rewritten.sound {g : Nat → BusinessProposal → BusinessProposal} (h : Rewritten g s t)
    (hs : Sound s) (ho : t.opportunities = s.opportunities)
    (hu : ∀ (b : Nat) (w : BusinessUnit), s.units[b]? = some w → t.units[b]? = some w)
    (hone : OneSubmitted t) : Sound t where
  one := hone
  counts opportunity := by
    rw [h.versions]
    exact hs.counts opportunity
  names i o hi := by
    rw [ho] at hi
    exact (hs.names i o hi).mono hu
  linked i q hq := by
    obtain ⟨p, hp, rfl⟩ := h.row hq
    rw [ho, h.opportunity, h.company]
    exact hs.linked i p hp

theorem Sound.submitted {p : BusinessProposal} (hs : Sound s) (hp : s.proposals[id]? = some p)
    (h : Rewritten (putUp id p.opportunityId) s t) (ho : t.opportunities = s.opportunities)
    (hu : t.units = s.units) : Sound t := by
  apply h.sound hs ho (fun b w hw => by rw [hu, hw])
  have other : ∀ (j : Nat) (q : BusinessProposal), j ≠ id → s.proposals[j]? = some q →
      (putUp id p.opportunityId j q).state = .submitted →
      q.state = .submitted ∧ q.opportunityId ≠ p.opportunityId := by
    intro j q hj hq hstate
    unfold putUp at hstate
    rw [if_neg hj] at hstate
    by_cases hc : q.opportunityId = p.opportunityId ∧ q.state = .submitted
    · rw [if_pos hc] at hstate
      cases hstate
    · rw [if_neg hc] at hstate
      exact ⟨hstate, fun h' => hc ⟨h', hstate⟩⟩
  intro i j q r hq hr hqr hqs hrs
  obtain ⟨q, hq', rfl⟩ := h.row hq
  obtain ⟨r, hr', rfl⟩ := h.row hr
  rw [h.opportunity, h.opportunity] at hqr
  by_cases hi : i = id
  · by_cases hj : j = id
    · rw [hi, hj]
    · obtain rfl := Option.some.inj (hq'.symm.trans (hi ▸ hp))
      exact absurd hqr.symm (other j r hj hr' hrs).2
  · by_cases hj : j = id
    · obtain rfl := Option.some.inj (hr'.symm.trans (hj ▸ hp))
      exact absurd hqr (other i q hi hq' hqs).2
    · exact hs.one i j q r hq' hr' hqr (other i q hi hq' hqs).1 (other j r hj hr' hrs).1

theorem Opening.sound {p : BusinessProposal} (h : Opening id p s t) (hs : Sound s) :
    Sound t := by
  obtain ⟨w, hw, -⟩ := h.unit
  obtain ⟨f, hf, hk⟩ := h.approved
  apply hf.sound hs h.opportunities
  · intro b w' hb
    rw [hw, List.getElem?_append_left (List.getElem?_eq_some_iff.mp hb).1, hb]
  · have same : ∀ (j : Nat) (q : BusinessProposal),
        (if j = id then f q else q).state = .submitted → q.state = .submitted := by
      intro j q hq
      by_cases hj : j = id
      · rw [if_pos hj, (hk q).1] at hq
        cases hq
      · rwa [if_neg hj] at hq
    intro i j q r hq hr hqr hqs hrs
    obtain ⟨q, hq', rfl⟩ := hf.row hq
    obtain ⟨r, hr', rfl⟩ := hf.row hr
    rw [hf.opportunity, hf.opportunity] at hqr
    exact hs.one i j q r hq' hr' hqr (same i q hqs) (same j r hrs)

/-! The steps. -/

/-- What a step does to the opportunities, the proposals and the businesses. -/
inductive Change (s t : Portfolio) : Prop where
  | still (h : SameTables s t)
  | discovered (o : Opportunity) (hstate : o.state = .discovered) (hn : o.businessUnitId = none)
    (ho : t.opportunities = s.opportunities ++ [o]) (hp : t.proposals = s.proposals)
    (hu : t.units = s.units)
  | scored (id : Id) (score : Rat)
    (h : t = s.setOpportunity id fun o => { o with score := some score })
  | advanced (id : Id) (target : OpportunityState) (unit : Option Id)
    (h : Advanced id target unit s t) (hn : NamesOurs s id target unit)
  | expired (h : Relation.ReflTransGen (fun s t => ∃ id, Advanced id .expired none s t) s t)
  | drafted (p : BusinessProposal) (o : Opportunity) (hd : p.state = .draft)
    (hv : p.version = s.lastVersion p.opportunityId + 1)
    (ho : s.opportunities[p.opportunityId]? = some o) (hc : o.companyId = p.companyId)
    (hp : t.proposals = s.proposals ++ [p]) (hopp : t.opportunities = s.opportunities)
    (hu : t.units = s.units)
  | submitted (id : Id) (p : BusinessProposal) (hp : s.proposals[id]? = some p)
    (hd : p.state = .draft) (h : Rewritten (putUp id p.opportunityId) s t)
    (ho : t.opportunities = s.opportunities) (hu : t.units = s.units)
  | opened (id : Id) (p : BusinessProposal) (u v : Portfolio) (h : Opening id p s u)
    (ha : Advanced p.opportunityId .approved (some s.units.length) u v) (h' : SameTables v t)

theorem namesOurs_none {target : OpportunityState} : NamesOurs s id target none := by
  intro _ _ _ _ h
  cases h

theorem Change.sound (h : Change s t) (hs : Sound s) : Sound t := by
  cases h with
  | still h => exact h.sound hs
  | discovered o hstate hn ho hp hu => exact hs.discovered hstate hn ho hp hu
  | scored id score h =>
    subst h
    exact hs.scored
  | advanced id target unit h hn => exact h.sound hs hn
  | expired h =>
    induction h with
    | refl => exact hs
    | tail _ ha ih =>
      obtain ⟨_, ha⟩ := ha
      exact ha.sound ih namesOurs_none
  | drafted p o hd hv ho hc hp hopp hu => exact hs.drafted hd hv ho hc hp hopp hu
  | submitted id p hp hd h ho hu => exact hs.submitted hp h ho hu
  | opened id p u v h ha h' =>
    refine h'.sound (ha.sound (h.sound hs) ?_)
    intro o b w ho hb hw
    obtain rfl := Option.some.inj hb
    obtain ⟨w', hunits, hc⟩ := h.unit
    rw [hunits, List.getElem?_append_right (Nat.le_refl _), Nat.sub_self] at hw
    obtain rfl := Option.some.inj hw
    obtain ⟨o', ho', hc'⟩ := hs.linked id p h.submitted.1
    rw [h.opportunities, ho'] at ho
    obtain rfl := Option.some.inj ho
    exact ⟨rfl, hc.trans hc'.symm⟩

theorem returns_expireDue {company : Id} (h : Returns (expireDue company) s x t) :
    Relation.ReflTransGen (fun s t => ∃ id, Advanced id .expired none s t) s t := by
  simp only [expireDue, returns_bind, returns_get] at h
  obtain ⟨_, s, ⟨rfl, rfl⟩, h⟩ := h
  generalize s.due company = ids at h
  induction ids generalizing s with
  | nil =>
    rw [returns_forEach_nil] at h
    subst h
    exact .refl
  | cons i ids ih =>
    obtain ⟨u, hu, h⟩ := returns_forEach_cons.mp h
    exact .head ⟨i, returns_advance hu⟩ (ih u h)

/-! Where the errors come from: no refusal is raised after a write. -/

variable {e : Raised}

theorem raises_moveOpportunity {target : OpportunityState}
    (h : Raises (moveOpportunity id target) s e t) : (asRefusal e).isRefusal = false := by
  simp only [moveOpportunity, raises_bind, raises_get, raises_found, raises_ensure,
    raises_modify] at h
  rcases h with h | ⟨_, _, -, ⟨-, rfl, -⟩ | ⟨_, _, -, ⟨-, rfl, -⟩ | ⟨_, _, -, ⟨-, rfl, -⟩ |
    ⟨_, _, -, h⟩⟩⟩⟩
  · exact h.elim
  · rfl
  · rfl
  · rfl
  · exact h.elim

theorem raises_advance {target : OpportunityState} {actor : Actor} {reason : Option String}
    {unit : Option Id} (h : Raises (advance id target actor reason unit) s e t) :
    e.isRefusal = false ∧ (t = s ∨ (asRefusal e).isRefusal = false) := by
  simp only [advance, raises_bind, raises_ensure, raises_modify] at h
  rcases h with ⟨-, rfl, rfl⟩ | ⟨_, _, -, h | ⟨_, _, -, h⟩⟩
  · exact ⟨rfl, .inl rfl⟩
  · exact h.elim
  · have he := raises_moveOpportunity h
    cases e <;> simp_all [asRefusal, Raised.isRefusal]

theorem raises_moveProposal {target : ProposalState}
    (h : Raises (moveProposal target id) s e t) : e.isRefusal = false := by
  simp only [moveProposal, raises_bind, raises_get, raises_found, raises_ensure,
    raises_modify] at h
  rcases h with h | ⟨_, _, -, ⟨-, rfl, -⟩ | ⟨_, _, -, ⟨-, rfl, -⟩ | ⟨_, _, -, h⟩⟩⟩
  · exact h.elim
  · rfl
  · rfl
  · exact h.elim

theorem raises_supersede {ids : List Id}
    (h : Raises (forEach (moveProposal .superseded) ids) s e t) : e.isRefusal = false := by
  induction ids generalizing s with
  | nil => exact absurd h raises_forEach_nil
  | cons i ids ih =>
    rcases raises_forEach_cons.mp h with h | ⟨_, -, h⟩
    · exact raises_moveProposal h
    · exact ih h

theorem raises_decide {outcome : ProposalState} {reason : Option String}
    (h : Raises (decide id outcome reason) s e t) : e.isRefusal = false := by
  simp only [decide, raises_bind, raises_ensure, raises_modify] at h
  rcases h with ⟨-, rfl, -⟩ | ⟨_, _, -, h | ⟨_, _, -, h⟩⟩
  · rfl
  · exact h.elim
  · exact raises_moveProposal h

theorem text_error {column : String} {value : Json} (h : text column value = .error e) :
    e.isRefusal = false := by
  unfold text at h
  split at h
  · cases h
  · obtain rfl := Except.error.inj h
    rfl

theorem raises_firstProduct {content : ProposalContent}
    (h : Raises (firstProduct ctx id content) s e t) : e.isRefusal = false := by
  simp only [firstProduct, raises_ite, raises_pure, raises_bind, raises_vetted, raises_get,
    raises_ensure, raises_modify] at h
  rcases h with ⟨-, h⟩ | ⟨-, ⟨h, -⟩ | ⟨_, _, -, ⟨h, -⟩ | ⟨_, _, -, h | ⟨_, _, -, ⟨-, rfl, -⟩ |
    ⟨_, _, -, ⟨-, rfl, -⟩ | ⟨_, _, -, h⟩⟩⟩⟩⟩⟩
  · exact h.elim
  · exact text_error h
  · split at h
    · exact text_error h
    · cases h
  · exact h.elim
  · rfl
  · rfl
  · exact h.elim

theorem raises_openingCapital {proposal : Id} {capital : Rat}
    (h : Raises (openingCapital ctx id proposal capital) s e t) : e.isRefusal = false := by
  simp only [openingCapital, raises_ite, raises_pure, raises_bind, raises_ensure,
    raises_modify] at h
  rcases h with ⟨-, ⟨-, rfl, -⟩ | ⟨_, _, -, h⟩⟩ | ⟨-, h⟩
  · rfl
  · exact h.elim
  · exact h.elim

theorem raises_recordSignals {signals : List (SignalInput × Option String)} :
    ¬ Raises (forEach (fun p => recordSignal ctx id p.1 p.2) signals) s e t := by
  induction signals generalizing s with
  | nil => exact raises_forEach_nil
  | cons p signals ih =>
    intro h
    rcases raises_forEach_cons.mp h with h | ⟨_, -, h⟩
    · exact raises_modify h
    · exact ih h

theorem raises_opportunityOf (h : Raises (opportunityOf ctx id) s e t) : t = s := by
  simp only [opportunityOf, raises_bind, raises_get, raises_found, raises_ensure, raises_pure,
    returns_get, returns_found, returns_ensure] at h
  rcases h with h | ⟨_, _, ⟨rfl, rfl⟩, ⟨-, -, rfl⟩ | ⟨_, _, ⟨-, rfl⟩, ⟨-, -, rfl⟩ | ⟨_, _, -, h⟩⟩⟩
  · exact h.elim
  · rfl
  · rfl
  · exact h.elim

theorem raises_proposalOf (h : Raises (proposalOf ctx id) s e t) : t = s := by
  simp only [proposalOf, raises_bind, raises_get, raises_found, raises_ensure, raises_pure,
    returns_get, returns_found, returns_ensure] at h
  rcases h with h | ⟨_, _, ⟨rfl, rfl⟩, ⟨-, -, rfl⟩ | ⟨_, _, ⟨-, rfl⟩, ⟨-, -, rfl⟩ | ⟨_, _, -, h⟩⟩⟩
  · exact h.elim
  · rfl
  · rfl
  · exact h.elim

theorem raises_advanceOpportunity {c : AdvanceOpportunity} (he : e.isRefusal = true)
    (h : Raises (advanceOpportunity ctx c) s e t) : t = s := by
  simp only [advanceOpportunity, raises_bind, raises_found, raises_ensure, raises_reraise,
    returns_found, returns_ensure] at h
  rcases h with h | ⟨o, _, ho, ⟨-, -, rfl⟩ | ⟨_, _, ⟨-, rfl⟩, ⟨-, -, rfl⟩ |
    ⟨_, _, ⟨-, rfl⟩, e', h, rfl⟩⟩⟩
  · exact raises_opportunityOf h
  · exact (returns_opportunityOf ho).2.2
  · exact (returns_opportunityOf ho).2.2
  · rcases (raises_advance h).2 with rfl | hf
    · exact (returns_opportunityOf ho).2.2
    · rw [he] at hf
      cases hf

theorem raises_discoverOpportunity {c : DiscoverOpportunity}
    (h : Raises (discoverOpportunity ctx c) s e t) : t = s := by
  simp only [discoverOpportunity, raises_bind, raises_ensure, raises_vetted, raises_get,
    raises_modify, returns_ensure, returns_vetted, returns_get] at h
  rcases h with ⟨-, -, rfl⟩ | ⟨_, _, ⟨-, rfl⟩, ⟨-, rfl⟩ | ⟨_, _, ⟨-, rfl⟩, h |
    ⟨_, _, ⟨rfl, rfl⟩, ⟨-, -, rfl⟩ | ⟨_, _, -, h | ⟨_, _, -, h⟩⟩⟩⟩⟩
  · rfl
  · rfl
  · exact h.elim
  · rfl
  · exact h.elim
  · exact absurd h raises_recordSignals

theorem raises_createBusinessUnit {c : CreateBusinessUnit} (he : e.isRefusal = true)
    (h : Raises (createBusinessUnit ctx c) s e t) : t = s := by
  have hard : e.isRefusal = false → t = s := fun hf => by
    rw [he] at hf
    cases hf
  simp only [createBusinessUnit, raises_bind, raises_ensure, raises_get, raises_found,
    raises_modify, returns_ensure, returns_get, returns_found] at h
  rcases h with h | ⟨p, _, hp, ⟨-, -, rfl⟩ | ⟨_, _, ⟨-, rfl⟩, h | ⟨_, _, ⟨rfl, rfl⟩,
    ⟨-, -, rfl⟩ | ⟨o, _, ⟨-, rfl⟩, ⟨-, -, rfl⟩ | ⟨_, _, -, h | ⟨_, _, -, h | ⟨_, _, -, h |
    ⟨_, _, -, h | ⟨_, _, -, h | ⟨_, _, -, h⟩⟩⟩⟩⟩⟩⟩⟩⟩⟩
  · exact raises_proposalOf h
  · exact (returns_proposalOf hp).2.2
  · exact h.elim
  · exact (returns_proposalOf hp).2.2
  · exact (returns_proposalOf hp).2.2
  · exact h.elim
  · exact hard (raises_firstProduct h)
  · exact h.elim
  · exact hard (raises_decide h)
  · exact hard (raises_advance h).1
  · exact hard (raises_openingCapital h)

/-- A handler that refuses has written nothing. -/
theorem raises_handler {command : Command} (he : e.isRefusal = true)
    (h : Raises (handler ctx command) s e t) : t = s := by
  have hard : e.isRefusal = false → t = s := fun hf => by
    rw [he] at hf
    cases hf
  cases command with
  | scoreOpportunity i score =>
    simp only [handler, scoreOpportunity, raises_bind, raises_modify] at h
    rcases h with h | ⟨_, _, -, h⟩
    · exact raises_opportunityOf h
    · exact h.elim
  | advanceOpportunity c => exact raises_advanceOpportunity he h
  | rejectOpportunity i reason =>
    simp only [handler, rejectOpportunity, raises_bind] at h
    rcases h with h | ⟨_, _, -, h⟩
    · exact raises_opportunityOf h
    · exact hard (raises_advance h).1
  | discoverOpportunity c => exact raises_discoverOpportunity h
  | recordOpportunitySignal i signal =>
    simp only [handler, recordOpportunitySignal, recordSignal, raises_bind, raises_ensure,
      raises_vetted, raises_modify, returns_ensure, returns_vetted] at h
    rcases h with h | ⟨o, _, ho, ⟨-, -, rfl⟩ | ⟨_, _, ⟨-, rfl⟩, ⟨-, rfl⟩ | ⟨_, _, -, h⟩⟩⟩
    · exact raises_opportunityOf h
    · exact (returns_opportunityOf ho).2.2
    · exact (returns_opportunityOf ho).2.2
    · exact h.elim
  | draftProposal i content =>
    simp only [handler, draftProposal, draft, raises_bind, raises_ensure, raises_modify,
      returns_ensure] at h
    rcases h with h | ⟨o, _, ho, ⟨-, -, rfl⟩ | ⟨_, _, ⟨-, rfl⟩, ⟨-, -, rfl⟩ | ⟨_, _, -, h⟩⟩⟩
    · exact raises_opportunityOf h
    · exact (returns_opportunityOf ho).2.2
    · exact (returns_opportunityOf ho).2.2
    · exact h.elim
  | submitProposal i =>
    simp only [handler, submitProposal, submit, raises_bind, raises_ensure, raises_get,
      returns_ensure] at h
    rcases h with h | ⟨p, _, hp, ⟨-, -, rfl⟩ | ⟨_, _, -, h | ⟨_, _, -, h | ⟨_, _, -, h⟩⟩⟩⟩
    · exact raises_proposalOf h
    · exact (returns_proposalOf hp).2.2
    · exact h.elim
    · exact hard (raises_moveProposal h)
    · exact hard (raises_supersede h)
  | createBusinessUnit c => exact raises_createBusinessUnit he h

theorem returns_advanceOpportunity {c : AdvanceOpportunity}
    (hn : namesItsOwn s (.command ctx (.advanceOpportunity c)))
    (h : Returns (advanceOpportunity ctx c) s x t) :
    ∃ target, Advanced c.opportunityId target c.businessUnitId s t ∧
      NamesOurs s c.opportunityId target c.businessUnitId := by
  simp only [advanceOpportunity, returns_bind, returns_found, returns_ensure,
    returns_reraise] at h
  obtain ⟨o, _, ho, target, _, ⟨hread, rfl⟩, _, s, ⟨hr, rfl⟩, h⟩ := h
  obtain ⟨ho, hc, rfl⟩ := returns_opportunityOf ho
  have ha := returns_advance h
  refine ⟨target, ha, ?_⟩
  intro o' b w ho' hb hw
  obtain ⟨o'', ho'', hcan, -⟩ := ha.legal
  obtain rfl := Option.some.inj (ho.symm.trans ho')
  obtain rfl := Option.some.inj (ho.symm.trans ho'')
  have hbind : (c.businessUnitId.bind fun b => s.units[b]?) = some w := by
    rw [hb]
    exact hw
  simp only [namesItsOwn, ho, hread, hbind] at hn
  rw [hc]
  exact hn hc hr hcan

theorem returns_handler {command : Command} (hn : namesItsOwn s (.command ctx command))
    (h : Returns (handler ctx command) s x t) : Change s t := by
  cases command with
  | scoreOpportunity i score =>
    simp only [handler, scoreOpportunity, returns_bind, returns_modify] at h
    obtain ⟨o, _, ho, rfl⟩ := h
    obtain ⟨-, -, rfl⟩ := returns_opportunityOf ho
    exact .scored i score rfl
  | advanceOpportunity c =>
    obtain ⟨target, ha, hours⟩ := returns_advanceOpportunity hn h
    exact .advanced c.opportunityId target c.businessUnitId ha hours
  | rejectOpportunity i reason =>
    simp only [handler, rejectOpportunity, returns_bind] at h
    obtain ⟨o, _, ho, h⟩ := h
    obtain ⟨-, -, rfl⟩ := returns_opportunityOf ho
    exact .advanced i .rejected none (returns_advance h) namesOurs_none
  | discoverOpportunity c =>
    simp only [handler, discoverOpportunity, returns_bind, returns_ensure, returns_vetted,
      returns_get, returns_modify] at h
    obtain ⟨_, _, ⟨-, rfl⟩, refs, _, ⟨-, rfl⟩, _, _, ⟨rfl, rfl⟩, _, _, ⟨-, rfl⟩, _, _, rfl, h⟩ := h
    obtain ⟨ho, hp, hu⟩ := returns_recordSignals h
    exact .discovered _ rfl rfl ho hp hu
  | recordOpportunitySignal i signal =>
    simp only [handler, recordOpportunitySignal, returns_bind, returns_ensure,
      returns_vetted] at h
    obtain ⟨o, _, ho, _, _, ⟨-, rfl⟩, _, _, ⟨-, rfl⟩, h⟩ := h
    obtain ⟨-, -, rfl⟩ := returns_opportunityOf ho
    exact .still (returns_recordSignal h)
  | draftProposal i content =>
    simp only [handler, draftProposal, draft, returns_bind, returns_ensure, returns_modify] at h
    obtain ⟨o, _, ho, _, _, ⟨-, rfl⟩, _, _, ⟨-, rfl⟩, rfl⟩ := h
    obtain ⟨ho, -, rfl⟩ := returns_opportunityOf ho
    exact .drafted _ o rfl rfl ho rfl rfl rfl rfl
  | submitProposal i =>
    simp only [handler, submitProposal, returns_bind, returns_ensure] at h
    obtain ⟨p, _, hp, _, _, ⟨hd, rfl⟩, h⟩ := h
    obtain ⟨hp, -, rfl⟩ := returns_proposalOf hp
    obtain ⟨-, ho, hu, hr⟩ := returns_submit h
    exact .submitted i p hp hd hr ho hu
  | createBusinessUnit c =>
    obtain ⟨p, u, v, ho, ha, hv⟩ := returns_createBusinessUnit h
    exact .opened c.proposalId p u v ho ha hv

theorem raises_expireDue {company : Id} (h : Raises (expireDue company) s e t) :
    e.isRefusal = false := by
  simp only [expireDue, raises_bind, raises_get, returns_get] at h
  rcases h with h | ⟨_, s, ⟨rfl, rfl⟩, h⟩
  · exact h.elim
  · generalize s.due company = ids at h
    induction ids generalizing s with
    | nil => exact absurd h raises_forEach_nil
    | cons i ids ih =>
      rcases raises_forEach_cons.mp h with h | ⟨u, -, h⟩
      · exact (raises_advance h).1
      · exact ih u h

theorem SameTables.of_eq (h : t = s) : SameTables s t := by
  subst h
  exact ⟨rfl, rfl, rfl⟩

theorem exec_change {a : Act} (hn : namesItsOwn s a) : Change s (s.exec a) := by
  cases a with
  | command ctx command =>
    rcases @settle_cases _ _ _ Raised.isRefusal (handler ctx command) s with
      ⟨x, h⟩ | ⟨e, he, h⟩ | h
    · exact returns_handler hn h
    · exact .still (.of_eq (raises_handler he h))
    · exact .still (.of_eq h)
  | expireDue company =>
    rcases @settle_cases _ _ _ Raised.isRefusal (expireDue company) s with
      ⟨x, h⟩ | ⟨e, he, h⟩ | h
    · exact .expired (returns_expireDue h)
    · rw [raises_expireDue h] at he
      cases he
    · exact .still (.of_eq h)
  | elapse time => exact .still ⟨rfl, rfl, rfl⟩

theorem Frozen.of_eq (h : t.proposals = s.proposals) : Frozen s t := by
  intro i p hp hd
  exact ⟨p, by rw [h, hp], hd, rfl, rfl, rfl⟩

theorem Frozen.trans (h : Frozen s t) (h' : Frozen t u) : Frozen s u := by
  intro i p hp hd
  obtain ⟨q, hq, hqd, hc, ho, hv⟩ := h i p hp hd
  obtain ⟨r, hr, hrd, hc', ho', hv'⟩ := h' i q hq hqd
  exact ⟨r, hr, hrd, hc'.trans hc, ho'.trans ho, hv'.trans hv⟩

theorem Rewritten.frozen {g : Nat → BusinessProposal → BusinessProposal} (h : Rewritten g s t)
    (hd : ∀ j p, p.state ≠ .draft → (g j p).state ≠ .draft) : Frozen s t := by
  intro i p hp hpd
  exact ⟨g i p, by rw [h.rows, hp]; rfl, hd i p hpd, h.content i p, h.opportunity i p,
    h.version i p⟩

theorem Change.frozen (h : Change s t) : Frozen s t := by
  cases h with
  | still h => exact .of_eq h.proposals
  | discovered o hstate hn ho hp hu => exact .of_eq hp
  | scored id score h =>
    subst h
    exact .of_eq rfl
  | advanced id target unit h hn => exact .of_eq h.proposals
  | expired h =>
    induction h with
    | refl => exact .of_eq rfl
    | tail _ ha ih =>
      obtain ⟨_, ha⟩ := ha
      exact ih.trans (.of_eq ha.proposals)
  | drafted p o hd hv ho hc hp hopp hu =>
    intro i q hq hqd
    refine ⟨q, ?_, hqd, rfl, rfl, rfl⟩
    rw [hp, List.getElem?_append_left (List.getElem?_eq_some_iff.mp hq).1, hq]
  | submitted id p hp hd h ho hu =>
    apply h.frozen
    intro j q hq
    unfold putUp
    split
    · nofun
    · split
      · nofun
      · exact hq
  | opened id p u v h ha h' =>
    obtain ⟨f, hf, hk⟩ := h.approved
    have hfrozen : Frozen s u := by
      apply hf.frozen
      intro j q hq
      by_cases hj : j = id
      · rw [if_pos hj, (hk q).1]
        nofun
      · rw [if_neg hj]
        exact hq
    exact hfrozen.trans (.of_eq (h'.proposals.trans ha.proposals))

theorem OpenedWell.of_eq (h : t.units = s.units) : OpenedWell s t := by
  intro b hb hlt
  rw [h] at hlt
  omega

theorem Change.openedWell (h : Change s t) : OpenedWell s t := by
  cases h with
  | still h => exact .of_eq h.units
  | discovered o hstate hn ho hp hu => exact .of_eq hu
  | scored id score h =>
    subst h
    exact .of_eq rfl
  | advanced id target unit h hn => exact .of_eq h.units
  | expired h =>
    apply OpenedWell.of_eq
    induction h with
    | refl => rfl
    | tail _ ha ih =>
      obtain ⟨_, ha⟩ := ha
      exact ha.units.trans ih
  | drafted p o hd hv ho hc hp hopp hu => exact .of_eq hu
  | submitted id p hp hd h ho hu => exact .of_eq hu
  | opened id p u v h ha h' =>
    obtain ⟨w, hw, -⟩ := h.unit
    obtain ⟨f, hf, hk⟩ := h.approved
    obtain ⟨o, ho, hc, -⟩ := ha.legal
    obtain ⟨g, hg, hgk⟩ := ha.written
    intro b hb hlt
    rw [h'.units, ha.units, hw, List.length_append, List.length_singleton] at hlt
    obtain rfl : b = s.units.length := by omega
    refine ⟨id, p, o, h.submitted.1, h.submitted.2, by rw [← h.opportunities, ho], ?_, ?_, ?_⟩
    · cases hstate : o.state <;>
        simp_all [StateMachine.can, StateMachine.allowedFrom, opportunityFsm]
    · rw [h'.proposals, ha.proposals, hf.rows, h.submitted.1]
      simpa using (hk p).2
    · rw [h'.opportunities, hg, List.getElem?_modify_eq, ho]
      exact (hgk o).2.2

theorem Sound.init (h : business.init s) : Sound s where
  one i j p q hp := by
    rw [h.1] at hp
    cases hp
  counts opportunity := by
    unfold Portfolio.versions Portfolio.proposalsFor
    rw [h.1]
    rfl
  names i o ho := by
    obtain ⟨hd, hn⟩ := h.2 o (List.mem_of_getElem? ho)
    exact ⟨by rw [hn, hd]; exact ⟨nofun, nofun⟩, by rw [hn]; nofun⟩
  linked i p hp := by
    rw [h.1] at hp
    cases hp

theorem reach_sound (h : business.Reach namesItsOwn s) : Sound s :=
  h.invariant (fun _ => Sound.init) fun _ _ _ hs ha ht => ht ▸ (exec_change ha).sound hs

theorem path_frozen (h : business.Path namesItsOwn s t) : Frozen s t := by
  induction h with
  | refl => exact .of_eq rfl
  | tail _ hn ih =>
    obtain ⟨a, ha, rfl⟩ := hn
    exact ih.trans (exec_change ha).frozen

/-- In every run whose `AdvanceOpportunity` commands name a business only to approve, and one
of the company's: one proposal of an opportunity is up for decision at most, the versions count
up from 1, an opportunity names a business of its company if and only if it is approved, what
was put up never changes, and a business is opened only on an opportunity still open. -/
theorem proposals_stay_sound (h : business.Reach namesItsOwn s)
    (hp : business.Path namesItsOwn s t) :
    Sound t ∧ Frozen s t ∧ ∀ a, namesItsOwn t a → OpenedWell t (t.exec a) :=
  ⟨reach_sound (h.path hp), path_frozen hp, fun _ ha => (exec_change ha).openedWell⟩

/-! A person's company with one business, and another company with one. -/

def nobodysEvidence : Evidence := ⟨0, [], fun _ => none, fun _ => none⟩

def founder : Context := ⟨0, .human 1, none, nobodysEvidence⟩

def strategist : Context := ⟨0, .agent 2, some 3, nobodysEvidence⟩

def existing (company : Id) : BusinessUnit :=
  { companyId := company, key := "ai_media", name := "AI Media", mission := none,
    state := .active, killCriteria := none }

def aPortfolio : Portfolio :=
  { now := 0, opportunities := [], signals := [], proposals := [],
    units := [existing 0, existing 1], products := [], transfers := [] }

def discovery (key : String) : Command :=
  .discoverOpportunity {
    key := key
    title := "Newsletters"
    thesis := "Readers ask for a weekly digest"
    market := none
    signals := [⟨"person", "three readers asked", none, none, none, none⟩] }

def advancing (id : Id) (state : String) (unit : Option Id) : Command :=
  .advanceOpportunity ⟨id, state, none, unit⟩

def digest : ProposalContent where
  title := "Weekly digest"
  businessModel := some "subscriptions"
  targetMarket := none
  targetCustomer := none
  proposedProduct := some [("key", .str "digest"), ("name", .str "Digest")]
  expectedRevenueModel := none
  expectedMargin := none
  estimatedStartupCost := none
  estimatedMonthlyCost := none
  requiredAgents := none
  requiredCapabilities := none
  risks := none
  validationPlan := none
  killCriteria := [("metric", .str "revenue")]
  authoredByRunId := none

def openingRun : List Act :=
  [.command founder (discovery "digest"), .command founder (advancing 0 "EVALUATING" none),
    .command strategist (.draftProposal 0 digest), .command strategist (.draftProposal 0 digest),
    .command strategist (.submitProposal 0), .command strategist (.submitProposal 1),
    .command founder (.createBusinessUnit ⟨1, 100, none, none⟩), .expireDue 0]

theorem aPortfolio_init : business.init aPortfolio :=
  ⟨rfl, fun _ h => absurd h List.not_mem_nil⟩

theorem proposals_stay_sound_opened : ∃ t, Sound t ∧ Frozen aPortfolio t ∧
    (t.units.length, t.proposals.map fun p => (p.version, p.state)) =
      (3, [(1, .superseded), (2, .approved)]) := by
  have hrun : (System.follow namesItsOwn (fun s a => some (Portfolio.exec s a)) aPortfolio
      openingRun).map (fun t => (t.units.length, t.proposals.map fun p => (p.version, p.state))) =
        some (3, [(1, .superseded), (2, .approved)]) := by
    decide +kernel
  obtain ⟨t, ht, hlast⟩ := Option.map_eq_some_iff.mp hrun
  have hp : business.Path namesItsOwn aPortfolio t :=
    System.follow_path (fun _ _ _ h => (Option.some.inj h).symm) ht
  obtain ⟨hs, hf, -⟩ := proposals_stay_sound (.init aPortfolio_init) hp
  exact ⟨t, hs, hf, hlast⟩

/-- An opportunity that is being evaluated names a business, and an approved one names a
business of another company. -/
theorem business_named_too_early : ∃ t, business.Reach anyStep t ∧
    t.opportunities.map (fun o => (o.companyId, o.state, o.businessUnitId)) =
      [(0, .evaluating, some 0), (0, .approved, some 1)] ∧
    t.units.map BusinessUnit.companyId = [0, 1] := by
  have hrun : (System.follow anyStep (fun s a => some (Portfolio.exec s a)) aPortfolio
      [.command founder (discovery "digest"), .command founder (discovery "podcast"),
        .command founder (advancing 0 "EVALUATING" (some 0)),
        .command founder (advancing 1 "EVALUATING" none),
        .command founder (advancing 1 "APPROVED" (some 1))]).map (fun t =>
          (t.opportunities.map (fun o => (o.companyId, o.state, o.businessUnitId)),
            t.units.map BusinessUnit.companyId)) =
        some ([(0, .evaluating, some 0), (0, .approved, some 1)], [0, 1]) := by
    decide +kernel
  obtain ⟨t, ht, hlast⟩ := Option.map_eq_some_iff.mp hrun
  have hp : business.Path anyStep aPortfolio t :=
    System.follow_path (fun _ _ _ h => (Option.some.inj h).symm) ht
  exact ⟨t, System.Reach.path (.init aPortfolio_init) hp, congrArg Prod.fst hlast,
    congrArg Prod.snd hlast⟩

end Autora.Ventures
