import Autora.Lib.Systems
import Autora.Lib.Refusals
import Autora.Fsm
import Autora.Approvals
import Autora.Finance

/-! The business loop: opportunities, the proposals written about them and the businesses
opened from these, with the commands that move them. A row's id is its place in its table. -/

namespace Autora.Ventures

open Systems Transactions Refusals
open Autora.Approvals (Actor)

inductive OpportunityState where
  | discovered
  | evaluating
  | validating
  | approved
  | rejected
  | expired
  deriving DecidableEq, Repr

inductive ProposalState where
  | draft
  | submitted
  | approved
  | rejected
  | superseded
  deriving DecidableEq, Repr

namespace OpportunityState

def value : OpportunityState → String
  | discovered => "DISCOVERED"
  | evaluating => "EVALUATING"
  | validating => "VALIDATING"
  | approved => "APPROVED"
  | rejected => "REJECTED"
  | expired => "EXPIRED"

def all : List OpportunityState :=
  [discovered, evaluating, validating, approved, rejected, expired]

/-- `OpportunityState(text)`. -/
def read (text : String) : Option OpportunityState := all.find? fun s => s.value = text

end OpportunityState

def ProposalState.value : ProposalState → String
  | .draft => "DRAFT"
  | .submitted => "SUBMITTED"
  | .approved => "APPROVED"
  | .rejected => "REJECTED"
  | .superseded => "SUPERSEDED"

def opportunityFsm : StateMachine OpportunityState where
  entityType := "opportunity"
  value := OpportunityState.value
  transitions
    | .discovered => [.evaluating, .rejected, .expired]
    | .evaluating => [.validating, .approved, .rejected, .expired]
    | .validating => [.approved, .rejected, .expired]
    | _ => []

def proposalFsm : StateMachine ProposalState where
  entityType := "business_proposal"
  value := ProposalState.value
  transitions
    | .draft => [.submitted, .superseded]
    | .submitted => [.approved, .rejected, .superseded]
    | _ => []

def openStates : List OpportunityState := [.discovered, .evaluating, .validating]

def decidedStates : List OpportunityState := [.approved, .rejected, .expired]

structure Opportunity where
  companyId : Id
  key : String
  title : String
  thesis : Option String
  market : Option String
  state : OpportunityState
  score : Option Rat
  discoveredByRunId : Option Id
  decidedAt : Option Time
  decidedBy : Option Actor
  decisionReason : Option String
  expiresAt : Option Time
  businessUnitId : Option Id
  deriving DecidableEq, Repr

structure OpportunitySignal where
  companyId : Id
  opportunityId : Id
  source : String
  summary : String
  metric : Option String
  value : Option Rat
  observedAt : Time
  evidenceRef : Option String
  recordedByRunId : Option Id
  deriving DecidableEq, Repr

/-- What a proposal says. -/
structure ProposalContent where
  title : String
  businessModel : Option String
  targetMarket : Option String
  targetCustomer : Option String
  proposedProduct : Option Dict
  expectedRevenueModel : Option String
  expectedMargin : Option Rat
  estimatedStartupCost : Option Rat
  estimatedMonthlyCost : Option Rat
  requiredAgents : Option Dict
  requiredCapabilities : Option Dict
  risks : Option Dict
  validationPlan : Option Dict
  killCriteria : Dict
  authoredByRunId : Option Id

structure BusinessProposal where
  companyId : Id
  opportunityId : Id
  version : Nat
  state : ProposalState
  content : ProposalContent
  decidedAt : Option Time
  decisionReason : Option String
  businessUnitId : Option Id

inductive BusinessUnitState where
  | proposed
  | active
  | paused
  | woundDown
  deriving DecidableEq, Repr

structure BusinessUnit where
  companyId : Id
  key : String
  name : String
  mission : Option String
  state : BusinessUnitState
  killCriteria : Option Dict

/-- A product, in DRAFT. -/
structure Product where
  companyId : Id
  businessUnitId : Id
  key : String
  name : String
  deriving DecidableEq, Repr

/-- A transfer of capital into a business. -/
structure Transfer where
  companyId : Id
  businessUnitId : Id
  proposalId : Id
  amount : Company.Money
  deriving DecidableEq, Repr

structure Portfolio where
  now : Time
  opportunities : List Opportunity
  signals : List OpportunitySignal
  proposals : List BusinessProposal
  units : List BusinessUnit
  products : List Product
  transfers : List Transfer

inductive Raised where
  | refused (reason : String)
  | opportunity (reason : String)
  | illegal (error : FSMError)
  | ledger (reason : String)
  | integrity (constraint : String)
  deriving DecidableEq, Repr

/-- `CommandError`: what the bus turns into a refusal. Everything else ends the transaction. -/
def Raised.isRefusal : Raised → Bool
  | .refused _ => true
  | _ => false

abbrev Verb := Work Portfolio Raised

namespace Portfolio

variable (s : Portfolio)

def setOpportunity (id : Id) (f : Opportunity → Opportunity) : Portfolio :=
  { s with opportunities := s.opportunities.modify id f }

def setProposal (id : Id) (f : BusinessProposal → BusinessProposal) : Portfolio :=
  { s with proposals := s.proposals.modify id f }

def proposalsFor (opportunity : Id) : List BusinessProposal :=
  s.proposals.filter fun p => p.opportunityId = opportunity

/-- The version of the newest proposal, 0 when there is none. -/
def lastVersion (opportunity : Id) : Nat :=
  ((s.proposalsFor opportunity).map BusinessProposal.version).foldl max 0

def byKey (company : Id) (key : String) : Option Opportunity :=
  s.opportunities.find? fun o => o.companyId = company && o.key = key

def keyTaken (company : Id) (key : String) : Bool :=
  s.units.any fun u => u.companyId = company && u.key = key

/-- The proposals up for decision on the same opportunity, other than this one. -/
def earlier (opportunity : Id) (id : Id) : List Id :=
  (List.range s.proposals.length).filter fun j =>
    s.proposals[j]?.any fun p => p.opportunityId = opportunity && j ≠ id && p.state = .submitted

def due (company : Id) : List Id :=
  (List.range s.opportunities.length).filter fun i =>
    s.opportunities[i]?.any fun o => o.companyId = company && o.state ∈ openStates &&
      o.expiresAt.any fun e => e ≤ s.now

end Portfolio

/-! The services. None of them commits. -/

def moveOpportunity (id : Id) (target : OpportunityState) : Verb PUnit := do
  let s ← get
  let o ← found (.integrity "opportunities") s.opportunities[id]?
  ensure (opportunityFsm.can o.state target = true)
    (.illegal (opportunityFsm.illegal o.state target))
  ensure (o.businessUnitId.all (fun b => b < s.units.length) = true)
    (.integrity "opportunities_business_unit_id_fkey")
  modify fun s => s.setOpportunity id fun o => { o with state := target }

def moveProposal (target : ProposalState) (id : Id) : Verb PUnit := do
  let s ← get
  let p ← found (.integrity "business_proposals") s.proposals[id]?
  ensure (proposalFsm.can p.state target = true) (.illegal (proposalFsm.illegal p.state target))
  modify fun s => s.setProposal id fun p => { p with state := target }

/-- What `advance` writes before the transition. -/
def Opportunity.told (target : OpportunityState) (actor : Actor) (reason : Option String)
    (unit : Option Id) (now : Time) (o : Opportunity) : Opportunity :=
  let o := if target ∈ decidedStates then
    { o with decidedAt := some now, decidedBy := some actor, decisionReason := reason } else o
  if unit.isSome then { o with businessUnitId := unit } else o

def advance (id : Id) (target : OpportunityState) (actor : Actor) (reason : Option String)
    (unit : Option Id) : Verb PUnit := do
  ensure (¬ (target = .approved ∧ unit = none))
    (.opportunity "an approved opportunity must name the business it became")
  modify fun s => s.setOpportunity id (Opportunity.told target actor reason unit s.now)
  moveOpportunity id target

def expireDue (company : Id) : Verb PUnit := do
  let s ← get
  forEach (fun id => advance id .expired (.system "opportunities")
    (some "nobody decided before it expired") none) (s.due company)

def draft (opportunity : Id) (company : Id) (content : ProposalContent) : Verb PUnit :=
  modify fun s => { s with
    proposals := s.proposals ++ [{
      companyId := company
      opportunityId := opportunity
      version := s.lastVersion opportunity + 1
      state := .draft
      content := content
      decidedAt := none
      decisionReason := none
      businessUnitId := none }] }

def submit (id : Id) (opportunity : Id) : Verb PUnit := do
  let s ← get
  moveProposal .submitted id
  forEach (moveProposal .superseded) (s.earlier opportunity id)

def decide (id : Id) (outcome : ProposalState) (reason : Option String) : Verb PUnit := do
  ensure (outcome = .approved ∨ outcome = .rejected)
    (.opportunity ("a proposal is approved or rejected, not " ++ outcome.value))
  modify fun s => s.setProposal id fun p =>
    { p with decidedAt := some s.now, decisionReason := reason }
  moveProposal outcome id

/-! The commands. -/

structure SignalInput where
  source : String
  summary : String
  metric : Option String
  value : Option Rat
  businessUnitId : Option Id
  evidenceRef : Option String
  deriving DecidableEq, Repr

structure DiscoverOpportunity where
  key : String
  title : String
  thesis : String
  market : Option String
  signals : List SignalInput
  deriving DecidableEq, Repr

structure AdvanceOpportunity where
  opportunityId : Id
  toState : String
  reason : Option String
  businessUnitId : Option Id
  deriving DecidableEq, Repr

structure CreateBusinessUnit where
  proposalId : Id
  capital : Rat
  key : Option String
  reason : Option String
  deriving DecidableEq, Repr

inductive Command where
  | scoreOpportunity (opportunityId : Id) (score : Rat)
  | advanceOpportunity (command : AdvanceOpportunity)
  | rejectOpportunity (opportunityId : Id) (reason : String)
  | discoverOpportunity (command : DiscoverOpportunity)
  | recordOpportunitySignal (opportunityId : Id) (signal : SignalInput)
  | draftProposal (opportunityId : Id) (content : ProposalContent)
  | submitProposal (proposalId : Id)
  | createBusinessUnit (command : CreateBusinessUnit)

/-- What the queries of a handler answer about the run that asks, and about the company's
reports: how many opportunities the run has discovered, what its tools captured, what is wrong
with a figure, and the id a reference cites. -/
structure Evidence where
  discovered : Nat
  produced : List (Id × String)
  figureIssue : SignalInput → Option String
  cites : Option String → Option Id

structure Context where
  companyId : Id
  actor : Actor
  runId : Option Id
  evidence : Evidence

def maxDiscoveredPerRun : Nat := 3

section Handlers

variable (ctx : Context)

def opportunityOf (id : Id) : Verb Opportunity := do
  let s ← get
  let missing := Raised.refused ("no opportunity " ++ toString id ++ " in this company")
  let o ← found missing s.opportunities[id]?
  ensure (o.companyId = ctx.companyId) missing
  pure o

def proposalOf (id : Id) : Verb BusinessProposal := do
  let s ← get
  let missing := Raised.refused ("no proposal " ++ toString id ++ " in this company")
  let p ← found missing s.proposals[id]?
  ensure (p.companyId = ctx.companyId) missing
  pure p

/-- `_checked_signal`: the evidence reference to store, or why the observation is refused. -/
def checkedSignal (signal : SignalInput) : Except Raised (Option String) :=
  if ctx.runId = none then .ok signal.evidenceRef
  else if signal.source = "person" then
    .error (.refused "an agent's observation is not a person's; say where it came from")
  else if signal.source = "company" then
    if signal.metric = none ∨ signal.value = none then
      .error (.refused "a company signal cites a metric and its value from the report")
    else match ctx.evidence.figureIssue signal with
      | some issue => .error (.refused issue)
      | none => .ok none
  else match ctx.evidence.cites signal.evidenceRef with
    | none => .error (.refused
        "a web signal cites the id of a page captured in this run (fetch_url's evidence_id)")
    | some cited => match ctx.evidence.produced.lookup cited with
      | none => .error (.refused
          (toString cited ++ " was not captured in this run; fetch the page first"))
      | some kind => .ok (some (kind ++ ":" ++ toString cited))

def recordSignal (id : Id) (signal : SignalInput) (ref : Option String) : Verb PUnit :=
  modify fun s => { s with
    signals := s.signals ++ [{
      companyId := ctx.companyId
      opportunityId := id
      source := signal.source
      summary := signal.summary
      metric := signal.metric
      value := signal.value
      observedAt := s.now
      evidenceRef := ref
      recordedByRunId := ctx.runId }] }

def decidedAlready (o : Opportunity) : Raised :=
  .refused ("opportunity " ++ o.key ++ " is " ++ o.state.value ++ "; it was decided already")

def scoreOpportunity (id : Id) (score : Rat) : Verb PUnit := do
  let _ ← opportunityOf ctx id
  modify fun s => s.setOpportunity id fun o => { o with score := some score }

/-- `raise Refused(str(refused)) from refused`. -/
def asRefusal : Raised → Raised
  | .opportunity reason => .refused reason
  | other => other

def advanceOpportunity (c : AdvanceOpportunity) : Verb PUnit := do
  let _ ← opportunityOf ctx c.opportunityId
  let target ← found (.refused ("'" ++ c.toState ++ "' is not a state an opportunity has"))
    (OpportunityState.read c.toState)
  ensure (target ≠ .rejected) (.refused "use RejectOpportunity, which records why")
  reraise asRefusal (advance c.opportunityId target ctx.actor c.reason c.businessUnitId)

def rejectOpportunity (id : Id) (reason : String) : Verb PUnit := do
  let _ ← opportunityOf ctx id
  advance id .rejected ctx.actor (some reason) none

def discoverOpportunity (c : DiscoverOpportunity) : Verb PUnit := do
  ensure (ctx.runId = none ∨ ctx.evidence.discovered < maxDiscoveredPerRun)
    (.refused ("this run already recorded " ++ toString ctx.evidence.discovered ++
      " new opportunities; " ++ toString maxDiscoveredPerRun ++
      " is the most one look at the market may add"))
  let refs ← vetted (c.signals.mapM (checkedSignal ctx))
  let s ← get
  ensure (s.byKey ctx.companyId c.key = none)
    (.refused ("the company already has an opportunity '" ++ c.key ++ "' (it may have been " ++
      "rejected: that is kept on purpose); add a signal to it instead, or pick a new key"))
  let id := s.opportunities.length
  modify fun s => { s with
    opportunities := s.opportunities ++ [{
      companyId := ctx.companyId
      key := c.key
      title := c.title
      thesis := some c.thesis
      market := c.market
      state := .discovered
      score := none
      discoveredByRunId := ctx.runId
      decidedAt := none
      decidedBy := none
      decisionReason := none
      expiresAt := none
      businessUnitId := none }] }
  forEach (fun p => recordSignal ctx id p.1 p.2) (c.signals.zip refs)

def recordOpportunitySignal (id : Id) (signal : SignalInput) : Verb PUnit := do
  let o ← opportunityOf ctx id
  ensure (o.state ∈ openStates) (decidedAlready o)
  let ref ← vetted (checkedSignal ctx signal)
  recordSignal ctx id signal ref

def draftProposal (id : Id) (content : ProposalContent) : Verb PUnit := do
  let o ← opportunityOf ctx id
  ensure (o.state ∈ openStates) (decidedAlready o)
  ensure (content.killCriteria.isEmpty = false)
    (.refused "a proposal must say what would make this business not worth running")
  draft id o.companyId { content with authoredByRunId := ctx.runId }

def submitProposal (id : Id) : Verb PUnit := do
  let p ← proposalOf ctx id
  ensure (p.state = .draft) (.refused ("proposal v" ++ toString p.version ++ " is " ++
    p.state.value ++ "; only a draft is put up"))
  submit id p.opportunityId

/-- `bool(value)`. -/
def truthy : Json → Bool
  | .null => false
  | .bool b => b
  | .num n => n ≠ 0
  | .str text => text ≠ ""
  | .list xs => !xs.isEmpty
  | .dict kvs => !kvs.isEmpty

/-- `KEY_PATTERN`: a lower-case letter, then lower-case letters, digits and underscores. -/
def isKey (key : String) : Bool :=
  match key.toList with
  | [] => false
  | c :: cs => c.isLower && cs.all fun d => d.isLower || d.isDigit || d = '_'

/-- A column of text takes a text and nothing else. -/
def text (column : String) : Json → Except Raised String
  | .str t => .ok t
  | _ => .error (.integrity column)

def firstProduct (unit : Id) (content : ProposalContent) : Verb PUnit :=
  let described := content.proposedProduct.getD []
  let key := (described.lookup "key").getD .null
  if truthy key = false then pure ⟨⟩
  else do
    let name := (described.lookup "name").getD .null
    let key ← vetted (text "key" key)
    let name ← vetted (if truthy name then text "name" name else .ok content.title)
    let s ← get
    ensure (isKey key = true) (.integrity "key")
    ensure (s.products.any (fun p => p.companyId = ctx.companyId && p.key = key) = false)
      (.integrity "products_company_id_key")
    modify fun s => { s with
      products := s.products ++ [⟨ctx.companyId, unit, key, name⟩] }

def openingCapital (unit proposal : Id) (capital : Rat) : Verb PUnit :=
  if 0 < capital then do
    let amount := Company.quantize capital
    ensure ((0 : Int) < amount) (.ledger ("a transaction must move money, got " ++ amount.text))
    modify fun s => { s with
      transfers := s.transfers ++ [⟨ctx.companyId, unit, proposal, amount⟩] }
  else pure ⟨⟩

def createBusinessUnit (c : CreateBusinessUnit) : Verb PUnit := do
  let p ← proposalOf ctx c.proposalId
  ensure (p.state = .submitted) (.refused ("proposal v" ++ toString p.version ++ " is " ++
    p.state.value ++ "; only a submitted one can be " ++
    "approved (a draft is still being written, a decided one is already answered)"))
  let s ← get
  let o ← found (.integrity "opportunities") s.opportunities[p.opportunityId]?
  let key := c.key.getD o.key
  ensure (s.keyTaken ctx.companyId key = false)
    (.refused ("the company already has a business '" ++ key ++ "'"))
  let unit := s.units.length
  modify fun s => { s with
    units := s.units ++ [{
      companyId := ctx.companyId
      key := key
      name := p.content.title
      mission := p.content.businessModel
      state := .active
      killCriteria := some p.content.killCriteria }] }
  firstProduct ctx unit p.content
  modify fun s => s.setProposal c.proposalId fun p => { p with businessUnitId := some unit }
  decide c.proposalId .approved c.reason
  advance p.opportunityId .approved ctx.actor
    (some (c.reason.getD ("approved proposal v" ++ toString p.version))) (some unit)
  openingCapital ctx unit c.proposalId c.capital

def handler : Command → Verb PUnit
  | .scoreOpportunity id score => scoreOpportunity ctx id score
  | .advanceOpportunity c => advanceOpportunity ctx c
  | .rejectOpportunity id reason => rejectOpportunity ctx id reason
  | .discoverOpportunity c => discoverOpportunity ctx c
  | .recordOpportunitySignal id signal => recordOpportunitySignal ctx id signal
  | .draftProposal id content => draftProposal ctx id content
  | .submitProposal id => submitProposal ctx id
  | .createBusinessUnit c => createBusinessUnit ctx c

end Handlers

end Autora.Ventures
