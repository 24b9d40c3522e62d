import Mathlib.Data.Rat.Init
import Autora.Fsm
import Autora.Lib.Systems

/-! The desk of one story: its claims and their quotes, its article with the drafts
and their fact-checks, and the commands that move it. -/

namespace Autora.Newsroom

open Systems

inductive ArticleState where
  | draft
  | inReview
  | approved
  | published
  | archived
  | rejected
  deriving DecidableEq, Repr

inductive StoryState where
  | discovered
  | selected
  | inProduction
  | published
  | dropped
  | ignored
  deriving DecidableEq, Repr

def ArticleState.value : ArticleState → String
  | .draft => "DRAFT"
  | .inReview => "IN_REVIEW"
  | .approved => "APPROVED"
  | .published => "PUBLISHED"
  | .archived => "ARCHIVED"
  | .rejected => "REJECTED"

def StoryState.value : StoryState → String
  | .discovered => "DISCOVERED"
  | .selected => "SELECTED"
  | .inProduction => "IN_PRODUCTION"
  | .published => "PUBLISHED"
  | .dropped => "DROPPED"
  | .ignored => "IGNORED"

def articleFsm : StateMachine ArticleState where
  entityType := "article"
  value := ArticleState.value
  transitions
    | .draft => [.inReview, .published, .archived]
    | .inReview => [.draft, .approved, .rejected, .published, .archived]
    | .approved => [.published]
    | .published => [.archived, .draft]
    | .archived => [.published, .draft]
    | .rejected => []

def storyFsm : StateMachine StoryState where
  entityType := "story"
  value := StoryState.value
  transitions
    | .discovered => [.selected, .ignored, .dropped]
    | .selected => [.inProduction, .dropped]
    | .inProduction => [.published, .dropped, .selected]
    | .published | .dropped | .ignored => []

def articleStates : List ArticleState :=
  [.draft, .inReview, .approved, .published, .archived, .rejected]

def storyStates : List StoryState :=
  [.discovered, .selected, .inProduction, .published, .dropped, .ignored]

inductive Refusal where
  | illegal (e : FSMError)
  | guardRejected (from_ to_ : ArticleState) (why : String)
  | publishError (why : String)
  | notAllowed (action outcome reason : String)
  | reviewError (why : String)
  | draftError (issues : List String)
  | factCheckError (why : String)
  | claimError (why : String)
  deriving DecidableEq, Repr

/-- The text of a draft group and of the published one are versions of that group. -/
structure Article where
  state : ArticleState
  currentDraftGroup : Nat
  publishedGroup : Option Nat
  listed : Bool
  revisionCount : Nat
  deriving DecidableEq, Repr

def backWithoutApproval (from_ to_ : ArticleState) : Bool :=
  (from_ = .draft || from_ = .inReview) && (to_ = .published || to_ = .archived)

/-- The guard of `_BACK_WITHOUT_APPROVAL`. -/
def Article.aRevision (a : Article) : Option String :=
  if a.publishedGroup = none then
    some "never published: only a revision of a published article goes back without approval"
  else none

def Article.transition (a : Article) (target : ArticleState) : Except Refusal Article :=
  if articleFsm.can a.state target = false then
    .error (.illegal (articleFsm.illegal a.state target))
  else if backWithoutApproval a.state target = true then
    match a.aRevision with
    | some why => .error (.guardRejected a.state target why)
    | none => .ok { a with state := target }
  else .ok { a with state := target }

def Article.transitionAlong : Article → List ArticleState → Except Refusal Article
  | a, [] => .ok a
  | a, hop :: hops =>
    match a.transition hop with
    | .ok a' => a'.transitionAlong hops
    | .error e => .error e

def Article.transitionVia (a : Article) (target : ArticleState) : Except Refusal Article :=
  match articleFsm.shortestPath articleStates a.state target with
  | .ok path => a.transitionAlong path
  | .error e => .error (.illegal e)

/-- No story has a guard, so a path that exists is gone along. -/
def StoryState.transitionVia (s target : StoryState) : Except Refusal StoryState :=
  match storyFsm.shortestPath storyStates s target with
  | .ok _ => .ok target
  | .error e => .error (.illegal e)

/-- `drop_story`: a story that is past dropping stays as it is. -/
def StoryState.drop (s : StoryState) : StoryState := if storyFsm.can s .dropped then .dropped else s

inductive BlockKind where
  | heading
  | paragraph
  | quote
  deriving DecidableEq, Repr

def BlockKind.value : BlockKind → String
  | .heading => "heading"
  | .paragraph => "paragraph"
  | .quote => "quote"

structure Block where
  kind : BlockKind
  text : String
  claimIds : List Nat
  deriving DecidableEq, Repr

structure LanguageVersion where
  lang : String
  title : String
  summary : Option String
  blocks : List Block
  deriving DecidableEq, Repr

/-- The claims a version cites, as a list that stands for their set. -/
def LanguageVersion.cited (v : LanguageVersion) : List Nat := (v.blocks.flatMap Block.claimIds).dedup

structure LanguagePolicy where
  primary : String
  langs : List String
  requireAll : Bool
  deriving DecidableEq, Repr

inductive ClaimStatus where
  | unverified
  | verified
  | rejected
  deriving DecidableEq, Repr

inductive ClaimType where
  | fact
  | number
  | quote
  | attribution
  | opinion
  deriving DecidableEq, Repr

structure Claim where
  id : Nat
  text : String
  claimType : ClaimType
  status : ClaimStatus
  deriving DecidableEq, Repr

inductive SupportType where
  | supports
  | contradicts
  | context
  deriving DecidableEq, Repr

/-- A quote linked to a claim, with what the check needs of its evidence. -/
structure QuoteFacts where
  claimId : Nat
  evidenceId : Nat
  quote : String
  supportType : SupportType
  intact : Bool
  trust : Rat
  sourceKey : String
  deriving DecidableEq, Repr

structure ArticleVersion where
  version : Nat
  lang : String
  draftGroup : Nat
  claimIds : List Nat
  deriving DecidableEq, Repr

structure FactCheckReport where
  id : Nat
  draftGroup : Nat
  passed : Bool
  deriving DecidableEq, Repr

inductive Verdict where
  | accept
  | revise
  | veto
  deriving DecidableEq, Repr

/-- An `ARTICLE_REVIEWED` event. The primary version of a draft stands for its group. -/
structure Reviewed where
  draftGroup : Nat
  verdict : Verdict
  byChief : Bool
  deriving DecidableEq, Repr

/-- Everything about one story. What was approved, and from what a revision set out,
is kept for the record. -/
structure Desk where
  story : StoryState
  article : Option Article
  versions : List ArticleVersion
  reports : List FactCheckReport
  reviews : List Reviewed
  claims : List Claim
  quotes : List QuoteFacts
  nextId : Nat
  approvedGroups : List Nat
  revising : Option (Option Nat × Bool)
  deriving DecidableEq, Repr

/-- The rules on the words of a draft and on the numbers of a claim. -/
structure WordRules where
  version : LanguageVersion → List String
  draft : List LanguageVersion → List String
  numbers : Claim → List QuoteFacts → List String

inductive Actor where
  | human
  | agent
  | system
  deriving DecidableEq, Repr

inductive Decision where
  | allow
  | needsApproval (reason : String)
  | deny (reason : String)
  deriving DecidableEq, Repr

def maxQuote : Nat := 500

def maxRevisions : Nat := 2

def pyList (xs : List String) : String :=
  "[" ++ ", ".intercalate (xs.map fun x => "'" ++ x ++ "'") ++ "]"

def closedStories : List StoryState := [.dropped, .ignored, .published]

def languageIssues (policy : LanguagePolicy) (langs : List String) : List String :=
  let unknown := langs.filter fun lang => lang ∉ policy.langs
  let missing := policy.langs.filter fun lang => lang ∉ langs
  (if langs.Nodup then [] else ["each language once: got " ++ pyList langs]) ++
  (if unknown = [] then []
    else ["languages not in the company's policy " ++ pyList policy.langs ++ ": " ++
      pyList unknown]) ++
  (if policy.primary ∈ langs then []
    else ["the primary language " ++ policy.primary ++ " is required"]) ++
  (if policy.requireAll = true ∧ missing ≠ [] then
    ["every language is required (require_all_langs): missing " ++ pyList missing] else [])

def blockIssues (lang : String) (index : Nat) (b : Block) : List String :=
  let where_ := lang ++ " block " ++ toString index ++ " (" ++ b.kind.value ++ ")"
  (if b.kind = .heading ∧ b.claimIds ≠ [] then [where_ ++ ": headings cite no claims"] else []) ++
  (if b.kind ≠ .heading ∧ b.claimIds = [] then
    [where_ ++ ": cite the claim(s) it states in claim_ids"] else []) ++
  (if b.kind = .quote ∧ maxQuote < b.text.length then
    [where_ ++ ": quotes are at most " ++ toString maxQuote ++ " characters"] else [])

def versionIssues (rules : WordRules) (v : LanguageVersion) : List String :=
  rules.version v ++ (v.blocks.zipIdx 1).flatMap fun b => blockIssues v.lang b.2 b.1

def claimIssues (claims : List Claim) (id : Nat) : List String :=
  match claims.find? fun c => c.id = id with
  | none => ["claim " ++ toString id ++ " is not one of this story's claims"]
  | some c =>
    if c.status = .rejected then
      ["claim " ++ toString id ++ " was rejected by fact-check and cannot be cited"]
    else []

/-- Every version against the first. -/
def citationIssues : List LanguageVersion → List String
  | [] => []
  | reference :: others => others.flatMap fun other =>
    let onlyRef := reference.cited.filter fun c => c ∉ other.cited
    let onlyOther := other.cited.filter fun c => c ∉ reference.cited
    if onlyRef ≠ [] ∨ onlyOther ≠ [] then
      [reference.lang ++ " and " ++ other.lang ++ " must cite the same claims: only in " ++
        reference.lang ++ ": " ++ pyList (onlyRef.map toString) ++ "; only in " ++ other.lang ++
        ": " ++ pyList (onlyOther.map toString)]
    else []

def checkDraft (rules : WordRules) (versions : List LanguageVersion) (story : StoryState)
    (article : Option ArticleState) (policy : LanguagePolicy) (claims : List Claim)
    (revising : Bool) : List String :=
  (if story ∈ closedStories ∧ ¬ (revising = true ∧ story = .published) then
    ["the story is " ++ story.value ++ ": nothing more is written for it"] else []) ++
  (match article with
    | none | some .draft => []
    | some state => ["the article is " ++ state.value ++
        ": drafts can only be written while it is DRAFT (new, or sent back for revision)"]) ++
  languageIssues policy (versions.map LanguageVersion.lang) ++
  versions.flatMap (versionIssues rules) ++
  (versions.flatMap LanguageVersion.cited).dedup.flatMap (claimIssues claims) ++
  citationIssues versions

/-- `check_claim`: the problems, none for a claim that passes. -/
def checkClaim (rules : WordRules) (minTrust : Rat) (c : Claim) (quotes : List QuoteFacts) :
    List String :=
  let supports := quotes.filter fun q => q.intact && q.supportType = .supports
  let contradicts := quotes.filter fun q => q.intact && q.supportType = .contradicts
  let broken := (quotes.filter fun q => !q.intact).map fun q =>
    "a quote no longer matches evidence " ++ toString q.evidenceId ++ " at its place"
  match c.claimType with
  | .fact | .number | .quote => broken ++
    (if supports = [] then ["no supporting quote"]
      else if (supports.filter fun q => minTrust ≤ q.trust) = [] ∧
        (supports.map QuoteFacts.sourceKey).dedup.length < 2 then
        ["only low-trust support from one source: add a trusted source or a second independent one"]
      else []) ++
    (if c.claimType = .number then rules.numbers c supports else []) ++
    (if contradicts = [] then []
      else ["contradicted by evidence " ++
        pyList (contradicts.map fun q => toString q.evidenceId) ++
        ": write the contested point as who said what (an attribution claim)"])
  | .attribution => broken ++
    (if quotes = [] then ["an attribution needs a quote showing who said or did it"] else [])
  | .opinion => broken

namespace Desk

variable (d : Desk)

def withArticle (a : Article) : Desk := { d with article := some a }

/-- The latest report on the article's current draft. -/
def latestReport (a : Article) : Option FactCheckReport :=
  (d.reports.filter fun r => r.draftGroup = a.currentDraftGroup).getLast?

def factCheckPassed (a : Article) : Bool := (d.latestReport a).any FactCheckReport.passed

def createClaim (text : String) (claimType : ClaimType) : Desk :=
  { d with claims := d.claims ++ [⟨d.nextId, text, claimType, .unverified⟩], nextId := d.nextId + 1 }

def linkEvidence (q : QuoteFacts) : Except Refusal Desk :=
  if d.claims.any fun c => c.id = q.claimId then .ok { d with quotes := d.quotes ++ [q] }
  else .error (.claimError ("no claim " ++ toString q.claimId))

def writtenVersions (policy : LanguagePolicy) (versions : List LanguageVersion) :
    List ArticleVersion :=
  let number := (d.versions.map ArticleVersion.version).foldr max 0 + 1
  let ordered := versions.filter (fun v => v.lang = policy.primary) ++
    versions.filter fun v => v.lang ≠ policy.primary
  ordered.map fun v => ⟨number, v.lang, d.nextId, v.cited⟩

def writeDraft (rules : WordRules) (policy : LanguagePolicy) (versions : List LanguageVersion) :
    Except Refusal Desk :=
  let issues := checkDraft rules versions d.story (d.article.map Article.state) policy d.claims
    (d.article.any fun a => a.publishedGroup.isSome) ++ rules.draft versions
  if versions = [] ∨ versions.any (fun v => v.blocks = []) = true ∨ issues ≠ [] then
    .error (.draftError issues)
  else
    let a := match d.article with
      | none => ⟨.draft, d.nextId, none, true, 0⟩
      | some a => { a with currentDraftGroup := d.nextId }
    .ok { d with
      article := some a
      versions := d.versions ++ d.writtenVersions policy versions
      nextId := d.nextId + 1 }

/-- The rows that a check reads: those of the given version, or of the current draft. -/
def checkedVersions (a : Article) : Option Nat → List ArticleVersion
  | some version => d.versions.filter fun v => v.version = version
  | none => d.versions.filter fun v => v.draftGroup = a.currentDraftGroup

def claimProblems (rules : WordRules) (minTrust : Rat) (c : Claim) : List String :=
  checkClaim rules minTrust c (d.quotes.filter fun q => q.claimId = c.id)

/-- Each cited claim gets the status that its quotes give it now. -/
def recheck (rules : WordRules) (minTrust : Rat) (cited : List Nat) : List Claim :=
  d.claims.map fun c =>
    if c.id ∈ cited then
      { c with status := if d.claimProblems rules minTrust c = [] then .verified else .rejected }
    else c

def runFactCheck (rules : WordRules) (minTrust : Rat) (version : Option Nat) :
    Except Refusal Desk :=
  match d.article with
  | none => .error (.factCheckError "no article")
  | some a =>
    if a.state ≠ .draft ∧ a.state ≠ .inReview then
      .error (.factCheckError
        ("the article is " ++ a.state.value ++ ": only drafts are fact-checked"))
    else
      match d.checkedVersions a version with
      | [] => .error (.factCheckError "the article has no draft to check")
      | primary :: others =>
        let sameClaims := others.all fun v =>
          v.claimIds.all (· ∈ primary.claimIds) && primary.claimIds.all (· ∈ v.claimIds)
        let cited := (primary :: others).flatMap ArticleVersion.claimIds
        let passed := sameClaims && d.claims.all fun c =>
          c.id ∉ cited || d.claimProblems rules minTrust c = []
        .ok { d with
          claims := d.recheck rules minTrust cited
          reports := d.reports ++ [⟨d.nextId, primary.draftGroup, passed⟩]
          nextId := d.nextId + 1 }

/-- `_draft`: the article, when it has a draft. -/
def reviewed : Except Refusal Article :=
  match d.article with
  | none => .error (.reviewError "no article")
  | some a =>
    if d.versions.any fun v => v.draftGroup = a.currentDraftGroup then .ok a
    else .error (.reviewError "the article has no draft to review")

/-- `_earlier`: what this reviewer already decided about this draft. -/
def earlier (a : Article) (byChief : Bool) : Option Verdict :=
  (d.reviews.find? fun r => r.draftGroup = a.currentDraftGroup && r.byChief = byChief).map
    Reviewed.verdict

def review (a : Article) (verdict : Verdict) (byChief : Bool) : Desk :=
  { d with reviews := d.reviews ++ [⟨a.currentDraftGroup, verdict, byChief⟩] }

def verdictValue : Verdict → String
  | .accept => "accept"
  | .revise => "revise"
  | .veto => "veto"

def acceptDraft (report : Nat) : Except Refusal Desk :=
  match d.reviewed with
  | .error e => .error e
  | .ok a =>
    match d.earlier a false with
    | some v =>
      if v = .accept then .ok d
      else .error (.reviewError ("this draft was already reviewed: " ++ verdictValue v))
    | none =>
      if a.state ≠ .draft then
        .error (.reviewError ("the article is " ++ a.state.value ++ ": only a draft is accepted"))
      else
        match d.latestReport a with
        | none => .error (.reviewError "run the fact-check on this draft first (run_fact_check)")
        | some latest =>
          if latest.id ≠ report then
            .error (.reviewError "accept with the draft's latest fact-check")
          else if latest.passed = false then
            .error (.reviewError "the fact-check did not pass: request a revision instead")
          else
            match a.transition .inReview with
            | .error e => .error e
            | .ok a' => .ok ((d.withArticle a').review a' .accept false)

/-- `drop_revision`. -/
def dropRevision (a : Article) : Except Refusal Desk :=
  match a.transition (if a.listed = true then .published else .archived), a.publishedGroup with
  | .error e, _ => .error e
  | .ok a', some g =>
    .ok { d.withArticle { a' with currentDraftGroup := g } with revising := none }
  -- `published_group_id` is not null where this is called
  | .ok _, none => .error (.publishError "never published")

/-- `_reject`: a revision is dropped, anything else is rejected with its story. -/
def reject (a : Article) : Except Refusal Desk :=
  if a.publishedGroup ≠ none then d.dropRevision a
  else
    match a.transitionVia .rejected with
    | .error e => .error e
    | .ok a' => .ok { d.withArticle a' with story := d.story.drop }

def requestRevision (issuesCount : Nat) : Except Refusal Desk :=
  if issuesCount < 1 then .error (.reviewError "a revision needs at least one issue")
  else
    match d.reviewed with
    | .error e => .error e
    | .ok a =>
      match d.earlier a false with
      | some v =>
        if v = .revise then .ok d
        else .error (.reviewError ("this draft was already reviewed: " ++ verdictValue v))
      | none =>
        if a.state ≠ .draft then
          .error (.reviewError ("the article is " ++ a.state.value ++
            ": only a draft is sent back"))
        else if maxRevisions ≤ a.revisionCount then (d.review a .revise false).reject a
        else .ok ((d.review a .revise false).withArticle
          { a with revisionCount := a.revisionCount + 1 })

def chiefDecide (verdict : Verdict) (issuesCount : Nat) (reason : String) :
    Except Refusal Desk :=
  if verdict = .revise ∧ issuesCount < 1 then
    .error (.reviewError "a revision needs at least one issue")
  else if verdict = .veto ∧ reason.toList.all Char.isWhitespace = true then
    .error (.reviewError "a veto says why")
  else
    match d.reviewed with
    | .error e => .error e
    | .ok a =>
      match d.earlier a true with
      | some v =>
        if v = verdict then .ok d
        else .error (.reviewError ("this draft was already reviewed: " ++ verdictValue v))
      | none =>
        if a.state ≠ .inReview then
          .error (.reviewError ("the article is " ++ a.state.value ++
            ": the final review is of a draft the editor accepted"))
        else
          match verdict with
          | .accept => .ok (d.review a .accept true)
          | .veto => (d.review a .veto true).reject a
          | .revise =>
            if maxRevisions ≤ a.revisionCount then (d.review a .revise true).reject a
            else
              match a.transition .draft with
              | .error e => .error e
              | .ok a' => .ok ((d.review a .revise true).withArticle
                { a' with revisionCount := a'.revisionCount + 1 })

def theArticle : Except Refusal Article :=
  match d.article with
  | none => .error (.publishError "no article")
  | some a => .ok a

def allowed (action : String) : Decision → Except Refusal Unit
  | .allow => .ok ()
  | .needsApproval reason => .error (.notAllowed action "needs_approval" reason)
  | .deny reason => .error (.notAllowed action "deny" reason)

def approveArticle (decision : Decision) : Except Refusal Desk :=
  match d.theArticle with
  | .error e => .error e
  | .ok a =>
    if a.state = .approved ∨ a.state = .published then .ok d
    else if a.state ≠ .inReview then
      .error (.publishError
        ("the article is " ++ a.state.value ++ "; only articles in review are approved"))
    else if d.factCheckPassed a = false then
      .error (.publishError "the current draft has no passed fact-check")
    else
      match allowed "approve_article" decision, a.transition .approved with
      | .error e, _ => .error e
      | .ok _, .error e => .error e
      | .ok _, .ok a' =>
        .ok { d.withArticle a' with approvedGroups := d.approvedGroups ++ [a'.currentDraftGroup] }

def rejectArticle (actor : Actor) (delegated : Bool) : Except Refusal Desk :=
  if actor ≠ .human ∧ ¬ (delegated = true ∧ actor = .agent) then
    .error (.notAllowed "reject_article" "deny" "only a person rejects an article")
  else
    match d.theArticle with
    | .error e => .error e
    | .ok a =>
      if a.publishedGroup ≠ none then d.dropRevision a
      else
        match a.transition .rejected with
        | .error e => .error e
        | .ok a' => .ok { d.withArticle a' with story := d.story.drop }

def byAPerson (action words : String) (actor : Actor) : Except Refusal Unit :=
  if actor = .human then .ok ()
  else .error (.notAllowed action "deny" ("only a person may " ++ words))

def saysWhy (reason why : String) : Except Refusal Unit :=
  if reason.toList.all Char.isWhitespace then .error (.publishError why) else .ok ()

def startRevision (actor : Actor) (reason : String) : Except Refusal Desk := do
  byAPerson "revise_article" "revise article" actor
  saysWhy reason "say what to change: the writer works from the reason"
  let a ← d.theArticle
  if a.publishedGroup = none ∨ (a.state ≠ .published ∧ a.state ≠ .archived) then
    .error (.publishError
      ("the article is " ++ a.state.value ++ ": only a published or taken-down one is revised"))
  else
    let a' ← a.transition .draft
    .ok { d.withArticle { a' with revisionCount := 0 } with
      revising := some (a.publishedGroup, a.listed) }

def returnArticle (actor : Actor) (reason : String) : Except Refusal Desk := do
  byAPerson "return_article" "return article" actor
  saysWhy reason "say what to change: the writer works from the reason"
  let a ← d.theArticle
  let a' ← a.transition .draft
  .ok (d.withArticle a')

def unpublishArticle (actor : Actor) (reason : String) : Except Refusal Desk := do
  byAPerson "unpublish_article" "unpublish article" actor
  saysWhy reason "say why it comes down: the record is the reason's only home"
  let a ← d.theArticle
  let a' ← a.transition .archived
  .ok (d.withArticle { a' with listed := false })

def republishArticle (actor : Actor) : Except Refusal Desk := do
  byAPerson "republish_article" "republish article" actor
  let a ← d.theArticle
  let a' ← a.transition .published
  .ok (d.withArticle { a' with listed := true })

/-- The languages of the current draft that are published, and those that it lacks. -/
def publishable (policy : LanguagePolicy) (a : Article) : List String × List String :=
  let langs := ((d.versions.filter fun v => v.draftGroup = a.currentDraftGroup).map
    ArticleVersion.lang).filter (· ∈ policy.langs)
  (langs, policy.langs.filter fun lang => lang ∉ langs)

def publishArticle (policy : LanguagePolicy) (decision : Decision) : Except Refusal Desk :=
  match d.theArticle with
  | .error e => .error e
  | .ok a =>
    if a.state = .published then .ok d
    else if a.state ≠ .approved then
      .error (.publishError
        ("the article is " ++ a.state.value ++ "; only approved articles are published"))
    else if d.factCheckPassed a = false then
      .error (.publishError "the approved draft has no passed fact-check")
    else
      match allowed "publish_article" decision with
      | .error e => .error e
      | .ok _ =>
        let (langs, missing) := d.publishable policy a
        if policy.primary ∉ langs ∨ (policy.requireAll = true ∧ missing ≠ []) then
          .error (.publishError ("not published: the approved draft lacks " ++ pyList missing))
        else
          match a.transition .published, d.story.transitionVia .published with
          | .error e, _ => .error e
          | .ok _, .error e => .error e
          | .ok a', .ok story =>
            .ok { d.withArticle
              { a' with publishedGroup := some a'.currentDraftGroup, listed := true } with
              story := story
              revising := none }

end Desk

end Autora.Newsroom
