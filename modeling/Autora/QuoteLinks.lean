import Autora.Events
import Autora.Lib.Systems
import Autora.Quotes

/-! The claims of a newsroom and the quotes they are linked with: what is stored is the
evidence's own text at its place. -/

namespace Autora.Quotes

open Untyped Texts Systems

inductive SupportType where
  | supports | contradicts | context
  deriving DecidableEq, Repr

structure Evidence where
  companyId : Id
  extractedText : Str
  deriving DecidableEq, Repr

structure Claim where
  companyId : Id
  storyId : Id
  text : Str
  idempotencyKey : Str
  deriving DecidableEq, Repr

/-- A row of `claim_evidence`. -/
structure ClaimEvidence where
  claimId : Id
  evidenceId : Id
  quote : Str
  quoteStart : Nat
  quoteEnd : Nat
  supportType : SupportType
  deriving DecidableEq, Repr

structure EvidenceQuote where
  evidenceId : Id
  quote : Str
  supportType : SupportType
  deriving DecidableEq, Repr

/-- A row's id is its place in its table. -/
structure Desk where
  stories : List Id
  evidence : List Evidence
  claims : List Claim
  links : List ClaimEvidence
  deriving DecidableEq, Repr

inductive ClaimError where
  | noStory | opinionRefused | noEvidence | badLength | notFound | noClaim
  deriving DecidableEq, Repr

/-- `_locate`. -/
def locateRef (desk : Desk) (company : Id) (ref : EvidenceQuote) : Except ClaimError Located :=
  match desk.evidence[ref.evidenceId]? with
  | none => .error .noEvidence
  | some evidence =>
    if evidence.companyId ≠ company then .error .noEvidence
    else if !lengthAllowed ref.quote then .error .badLength
    else match locate ref.quote evidence.extractedText with
      | none => .error .notFound
      | some found => .ok found

/-- `_link`: a link that is there already is left as it is. -/
def link (claimId : Id) (ref : EvidenceQuote) (found : Located) (desk : Desk) : Desk :=
  if desk.links.any fun l => l.claimId = claimId ∧ l.evidenceId = ref.evidenceId ∧
      l.quoteStart = found.start ∧ l.supportType = ref.supportType then desk
  else { desk with links := desk.links ++
    [⟨claimId, ref.evidenceId, found.text, found.start, found.stop, ref.supportType⟩] }

structure CreateClaimArgs where
  storyId : Id
  text : Str
  opinion : Bool
  evidence : List EvidenceQuote
  deriving DecidableEq, Repr

/-- A retried call changes nothing; all the quotes are found, or nothing is written. -/
def createClaim (noAdvice : Bool) (company : Id) (key : Str) (args : CreateClaimArgs)
    (desk : Desk) : Except ClaimError Desk :=
  if desk.claims.any fun c => c.idempotencyKey = key then .ok desk
  else if desk.stories[args.storyId]? ≠ some company then .error .noStory
  else if args.opinion && noAdvice then .error .opinionRefused
  else do
    let located ← args.evidence.mapM (locateRef desk company)
    let claimId := desk.claims.length
    let desk := { desk with
      claims := desk.claims ++ [⟨company, args.storyId, args.text, key⟩] }
    pure ((args.evidence.zip located).foldl (fun desk x => link claimId x.1 x.2 desk) desk)

def linkEvidence (company claimId : Id) (ref : EvidenceQuote) (desk : Desk) :
    Except ClaimError Desk :=
  match desk.claims[claimId]? with
  | none => .error .noClaim
  | some claim =>
    if claim.companyId ≠ company then .error .noClaim
    else do
      let found ← locateRef desk company ref
      pure (link claimId ref found desk)

/-- `evidence_text[link.quote_start : link.quote_end] == link.quote`. -/
def intact (desk : Desk) (l : ClaimEvidence) : Prop :=
  ∃ e, desk.evidence[l.evidenceId]? = some e ∧
    slice e.extractedText l.quoteStart l.quoteEnd = l.quote

inductive Label where
  | newStory (company : Id)
  | capture (evidence : Evidence)
  | createClaim (noAdvice : Bool) (company : Id) (key : Str) (args : CreateClaimArgs)
  | linkEvidence (company claimId : Id) (ref : EvidenceQuote)

def move (desk : Desk) : Label → Except ClaimError Desk
  | .newStory company => .ok { desk with stories := desk.stories ++ [company] }
  | .capture evidence => .ok { desk with evidence := desk.evidence ++ [evidence] }
  | .createClaim noAdvice company key args => createClaim noAdvice company key args desk
  | .linkEvidence company claimId ref => linkEvidence company claimId ref desk

/-- Stories and evidence come in, and the tools are called; a call that is refused leaves the
desk as it was. -/
def newsroom : System Desk Label where
  init desk := desk = ⟨[], [], [], []⟩
  step desk l desk' := move desk l = .ok desk'

variable {desk desk' : Desk} {company claimId : Id} {ref : EvidenceQuote} {found : Located}

def AllIntact (desk : Desk) : Prop := ∀ l ∈ desk.links, intact desk l

/-- Where the quote was found in its evidence. -/
def FoundIn (desk : Desk) (ref : EvidenceQuote) (found : Located) : Prop :=
  ∃ e, desk.evidence[ref.evidenceId]? = some e ∧ slice e.extractedText found.start found.stop =
    found.text

theorem locateRef_found (h : locateRef desk company ref = .ok found) :
    FoundIn desk ref found := by
  unfold locateRef at h
  split at h
  · cases h
  · next e he =>
    split at h
    · cases h
    · split at h
      · cases h
      · split at h
        · cases h
        · next loc hl =>
          cases h
          exact ⟨e, he, (locate_sound hl).2.2.1.symm⟩

theorem link_evidence : (link claimId ref found desk).evidence = desk.evidence := by
  unfold link
  split <;> rfl

theorem link_intact (hf : FoundIn desk ref found) (h : AllIntact desk) :
    AllIntact (link claimId ref found desk) := by
  unfold link
  split
  · exact h
  · intro l hl
    rcases List.mem_append.mp hl with hl | hl
    · exact h l hl
    · cases List.mem_singleton.mp hl
      exact hf

theorem links_intact {pairs : List (EvidenceQuote × Located)}
    (hf : ∀ x ∈ pairs, FoundIn desk x.1 x.2) (h : AllIntact desk) :
    AllIntact (pairs.foldl (fun desk x => link claimId x.1 x.2 desk) desk) := by
  induction pairs generalizing desk with
  | nil => exact h
  | cons x pairs ih =>
    rw [List.foldl_cons]
    refine ih (fun y hy => ?_) (link_intact (hf x List.mem_cons_self) h)
    obtain ⟨e, he, hs⟩ := hf y (List.mem_cons_of_mem x hy)
    exact ⟨e, link_evidence.symm ▸ he, hs⟩

theorem located_found {refs : List EvidenceQuote} {located : List Located}
    (h : refs.mapM (locateRef desk company) = .ok located) :
    ∀ x ∈ refs.zip located, FoundIn desk x.1 x.2 := by
  induction refs generalizing located with
  | nil => exact fun x hx => absurd hx (by simp)
  | cons ref refs ih =>
    rw [List.mapM_cons] at h
    cases hr : locateRef desk company ref with
    | error e =>
      rw [hr] at h
      cases h
    | ok found =>
      rw [hr] at h
      cases hrs : refs.mapM (locateRef desk company) with
      | error e =>
        rw [hrs] at h
        cases h
      | ok rest =>
        rw [hrs] at h
        cases h
        rw [List.zip_cons_cons]
        exact List.forall_mem_cons.mpr ⟨locateRef_found hr, ih hrs⟩

theorem createClaim_intact {noAdvice : Bool} {key : Str} {args : CreateClaimArgs}
    (h : createClaim noAdvice company key args desk = .ok desk') (hi : AllIntact desk) :
    AllIntact desk' := by
  unfold createClaim at h
  split at h
  · cases h
    exact hi
  · split at h
    · cases h
    · split at h
      · cases h
      · cases hm : args.evidence.mapM (locateRef desk company) with
        | error e =>
          rw [hm] at h
          cases h
        | ok located =>
          rw [hm] at h
          cases h
          exact links_intact (located_found hm) hi

theorem linkEvidence_intact (h : linkEvidence company claimId ref desk = .ok desk')
    (hi : AllIntact desk) : AllIntact desk' := by
  unfold linkEvidence at h
  split at h
  · cases h
  · split at h
    · cases h
    · cases hl : locateRef desk company ref with
      | error e =>
        rw [hl] at h
        cases h
      | ok found =>
        rw [hl] at h
        cases h
        exact link_intact (locateRef_found hl) hi

theorem move_intact {l : Label} (h : move desk l = .ok desk') (hi : AllIntact desk) :
    AllIntact desk' := by
  cases l with
  | newStory company =>
    cases h
    exact hi
  | capture evidence =>
    cases h
    intro l hl
    obtain ⟨e, he, hs⟩ := hi l hl
    have hlt := (List.getElem?_eq_some_iff.mp he).1
    exact ⟨e, (List.getElem?_append_left hlt).trans he, hs⟩
  | createClaim noAdvice company key args => exact createClaim_intact h hi
  | linkEvidence company claimId ref => exact linkEvidence_intact h hi

/-- The place `locate` reports is a stretch of the text with the normal form of the quote, and
the first one but for the whitespace before it. -/
structure Places (q t : Str) (loc : Located) : Prop where
  nonempty : loc.start < loc.stop
  within : loc.stop ≤ t.length
  text : loc.text = slice t loc.start loc.stop
  form : normalForm loc.text = normalForm q
  first : ∀ i j, i < loc.start → normalForm (slice t i j) = normalForm q →
    ∀ c ∈ slice t i loc.start, isSpace c = true

/-- `locate` finds what is there, where it is first, and what the tools store stays found. -/
theorem quotes_stay_found :
    (∀ q t, (∃ loc, locate q t = some loc) ↔ normalForm q ≠ [] ∧ normalForm q <:+: normalForm t) ∧
    (∀ q t loc, locate q t = some loc → Places q t loc) ∧
    ∀ desk, newsroom.Reach anyStep desk → ∀ l ∈ desk.links, intact desk l := by
  refine ⟨fun q t => locate_some_iff, fun q t loc h => ?_, fun desk hr => ?_⟩
  · obtain ⟨h1, h2, h3, h4⟩ := locate_sound h
    exact ⟨h1, h2, h3, h4, fun i j => locate_first h⟩
  · refine System.Reach.invariant (I := AllIntact) ?_ ?_ hr
    · rintro s rfl l hl
      cases hl
    · intro s a t hi _ hs
      exact move_intact hs hi

/-- A stretch that begins with whitespace begins earlier and has the normal form too. -/
theorem earlier_with_whitespace :
    ¬ ∀ q t loc, locate q t = some loc → ∀ i j, i < loc.start → i < j → j ≤ t.length →
      normalForm (slice t i j) ≠ normalForm q := by
  intro h
  exact h (lit "gold") (lit " gold") ⟨1, 5, lit "gold"⟩ (by decide +kernel) 0 5 (by decide)
    (by decide) (by decide +kernel) (by decide +kernel)

end Autora.Quotes
