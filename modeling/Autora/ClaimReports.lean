import Autora.Lib.UniqueRows
import Autora.QuoteLinks

/-! What the evidence tools report against what is stored. -/

namespace Autora.Quotes

open Untyped Texts UniqueRows

/-! What a call answers. -/

/-- The rows of `claim_evidence` for one claim, in the order they were made. -/
def linksOf (desk : Desk) (claimId : Id) : List ClaimEvidence :=
  desk.links.filter fun l => l.claimId = claimId

def row (claimId : Id) (ref : EvidenceQuote) (found : Located) : ClaimEvidence :=
  ⟨claimId, ref.evidenceId, found.text, found.start, found.stop, ref.supportType⟩

structure Report where
  claimId : Id
  /-- What `link_evidence` says it linked: the quote as located, whatever the insert did. -/
  linked : Option ClaimEvidence
  evidence : List ClaimEvidence
  deriving DecidableEq, Repr

/-- The claim that `create_claim` finds under its key, or has made. -/
def claimOf (desk : Desk) (key : Str) : Option Id :=
  desk.claims.findIdx? fun c => c.idempotencyKey = key

/-- The answer of a call that was not refused, from the desk before and after it. -/
def report (desk desk' : Desk) : Label → Option Report
  | .newStory _ => none
  | .capture _ => none
  | .createClaim _ _ key _ =>
    (claimOf desk' key).map fun claimId => ⟨claimId, none, linksOf desk' claimId⟩
  | .linkEvidence company claimId ref =>
    some ⟨claimId, (locateRef desk company ref).toOption.map (row claimId ref),
      linksOf desk' claimId⟩

/-- A refused call is rolled back. -/
def attempt (desk : Desk) (l : Label) : Except ClaimError (Option Report) × Desk :=
  match move desk l with
  | .error e => (.error e, desk)
  | .ok desk' => (.ok (report desk desk' l), desk')

/-- The columns of the unique constraint: the end of the quote is not one of them. -/
def linkKey (l : ClaimEvidence) : Id × Id × Nat × SupportType :=
  (l.claimId, l.evidenceId, l.quoteStart, l.supportType)

/-! What is promised. -/

/-- Where a quote is in its evidence. -/
def placeOf (desk : Desk) (ref : EvidenceQuote) : Option Located :=
  desk.evidence[ref.evidenceId]?.bind fun e => locate ref.quote e.extractedText

/-- The quotes of a call differ in their evidence, their place or their support type. -/
def Distinct (desk : Desk) (refs : List EvidenceQuote) : Prop :=
  (refs.map fun ref => (ref.evidenceId, placeOf desk ref, ref.supportType)).Nodup

/-- They differ in their evidence, their start or their support type. -/
def Apart (desk : Desk) (refs : List EvidenceQuote) : Prop :=
  (refs.map fun ref =>
    (ref.evidenceId, (placeOf desk ref).map (·.start), ref.supportType)).Nodup

/-- Every quote has a place, and one link there. -/
def AllStored (desk : Desk) (claimId : Id) (refs : List EvidenceQuote) : Prop :=
  ∀ ref ∈ refs, ∃ found, placeOf desk ref = some found ∧
    desk.links.count (row claimId ref found) = 1

structure Law (desk : Desk) (l : Label) : Prop where
  kept : desk.links <+: (attempt desk l).2.links
  refused : ∀ e, (attempt desk l).1 = .error e → (attempt desk l).2 = desk
  reported : ∀ r, (attempt desk l).1 = .ok (some r) → ∀ x, x ∈ r.evidence ∨ r.linked = some x →
    x ∈ (attempt desk l).2.links ∧ x.claimId = r.claimId
  stored : ∀ noAdvice company key args, l = .createClaim noAdvice company key args →
    ∀ r, (attempt desk l).1 = .ok r → ∃ claimId, claimOf (attempt desk l).2 key = some claimId ∧
      (Distinct desk args.evidence → AllStored (attempt desk l).2 claimId args.evidence)

/-- Nothing refuses a new claim. -/
def Accepted (desk : Desk) (noAdvice : Bool) (company : Id) (args : CreateClaimArgs) : Prop :=
  desk.stories[args.storyId]? = some company ∧ (args.opinion && noAdvice) = false ∧
    ∀ ref ∈ args.evidence, ∃ found, locateRef desk company ref = .ok found

/-- No quote starts where another one of its claim starts and ends elsewhere. -/
def Meets (desk : Desk) : Label → Prop
  | .newStory _ => True
  | .capture _ => True
  | .createClaim noAdvice company key args => claimOf desk key = none →
    Accepted desk noAdvice company args → Distinct desk args.evidence → Apart desk args.evidence
  | .linkEvidence company claimId ref => ∀ claim, desk.claims[claimId]? = some claim →
    claim.companyId = company → ∀ found, locateRef desk company ref = .ok found →
      ∀ l ∈ desk.links, linkKey l = linkKey (row claimId ref found) → l.quoteEnd = found.stop

/-- A property of every call of a run, and of the desk it finds. -/
def Throughout (P : Desk → Label → Prop) (desk : Desk) : List Label → Prop
  | [] => True
  | l :: ls => P desk l ∧ Throughout P (attempt desk l).2 ls

/-- The key of a call names its quotes: it is made from the call's arguments. -/
def Keyed (quotes : Str → List EvidenceQuote) : Label → Prop
  | .createClaim _ _ key args => args.evidence = quotes key
  | _ => True

/-! The desk of a run. -/

variable {desk desk' : Desk} {company claimId : Id} {ref : EvidenceQuote} {found : Located}
  {key : Str} {refs : List EvidenceQuote} {quotes : Str → List EvidenceQuote}

structure Sound (quotes : Str → List EvidenceQuote) (desk : Desk) : Prop where
  intact : AllIntact desk
  claims : ∀ l ∈ desk.links, l.claimId < desk.claims.length
  unique : (desk.links.map linkKey).Nodup
  placed : ∀ key claimId, claimOf desk key = some claimId → ∀ ref ∈ quotes key,
    ∃ found, placeOf desk ref = some found
  stored : ∀ key claimId, claimOf desk key = some claimId → Distinct desk (quotes key) →
    AllStored desk claimId (quotes key)

def emptyDesk : Desk := ⟨[], [], [], []⟩

theorem sound_empty : Sound quotes emptyDesk where
  intact _ h := absurd h List.not_mem_nil
  claims _ h := absurd h List.not_mem_nil
  unique := List.nodup_nil
  placed _ _ h := nomatch h
  stored _ _ h := nomatch h

theorem link_eq : link claimId ref found desk =
    { desk with links := insertNew linkKey (row claimId ref found) desk.links } := by
  have hany : (desk.links.any fun l => l.claimId = claimId ∧ l.evidenceId = ref.evidenceId ∧
      l.quoteStart = found.start ∧ l.supportType = ref.supportType) =
      desk.links.any fun l => linkKey l = linkKey (row claimId ref found) := by
    congr 1
    funext l
    simp [linkKey, row]
  rw [link, hany, insertNew]
  split <;> rfl

theorem links_eq (claimId : Id) {pairs : List (EvidenceQuote × Located)} :
    pairs.foldl (fun desk x => link claimId x.1 x.2 desk) desk =
      { desk with links :=
          insertAll linkKey desk.links (pairs.map fun x => row claimId x.1 x.2) } := by
  induction pairs generalizing desk with
  | nil => rfl
  | cons x pairs ih =>
    rw [List.foldl_cons, ih, link_eq]
    rfl

theorem placeOf_locateRef (h : locateRef desk company ref = .ok found) :
    placeOf desk ref = some found := by
  unfold locateRef at h
  unfold placeOf
  cases he : desk.evidence[ref.evidenceId]? with
  | none =>
    rw [he] at h
    cases h
  | some e =>
    rw [he] at h
    dsimp only at h
    rw [Option.bind_some]
    split at h
    · cases h
    · split at h
      · cases h
      · split at h
        · cases h
        · next loc hl =>
          cases h
          exact hl

theorem placeOf_mono (h : desk.evidence <+: desk'.evidence) (hp : placeOf desk ref = some found) :
    placeOf desk' ref = some found := by
  obtain ⟨e, he, hl⟩ := Option.bind_eq_some_iff.mp hp
  obtain ⟨rest, hrest⟩ := h
  have hlt := (List.getElem?_eq_some_iff.mp he).1
  rw [placeOf, ← hrest, List.getElem?_append_left hlt, he]
  exact hl

theorem AllStored.mono (h : AllStored desk claimId refs)
    (hevidence : desk.evidence <+: desk'.evidence) (hlinks : desk.links <+: desk'.links)
    (hunique : (desk'.links.map linkKey).Nodup) : AllStored desk' claimId refs := by
  intro ref href
  obtain ⟨found, hfound, hcount⟩ := h ref href
  refine ⟨found, placeOf_mono hevidence hfound, ?_⟩
  have hmem : row claimId ref found ∈ desk.links := by
    rw [← List.count_pos_iff, hcount]
    exact Nat.one_pos
  exact List.count_eq_one_of_mem hunique.of_map (hlinks.mem hmem)

theorem distinct_mono (hevidence : desk.evidence <+: desk'.evidence)
    (hplaced : ∀ ref ∈ refs, ∃ found, placeOf desk ref = some found) :
    Distinct desk' refs ↔ Distinct desk refs := by
  rw [Distinct, Distinct]
  have hmap : (refs.map fun ref => (ref.evidenceId, placeOf desk' ref, ref.supportType)) =
      refs.map fun ref => (ref.evidenceId, placeOf desk ref, ref.supportType) := by
    refine List.map_congr_left fun ref href => ?_
    obtain ⟨found, hfound⟩ := hplaced ref href
    rw [hfound, placeOf_mono hevidence hfound]
  rw [hmap]

/-- The rows of quotes that all have a place. -/
def rowsFor (desk : Desk) (claimId : Id) (refs : List EvidenceQuote) : List ClaimEvidence :=
  refs.filterMap fun ref => (placeOf desk ref).map (row claimId ref)

theorem mem_rowsFor {x : ClaimEvidence} : x ∈ rowsFor desk claimId refs ↔
    ∃ ref ∈ refs, ∃ found, placeOf desk ref = some found ∧ row claimId ref found = x := by
  rw [rowsFor, List.mem_filterMap]
  simp only [Option.map_eq_some_iff]

theorem rowsFor_cons (h : placeOf desk ref = some found) :
    rowsFor desk claimId (ref :: refs) = row claimId ref found :: rowsFor desk claimId refs := by
  have hrow : (fun ref => (placeOf desk ref).map (row claimId ref)) ref =
      some (row claimId ref found) := by
    show (placeOf desk ref).map (row claimId ref) = _
    rw [h]
    rfl
  exact List.filterMap_cons_some hrow

theorem map_rowsFor {β : Type} (g : ClaimEvidence → β)
    (hplaced : ∀ ref ∈ refs, ∃ found, placeOf desk ref = some found) {f : EvidenceQuote → β}
    (hf : ∀ ref found, placeOf desk ref = some found → f ref = g (row claimId ref found)) :
    refs.map f = (rowsFor desk claimId refs).map g := by
  induction refs with
  | nil => rfl
  | cons ref refs ih =>
    obtain ⟨found, hfound⟩ := hplaced ref List.mem_cons_self
    rw [rowsFor_cons hfound, List.map_cons, List.map_cons, hf ref found hfound,
      ih fun r hr => hplaced r (List.mem_cons_of_mem ref hr)]

theorem distinct_iff (hplaced : ∀ ref ∈ refs, ∃ found, placeOf desk ref = some found) :
    Distinct desk refs ↔ (rowsFor desk claimId refs).Nodup := by
  rw [Distinct, map_rowsFor
    (fun x => (x.evidenceId, some (⟨x.quoteStart, x.quoteEnd, x.quote⟩ : Located), x.supportType))
    hplaced fun ref found hfound => by rw [hfound]; rfl]
  refine ⟨fun h => h.of_map, fun h => h.map_on fun x hx y hy hxy => ?_⟩
  obtain ⟨ref, -, found, -, rfl⟩ := mem_rowsFor.mp hx
  obtain ⟨ref', -, found', -, rfl⟩ := mem_rowsFor.mp hy
  simp only [row, Prod.mk.injEq, Option.some.injEq, Located.mk.injEq] at hxy
  simp only [row, ClaimEvidence.mk.injEq]
  exact ⟨trivial, hxy.1, hxy.2.1.2.2, hxy.2.1.1, hxy.2.1.2.1, hxy.2.2⟩

theorem apart_iff (hplaced : ∀ ref ∈ refs, ∃ found, placeOf desk ref = some found) :
    Apart desk refs ↔ ((rowsFor desk claimId refs).map linkKey).Nodup := by
  have hmap := @map_rowsFor _ claimId _ _
    (fun x => (x.evidenceId, some x.quoteStart, x.supportType)) hplaced
    (f := fun ref => (ref.evidenceId, (placeOf desk ref).map (·.start), ref.supportType))
    fun ref found hfound => by rw [hfound]; rfl
  have hkeys : (rowsFor desk claimId refs).map
      (fun x => (x.evidenceId, some x.quoteStart, x.supportType)) =
      ((rowsFor desk claimId refs).map linkKey).map fun k => (k.2.1, some k.2.2.1, k.2.2.2) := by
    rw [List.map_map]
    rfl
  rw [Apart, hmap, hkeys]
  refine ⟨fun h => h.of_map, fun h => h.map_on fun x hx y hy hxy => ?_⟩
  obtain ⟨a, ha, rfl⟩ := List.mem_map.mp hx
  obtain ⟨b, hb, rfl⟩ := List.mem_map.mp hy
  obtain ⟨ref, -, found, -, rfl⟩ := mem_rowsFor.mp ha
  obtain ⟨ref', -, found', -, rfl⟩ := mem_rowsFor.mp hb
  simp only [linkKey, row, Prod.mk.injEq, Option.some.injEq] at hxy ⊢
  exact ⟨trivial, hxy⟩

/-! What the two calls do. -/

theorem createClaim_old {noAdvice : Bool} {args : CreateClaimArgs}
    (h : claimOf desk key = some claimId) :
    createClaim noAdvice company key args desk = .ok desk := by
  rw [createClaim, if_pos]
  rw [List.any_eq_true]
  obtain ⟨hlt, hc, -⟩ := List.findIdx?_eq_some_iff_getElem.mp h
  exact ⟨_, List.getElem_mem hlt, hc⟩

theorem mapM_cases (refs : List EvidenceQuote) :
    ((∀ ref ∈ refs, ∃ found, locateRef desk company ref = .ok found) ∧
      ∃ located, refs.mapM (locateRef desk company) = .ok located ∧
        ((refs.zip located).map fun x => row claimId x.1 x.2) = rowsFor desk claimId refs) ∨
    ((¬ ∀ ref ∈ refs, ∃ found, locateRef desk company ref = .ok found) ∧
      ∃ e, refs.mapM (locateRef desk company) = .error e) := by
  induction refs with
  | nil => exact Or.inl ⟨fun _ h => absurd h List.not_mem_nil, [], rfl, rfl⟩
  | cons ref refs ih =>
    rw [List.mapM_cons]
    cases hr : locateRef desk company ref with
    | error e =>
      refine Or.inr ⟨fun h => ?_, e, rfl⟩
      obtain ⟨found, hfound⟩ := h ref List.mem_cons_self
      rw [hr] at hfound
      cases hfound
    | ok found =>
      rcases ih with ⟨hall, located, hm, hrows⟩ | ⟨hnot, e, hm⟩
      · refine Or.inl ⟨List.forall_mem_cons.mpr ⟨⟨found, hr⟩, hall⟩, found :: located, ?_, ?_⟩
        · rw [hm]
          rfl
        · rw [List.zip_cons_cons, List.map_cons, hrows, rowsFor_cons (placeOf_locateRef hr)]
      · refine Or.inr ⟨fun h => hnot fun r hr' => h r (List.mem_cons_of_mem ref hr'), e, ?_⟩
        rw [hm]
        rfl

/-- A new claim with the links of its quotes. -/
def withClaim (desk : Desk) (claim : Claim) (refs : List EvidenceQuote) : Desk :=
  { desk with
    claims := desk.claims ++ [claim]
    links := insertAll linkKey desk.links (rowsFor desk desk.claims.length refs) }

theorem createClaim_new {noAdvice : Bool} {args : CreateClaimArgs} (h : claimOf desk key = none) :
    (Accepted desk noAdvice company args ∧ createClaim noAdvice company key args desk =
      .ok (withClaim desk ⟨company, args.storyId, args.text, key⟩ args.evidence)) ∨
    (¬ Accepted desk noAdvice company args ∧
      ∃ e, createClaim noAdvice company key args desk = .error e) := by
  have hkey : ¬ (desk.claims.any fun c => c.idempotencyKey = key) = true := by
    rw [List.any_eq_true]
    intro hany
    obtain ⟨c, hc, hk⟩ := hany
    have hnone := List.findIdx?_eq_none_iff.mp h c hc
    rw [hk] at hnone
    cases hnone
  rw [createClaim, if_neg hkey, Accepted]
  by_cases hstory : desk.stories[args.storyId]? = some company
  · rw [if_neg (fun hne => hne hstory)]
    cases hop : args.opinion && noAdvice with
    | true =>
      rw [if_pos rfl]
      exact Or.inr ⟨fun hacc => Bool.noConfusion hacc.2.1, _, rfl⟩
    | false =>
      rw [if_neg (by decide)]
      rcases mapM_cases
        args.evidence with ⟨hall, located, hm, hrows⟩ | ⟨hnot, e, hm⟩
      · refine Or.inl ⟨⟨hstory, rfl, hall⟩, ?_⟩
        rw [hm]
        show Except.ok _ = _
        rw [links_eq, hrows]
        rfl
      · refine Or.inr ⟨fun hacc => hnot hacc.2.2, e, ?_⟩
        rw [hm]
        rfl
  · rw [if_pos hstory]
    exact Or.inr ⟨fun hacc => hstory hacc.1, _, rfl⟩

theorem linkEvidence_cases (company claimId : Id) (ref : EvidenceQuote) (desk : Desk) :
    (∃ claim found, desk.claims[claimId]? = some claim ∧ claim.companyId = company ∧
      locateRef desk company ref = .ok found ∧ linkEvidence company claimId ref desk =
        .ok { desk with links := insertNew linkKey (row claimId ref found) desk.links }) ∨
    ((∀ claim, desk.claims[claimId]? = some claim → claim.companyId = company →
      ∀ found, locateRef desk company ref ≠ .ok found) ∧
      ∃ e, linkEvidence company claimId ref desk = .error e) := by
  unfold linkEvidence
  cases hc : desk.claims[claimId]? with
  | none => exact Or.inr ⟨fun _ h => (nomatch h), _, rfl⟩
  | some claim =>
    dsimp only
    by_cases hown : claim.companyId = company
    · rw [if_neg (fun hne => hne hown)]
      cases hl : locateRef desk company ref with
      | error e => exact Or.inr ⟨fun _ _ _ _ h => (nomatch h), e, rfl⟩
      | ok found =>
        refine Or.inl ⟨claim, found, rfl, hown, rfl, ?_⟩
        show Except.ok (link claimId ref found desk) = _
        rw [link_eq]
    · rw [if_pos hown]
      refine Or.inr ⟨fun c h hcomp => ?_, _, rfl⟩
      cases h
      exact absurd hcomp hown

/-! Each call keeps the desk sound and, unless quotes collide, what it promises. -/

theorem claimOf_withClaim {claim : Claim} : claimOf (withClaim desk claim refs) key =
    (claimOf desk key).or
      (if claim.idempotencyKey = key then some desk.claims.length else none) := by
  rw [claimOf, withClaim]
  dsimp only
  rw [List.findIdx?_append, List.findIdx?_singleton]
  by_cases h : claim.idempotencyKey = key
  · simp [h, claimOf]
  · simp [h, claimOf]

theorem attempt_create_old {noAdvice : Bool} {args : CreateClaimArgs}
    (h : claimOf desk key = some claimId) :
    attempt desk (.createClaim noAdvice company key args) =
      (.ok (some ⟨claimId, none, linksOf desk claimId⟩), desk) := by
  rw [attempt, move, createClaim_old h]
  dsimp only
  rw [report, h]
  rfl

theorem attempt_create_new {noAdvice : Bool} {args : CreateClaimArgs}
    (h : claimOf desk key = none) (hacc : Accepted desk noAdvice company args) :
    ∃ claim : Claim, claim.idempotencyKey = key ∧
      attempt desk (.createClaim noAdvice company key args) =
        (.ok (some ⟨desk.claims.length, none,
          linksOf (withClaim desk claim args.evidence) desk.claims.length⟩),
          withClaim desk claim args.evidence) := by
  rcases createClaim_new h with ⟨-, hok⟩ | ⟨hnot, -⟩
  · refine ⟨⟨company, args.storyId, args.text, key⟩, rfl, ?_⟩
    rw [attempt, move, hok]
    dsimp only
    rw [report, claimOf_withClaim, h, if_pos rfl]
    rfl
  · exact absurd hacc hnot

theorem attempt_refused {l : Label} {e : ClaimError} (h : move desk l = .error e) :
    attempt desk l = (.error e, desk) := by
  rw [attempt, h]

theorem attempt_link (hfound : locateRef desk company ref = .ok found)
    (h : linkEvidence company claimId ref desk = .ok desk') :
    attempt desk (.linkEvidence company claimId ref) =
      (.ok (some ⟨claimId, some (row claimId ref found), linksOf desk' claimId⟩), desk') := by
  rw [attempt, move, h]
  dsimp only
  rw [report, hfound]
  rfl

theorem mem_linksOf {x : ClaimEvidence} (h : x ∈ linksOf desk claimId) :
    x ∈ desk.links ∧ x.claimId = claimId := by
  obtain ⟨hmem, hid⟩ := List.mem_filter.mp h
  exact ⟨hmem, of_decide_eq_true hid⟩

theorem law_refused {l : Label} {e : ClaimError} (h : attempt desk l = (.error e, desk)) :
    Law desk l := by
  constructor
  · simp [h]
  · intro _ _
    rw [h]
  · intro r hr
    rw [h] at hr
    cases hr
  · intro _ _ _ _ _ r hr
    rw [h] at hr
    cases hr

/-- The links of a new claim are all stored iff no two of its quotes start together. -/
theorem newClaim_stored (hs : Sound quotes desk) {claim : Claim}
    (hplaced : ∀ ref ∈ refs, ∃ found, placeOf desk ref = some found)
    (hdistinct : Distinct desk refs) :
    AllStored (withClaim desk claim refs) desk.claims.length refs ↔ Apart desk refs := by
  have hnew : ∀ r ∈ desk.links, ∀ f ∈ rowsFor desk desk.claims.length refs,
      linkKey r ≠ linkKey f := by
    intro r hr f hf hk
    obtain ⟨ref, -, found, -, rfl⟩ := mem_rowsFor.mp hf
    have hlt := hs.claims r hr
    have hid : r.claimId = desk.claims.length := congrArg Prod.fst hk
    rw [hid] at hlt
    exact Nat.lt_irrefl _ hlt
  rw [apart_iff hplaced, ← all_inserted_iff hs.unique hnew
    ((distinct_iff hplaced).mp hdistinct)]
  have hunique : ((withClaim desk claim refs).links.map linkKey).Nodup := nodup_insertAll hs.unique
  constructor
  · intro h f hf
    obtain ⟨ref, href, found, hfound, rfl⟩ := mem_rowsFor.mp hf
    obtain ⟨found', hfound', hcount⟩ := h ref href
    have hsame : found' = found := Option.some.inj (hfound'.symm.trans hfound)
    rw [hsame] at hcount
    have hpos : 0 < (withClaim desk claim refs).links.count (row desk.claims.length ref found) := by
      rw [hcount]
      exact Nat.one_pos
    exact List.count_pos_iff.mp hpos
  · intro h ref href
    obtain ⟨found, hfound⟩ := hplaced ref href
    refine ⟨found, hfound, List.count_eq_one_of_mem hunique.of_map ?_⟩
    exact h _ (mem_rowsFor.mpr ⟨ref, href, found, hfound, rfl⟩)

/-- A stored link with the key and the end of a located quote is its row. -/
theorem eq_row (hs : Sound quotes desk) {l : ClaimEvidence} (hl : l ∈ desk.links)
    (hfound : locateRef desk company ref = .ok found) (hk : linkKey l = linkKey (row claimId ref found))
    (hend : l.quoteEnd = found.stop) : l = row claimId ref found := by
  simp only [linkKey, row, Prod.mk.injEq] at hk
  obtain ⟨h1, h2, h3, h4⟩ := hk
  obtain ⟨e, he, hquote⟩ := hs.intact l hl
  obtain ⟨e', he', hslice⟩ := locateRef_found hfound
  rw [h2, he'] at he
  cases he
  rw [h3, hend, hslice] at hquote
  cases l
  simp only [row, ClaimEvidence.mk.injEq]
  exact ⟨h1, h2, hquote.symm, h3, hend, h4⟩

theorem law_iff {l : Label} (hs : Sound quotes desk) (hk : Keyed quotes l) :
    Law desk l ↔ Meets desk l := by
  cases l with
  | newStory company =>
    refine ⟨fun _ => trivial, fun _ => ⟨List.prefix_rfl, nofun, ?_, nofun⟩⟩
    intro r hr
    cases hr
  | capture evidence =>
    refine ⟨fun _ => trivial, fun _ => ⟨List.prefix_rfl, nofun, ?_, nofun⟩⟩
    intro r hr
    cases hr
  | createClaim noAdvice company key args =>
    have hargs : args.evidence = quotes key := hk
    cases hold : claimOf desk key with
    | some claimId =>
      have hrun := @attempt_create_old _ company _ _ noAdvice args hold
      refine ⟨fun _ hnone => ?_, fun _ => ⟨?_, ?_, ?_, ?_⟩⟩
      · rw [hold] at hnone
        cases hnone
      · simp [hrun]
      · intro e he
        rw [hrun]
      · intro r hr x hx
        rw [hrun] at hr ⊢
        cases hr
        exact mem_linksOf (hx.resolve_right nofun)
      · intro _ _ _ _ heq r hr
        cases heq
        rw [hrun]
        refine ⟨claimId, hold, fun hd => ?_⟩
        rw [hargs] at hd ⊢
        exact hs.stored key claimId hold hd
    | none =>
      by_cases hacc : Accepted desk noAdvice company args
      · obtain ⟨claim, hckey, hrun⟩ := attempt_create_new hold hacc
        have hplaced : ∀ ref ∈ args.evidence, ∃ found, placeOf desk ref = some found := by
          intro ref href
          obtain ⟨found, hfound⟩ := hacc.2.2 ref href
          exact ⟨found, placeOf_locateRef hfound⟩
        have hid : claimOf (withClaim desk claim args.evidence) key = some desk.claims.length := by
          rw [claimOf_withClaim, hold, if_pos hckey]
          rfl
        constructor
        · intro hlaw _ _ hd
          obtain ⟨claimId, hclaim, hstored⟩ := hlaw.stored _ _ _ _ rfl _ (by rw [hrun])
          rw [hrun, hid] at hclaim
          cases hclaim
          rw [hrun] at hstored
          exact (newClaim_stored hs hplaced hd).mp (hstored hd)
        · intro hmeets
          refine ⟨?_, ?_, ?_, ?_⟩
          · rw [hrun]
            exact prefix_insertAll
          · intro e he
            rw [hrun] at he
            cases he
          · intro r hr x hx
            rw [hrun] at hr ⊢
            cases hr
            exact mem_linksOf (hx.resolve_right nofun)
          · intro _ _ _ _ heq r hr
            cases heq
            rw [hrun]
            refine ⟨_, hid, fun hd => ?_⟩
            exact (newClaim_stored hs hplaced hd).mpr (hmeets hold hacc hd)
      · rcases createClaim_new hold with
          ⟨hacc', -⟩ | ⟨-, e, herr⟩
        · exact absurd hacc' hacc
        · exact ⟨fun _ _ hacc' => absurd hacc' hacc, fun _ => law_refused (attempt_refused herr)⟩
  | linkEvidence company claimId ref =>
    rcases linkEvidence_cases company claimId ref desk with
      ⟨claim, found, hclaim, hown, hfound, hok⟩ | ⟨hnot, e, herr⟩
    · have hrun := attempt_link hfound hok
      constructor
      · intro hlaw c _ _ found' hfound' l hl hlk
        rw [hfound] at hfound'
        cases hfound'
        have hin := (hlaw.reported _ (by rw [hrun]) (row claimId ref found) (Or.inr rfl)).1
        rw [hrun] at hin
        rcases mem_insertNew_self.mp hin with hfree | hin
        · exact absurd hlk (hfree l hl)
        · rw [List.inj_on_of_nodup_map hs.unique hl hin hlk]
          rfl
      · intro hmeets
        refine ⟨?_, ?_, ?_, nofun⟩
        · rw [hrun]
          exact prefix_insertNew
        · intro e he
          rw [hrun] at he
          cases he
        · intro r hr x hx
          rw [hrun] at hr ⊢
          cases hr
          rcases hx with hx | hx
          · exact mem_linksOf hx
          · cases hx
            refine ⟨mem_insertNew_self.mpr ?_, rfl⟩
            by_cases htaken : ∃ l ∈ desk.links, linkKey l = linkKey (row claimId ref found)
            · obtain ⟨l, hl, hlk⟩ := htaken
              have hend := hmeets claim hclaim hown found hfound l hl hlk
              rw [← eq_row hs hl hfound hlk hend]
              exact Or.inr hl
            · exact Or.inl fun l hl hlk => htaken ⟨l, hl, hlk⟩
    · refine ⟨fun _ c hc hown found hfound => absurd hfound (hnot c hc hown found), fun _ => ?_⟩
      exact law_refused (attempt_refused herr)

theorem attempt_intact {l : Label} (h : AllIntact desk) : AllIntact (attempt desk l).2 := by
  rw [attempt]
  cases hm : move desk l with
  | error e => exact h
  | ok desk' => exact move_intact hm h

/-- More evidence and more links, with the claims as they are. -/
theorem Sound.grow (hs : Sound quotes desk) (hintact : AllIntact desk')
    (hevidence : desk.evidence <+: desk'.evidence) (hclaims : desk'.claims = desk.claims)
    (hlinks : desk.links <+: desk'.links)
    (hids : ∀ l ∈ desk'.links, l.claimId < desk.claims.length)
    (hunique : (desk'.links.map linkKey).Nodup) : Sound quotes desk' := by
  have hclaim : ∀ key, claimOf desk' key = claimOf desk key := by
    intro key
    rw [claimOf, claimOf, hclaims]
  constructor
  · exact hintact
  · rw [hclaims]
    exact hids
  · exact hunique
  · intro key claimId h ref href
    rw [hclaim] at h
    obtain ⟨found, hfound⟩ := hs.placed key claimId h ref href
    exact ⟨found, placeOf_mono hevidence hfound⟩
  · intro key claimId h hd
    rw [hclaim] at h
    rw [distinct_mono hevidence (hs.placed key claimId h)] at hd
    exact (hs.stored key claimId h hd).mono hevidence hlinks hunique

theorem sound_withClaim (hs : Sound quotes desk) {claim : Claim}
    (hplaced : ∀ ref ∈ quotes claim.idempotencyKey, ∃ found, placeOf desk ref = some found)
    (happart : Distinct desk (quotes claim.idempotencyKey) →
      Apart desk (quotes claim.idempotencyKey))
    (hintact : AllIntact (withClaim desk claim (quotes claim.idempotencyKey))) :
    Sound quotes (withClaim desk claim (quotes claim.idempotencyKey)) := by
  have hunique : ((withClaim desk claim (quotes claim.idempotencyKey)).links.map linkKey).Nodup :=
    nodup_insertAll hs.unique
  have hclaim : ∀ {key claimId},
      claimOf (withClaim desk claim (quotes claim.idempotencyKey)) key = some claimId →
      claimOf desk key = some claimId ∨
        key = claim.idempotencyKey ∧ claimId = desk.claims.length := by
    intro key claimId h
    rw [claimOf_withClaim] at h
    cases hfound : claimOf desk key with
    | some i =>
      rw [hfound] at h
      exact Or.inl h
    | none =>
      rw [hfound, Option.none_or] at h
      split at h
      · next hkey =>
        cases h
        exact Or.inr ⟨hkey.symm, rfl⟩
      · cases h
  constructor
  · exact hintact
  · intro l hl
    show l.claimId < (desk.claims ++ [claim]).length
    rw [List.length_append, List.length_singleton]
    rcases mem_insertAll hl with hl | hl
    · exact Nat.lt_succ_of_lt (hs.claims l hl)
    · obtain ⟨ref, -, found, -, rfl⟩ := mem_rowsFor.mp hl
      exact Nat.lt_succ_self _
  · exact hunique
  · intro key claimId h ref href
    rcases hclaim h with h | ⟨rfl, rfl⟩
    · exact hs.placed key claimId h ref href
    · exact hplaced ref href
  · intro key claimId h hd
    rcases hclaim h with h | ⟨rfl, rfl⟩
    · exact (hs.stored key claimId h hd).mono List.prefix_rfl prefix_insertAll hunique
    · exact (newClaim_stored hs hplaced hd).mpr (happart hd)

theorem sound_step {l : Label} (hs : Sound quotes desk) (hk : Keyed quotes l)
    (hm : Meets desk l) : Sound quotes (attempt desk l).2 := by
  have hintact := attempt_intact (l := l) hs.intact
  cases l with
  | newStory company =>
    exact hs.grow hintact List.prefix_rfl rfl List.prefix_rfl hs.claims hs.unique
  | capture evidence =>
    exact hs.grow hintact (List.prefix_append _ _) rfl List.prefix_rfl hs.claims hs.unique
  | createClaim noAdvice company key args =>
    have hargs : args.evidence = quotes key := hk
    cases hold : claimOf desk key with
    | some claimId =>
      rw [attempt_create_old hold]
      exact hs
    | none =>
      by_cases hacc : Accepted desk noAdvice company args
      · obtain ⟨claim, rfl, hrun⟩ := attempt_create_new hold hacc
        have hapart := hm hold hacc
        rw [hrun, hargs] at hintact ⊢
        rw [hargs] at hapart
        refine sound_withClaim hs (fun ref href => ?_) hapart hintact
        rw [← hargs] at href
        obtain ⟨found, hfound⟩ := hacc.2.2 ref href
        exact ⟨found, placeOf_locateRef hfound⟩
      · rcases createClaim_new hold with
          ⟨hacc', -⟩ | ⟨-, e, herr⟩
        · exact absurd hacc' hacc
        · rw [attempt_refused (l := .createClaim noAdvice company key args) herr]
          exact hs
  | linkEvidence company claimId ref =>
    rcases linkEvidence_cases company claimId ref desk with
      ⟨claim, found, hclaim, -, hfound, hok⟩ | ⟨-, e, herr⟩
    · rw [attempt_link hfound hok] at hintact ⊢
      refine hs.grow hintact List.prefix_rfl rfl prefix_insertNew (fun l hl => ?_)
        (nodup_insertNew hs.unique)
      rcases mem_insertNew hl with hl | rfl
      · exact hs.claims l hl
      · exact (List.getElem?_eq_some_iff.mp hclaim).1
    · rw [attempt_refused (l := .linkEvidence company claimId ref) herr]
      exact hs

/-- A run of calls keeps every promise iff no two quotes collide. -/
theorem reports_stored_iff (quotes : Str → List EvidenceQuote) (ls : List Label)
    (hk : ∀ l ∈ ls, Keyed quotes l) :
    Throughout Law emptyDesk ls ↔ Throughout Meets emptyDesk ls := by
  have hrun : ∀ {desk : Desk}, Sound quotes desk →
      (Throughout Law desk ls ↔ Throughout Meets desk ls) := by
    induction ls with
    | nil => exact fun _ => Iff.rfl
    | cons l ls ih =>
      intro desk hs
      have hkl := hk l List.mem_cons_self
      rw [Throughout, Throughout, law_iff hs hkl]
      refine and_congr_right fun hl => ih (fun m hm => hk m (List.mem_cons_of_mem l hm)) ?_
      exact sound_step hs hkl hl
  exact hrun sound_empty

/-- A page, a claim without quotes, and two quotes of the page that start together. -/
def twoQuotes : List Label :=
  [.newStory 7, .capture ⟨7, lit "gold rose today"⟩,
    .createClaim false 7 (lit "k") ⟨0, lit "Gold rose", false, []⟩,
    .linkEvidence 7 0 ⟨0, lit "gold rose", .supports⟩,
    .linkEvidence 7 0 ⟨0, lit "gold rose today", .supports⟩]

theorem second_not_stored : ¬ Throughout Law emptyDesk twoQuotes := by
  intro h
  have hlaw := h.2.2.2.2.1
  have hin := (hlaw.reported ⟨0, some ⟨0, 0, lit "gold rose today", 0, 15, .supports⟩,
    [⟨0, 0, lit "gold rose", 0, 9, .supports⟩]⟩ (by decide +kernel) _ (Or.inr rfl)).1
  exact absurd hin (by decide +kernel)

theorem reports_stored_once : Throughout Law emptyDesk (twoQuotes.take 4) ↔
    Throughout Meets emptyDesk (twoQuotes.take 4) := by
  refine reports_stored_iff (fun _ => []) _ fun l hl => ?_
  simp only [twoQuotes, List.take_succ_cons, List.take_zero, List.mem_cons, List.not_mem_nil,
    or_false] at hl
  rcases hl with rfl | rfl | rfl | rfl
  · trivial
  · trivial
  · rfl
  · trivial

end Autora.Quotes
