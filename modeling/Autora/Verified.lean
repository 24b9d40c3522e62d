import Mathlib.Data.List.Dedup
import Autora.ArticleLife

/-! What is approved rests on verified claims, as long as every draft cites a claim
and no check takes a claim away from another draft. -/

namespace Autora.Newsroom

open Systems

variable {rules : WordRules} {d t : Desk} {act : Act} {a b : Article}

def Desk.Verified (d : Desk) (id : Nat) : Prop := ∃ c ∈ d.claims, c.id = id ∧ c.status = .verified

/-- A draft group cites some claims, the same in every language, and all of them verified. -/
structure Desk.RestsOnVerified (d : Desk) (g : Nat) : Prop where
  written : ∃ v ∈ d.versions, v.draftGroup = g
  cites : ∀ v ∈ d.versions, v.draftGroup = g → v.claimIds ≠ []
  same : ∀ v ∈ d.versions, ∀ w ∈ d.versions, v.draftGroup = g → w.draftGroup = g →
    ∀ id ∈ v.claimIds, id ∈ w.claimIds
  verified : ∀ v ∈ d.versions, v.draftGroup = g → ∀ id ∈ v.claimIds, d.Verified id

/-- An article that becomes APPROVED or PUBLISHED in a step rests on verified claims then. -/
def VouchedFor (d t : Desk) : Prop :=
  ∀ b, t.article = some b → b.state = .approved ∨ b.state = .published →
    d.article.map Article.state ≠ some b.state → t.RestsOnVerified b.currentDraftGroup

def Desk.citedBy (d : Desk) (g id : Nat) : Prop :=
  ∃ v ∈ d.versions, v.draftGroup = g ∧ id ∈ v.claimIds

/-- The claim stands in the published version, or in the current draft and another one is
checked. -/
def Desk.restsElsewhere (d : Desk) (a : Article) (v : ArticleVersion) (id : Nat) : Prop :=
  v.draftGroup ≠ a.currentDraftGroup ∧ d.citedBy a.currentDraftGroup id ∨
    ∃ g ∈ a.publishedGroup, d.citedBy g id

instance (g id : Nat) : Decidable (d.citedBy g id) :=
  inferInstanceAs (Decidable (∃ v ∈ d.versions, _))

instance (v : ArticleVersion) (id : Nat) : Decidable (d.restsElsewhere a v id) :=
  inferInstanceAs (Decidable (_ ∨ _))

/-- Every draft cites a claim, a check rejects no claim that another draft rests on, and
nobody takes down or puts back an article with a revision in work. -/
def Desk.checksItsOwn (rules : WordRules) (d : Desk) : Act → Prop
  | .writeDraft _ versions => versions.flatMap LanguageVersion.cited ≠ []
  | .runFactCheck minTrust version => ∀ a ∈ d.article, ∀ v ∈ d.checkedVersions a version,
      ∀ id ∈ v.claimIds, d.restsElsewhere a v id →
        ∀ c ∈ d.claims, c.id = id → d.claimProblems rules minTrust c = []
  | act => d.leavesRevisions act

instance (rules : WordRules) (d : Desk) : DecidablePred (d.checksItsOwn rules) := fun act =>
  match act with
  | .writeDraft .. => inferInstanceAs (Decidable (_ ≠ _))
  | .runFactCheck .. => inferInstanceAs (Decidable (∀ a ∈ d.article, _))
  | .unpublishArticle actor reason =>
    inferInstanceAs (Decidable (d.leavesRevisions (.unpublishArticle actor reason)))
  | .republishArticle actor =>
    inferInstanceAs (Decidable (d.leavesRevisions (.republishArticle actor)))
  | .createClaim .. | .linkEvidence _ | .acceptDraft _ | .requestRevision _ | .chiefDecide ..
  | .approveArticle _ | .rejectArticle .. | .startRevision .. | .returnArticle ..
  | .publishArticle .. | .moveStory _ => isTrue trivial

theorem checksItsOwn_leaves (h : d.checksItsOwn rules act) : d.leavesRevisions act := by
  cases act with
  | writeDraft => trivial
  | runFactCheck => trivial
  | _ => exact h

/-- What the drafts, the checks and the claims of a desk say of one another. -/
structure Grounded (d : Desk) : Prop where
  kept : Kept d
  old : ∀ v ∈ d.versions, v.draftGroup < d.nextId
  oldReports : ∀ r ∈ d.reports, r.draftGroup < d.nextId
  numbered : ∀ v ∈ d.versions, ∀ w ∈ d.versions,
    v.version = w.version ↔ v.draftGroup = w.draftGroup
  cites : ∀ v ∈ d.versions, v.claimIds ≠ []
  same : ∀ v ∈ d.versions, ∀ w ∈ d.versions, v.draftGroup = w.draftGroup →
    ∀ id ∈ v.claimIds, id ∈ w.claimIds
  known : ∀ v ∈ d.versions, ∀ id ∈ v.claimIds, ∃ c ∈ d.claims, c.id = id
  current : ∀ a, d.article = some a → ∃ v ∈ d.versions, v.draftGroup = a.currentDraftGroup
  published : ∀ a g, d.article = some a → a.publishedGroup = some g →
    (∃ v ∈ d.versions, v.draftGroup = g) ∧ ∀ id, d.citedBy g id → d.Verified id
  vouched : ∀ a, d.article = some a → d.factCheckPassed a = true →
    ∀ id, d.citedBy a.currentDraftGroup id → d.Verified id

theorem Grounded.rests (h : Grounded d) {g : Nat} (hw : ∃ v ∈ d.versions, v.draftGroup = g)
    (hv : ∀ id, d.citedBy g id → d.Verified id) : d.RestsOnVerified g where
  written := hw
  cites v hm _ := h.cites v hm
  same v hm w hm' hg hg' := h.same v hm w hm' (hg.trans hg'.symm)
  verified v hm hg id hid := hv id ⟨v, hm, hg, hid⟩

theorem SameRecords.rests {g : Nat} (hrec : SameRecords d t) (h : d.RestsOnVerified g) :
    t.RestsOnVerified g where
  written := by rw [hrec.versions]; exact h.written
  cites := by rw [hrec.versions]; exact h.cites
  same := by rw [hrec.versions]; exact h.same
  verified := by
    rw [hrec.versions]
    intro v hm hg id hid
    obtain ⟨c, hc, hcid⟩ := h.verified v hm hg id hid
    exact ⟨c, hrec.claims ▸ hc, hcid⟩

/-- A step that leaves the records: the article's draft is the one it had or the published
one, and what is published was so before or has passed its check. -/
theorem Grounded.moved (h : Grounded d) (hk : Kept t) (hrec : SameRecords d t)
    (ht : ∀ b, t.article = some b → ∃ a, d.article = some a ∧
      (b.currentDraftGroup = a.currentDraftGroup ∨ a.publishedGroup = some b.currentDraftGroup) ∧
      (b.publishedGroup = a.publishedGroup ∨
        b.publishedGroup = some a.currentDraftGroup ∧ d.factCheckPassed a = true)) :
    Grounded t := by
  obtain ⟨hversions, hreports, hclaims, hnext, -⟩ := hrec
  have hverified : ∀ id, d.Verified id → t.Verified id := by
    intro id hid
    rwa [Desk.Verified, hclaims]
  have hcited : ∀ g id, t.citedBy g id → d.citedBy g id := by
    intro g id hid
    rwa [Desk.citedBy, hversions] at hid
  refine ⟨hk, ?_, ?_, ?_, ?_, ?_, ?_, ?_, ?_, ?_⟩
  · rw [hversions, hnext]
    exact h.old
  · rw [hreports, hnext]
    exact h.oldReports
  · rw [hversions]
    exact h.numbered
  · rw [hversions]
    exact h.cites
  · rw [hversions]
    exact h.same
  · rw [hversions, hclaims]
    exact h.known
  · intro b hb
    obtain ⟨a, ha, hcur, -⟩ := ht b hb
    rw [hversions]
    rcases hcur with hcur | hcur
    · rw [hcur]
      exact h.current a ha
    · exact (h.published a _ ha hcur).1
  · intro b g hb hg
    obtain ⟨a, ha, -, hpub⟩ := ht b hb
    rw [hversions]
    rcases hpub with hpub | ⟨hpub, hpassed⟩
    · have hold := h.published a g ha (hpub ▸ hg)
      exact ⟨hold.1, fun id hid => hverified id (hold.2 id (hcited g id hid))⟩
    · obtain rfl : a.currentDraftGroup = g := Option.some.inj (hpub.symm.trans hg)
      exact ⟨h.current a ha,
        fun id hid => hverified id (h.vouched a ha hpassed id (hcited _ id hid))⟩
  · intro b hb hpassed id hid
    obtain ⟨a, ha, hcur, -⟩ := ht b hb
    rcases hcur with hcur | hcur
    · rw [hcur] at hid
      have hold : d.factCheckPassed a = true := by
        rwa [Desk.factCheckPassed, Desk.latestReport, hreports, hcur] at hpassed
      exact hverified id (h.vouched a ha hold id (hcited _ id hid))
    · exact hverified id ((h.published a _ ha hcur).2 id (hcited _ id hid))

theorem Grounded.claimed (h : Grounded d) {text : String} {claimType : ClaimType} :
    Grounded (d.createClaim text claimType) := by
  have hverified : ∀ id, d.Verified id → (d.createClaim text claimType).Verified id := by
    rintro id ⟨c, hc, hid⟩
    exact ⟨c, List.mem_append_left _ hc, hid⟩
  refine ⟨h.kept.still rfl rfl rfl, ?_, ?_, h.numbered, h.cites, h.same, ?_, h.current, ?_, ?_⟩
  · intro v hv
    exact Nat.lt_succ_of_lt (h.old v hv)
  · intro r hr
    exact Nat.lt_succ_of_lt (h.oldReports r hr)
  · intro v hv id hid
    obtain ⟨c, hc, hcid⟩ := h.known v hv id hid
    exact ⟨c, List.mem_append_left _ hc, hcid⟩
  · intro a g ha hg
    have hold := h.published a g ha hg
    exact ⟨hold.1, fun id hid => hverified id (hold.2 id hid)⟩
  · intro a ha hpassed id hid
    exact hverified id (h.vouched a ha hpassed id hid)

theorem checkDraft_cites {versions : List LanguageVersion} {story : StoryState}
    {s : Option ArticleState} {policy : LanguagePolicy} {claims : List Claim} {revising : Bool}
    (h : checkDraft rules versions story s policy claims revising = []) :
    (∀ v ∈ versions, ∀ id ∈ v.cited, ∃ c ∈ claims, c.id = id) ∧
      ∀ v ∈ versions, ∀ w ∈ versions, ∀ id ∈ v.cited, id ∈ w.cited := by
  simp only [checkDraft, List.append_eq_nil_iff] at h
  obtain ⟨⟨-, hclaims⟩, hsame⟩ := h
  constructor
  · intro v hv id hid
    have hnil := List.flatMap_eq_nil_iff.mp hclaims id
      (List.mem_dedup.mpr (List.mem_flatMap.mpr ⟨v, hv, hid⟩))
    simp only [claimIssues] at hnil
    split at hnil
    · cases hnil
    · next c hc =>
      exact ⟨c, List.mem_of_find?_eq_some hc, by simpa using List.find?_some hc⟩
  · cases versions with
    | nil => intro v hv; cases hv
    | cons reference others =>
      have hof : ∀ other ∈ others, ∀ id, id ∈ reference.cited ↔ id ∈ other.cited := by
        intro other ho id
        have hnil := List.flatMap_eq_nil_iff.mp hsame other ho
        simp only at hnil
        split at hnil
        · cases hnil
        · next hnone =>
          obtain ⟨href, hother⟩ := not_or.mp hnone
          have href := List.filter_eq_nil_iff.mp (Classical.not_not.mp href)
          have hother := List.filter_eq_nil_iff.mp (Classical.not_not.mp hother)
          constructor
          · intro hid
            by_contra hno
            exact href id hid (decide_eq_true hno)
          · intro hid
            by_contra hno
            exact hother id hid (decide_eq_true hno)
      have hall : ∀ v ∈ reference :: others, ∀ id, id ∈ reference.cited ↔ id ∈ v.cited := by
        intro v hv id
        rcases List.mem_cons.mp hv with rfl | hv
        · exact Iff.rfl
        · exact hof v hv id
      intro v hv w hw id hid
      exact (hall w hw id).mp ((hall v hv id).mpr hid)

theorem le_foldr_max {l : List Nat} {n : Nat} (h : n ∈ l) : n ≤ l.foldr max 0 := by
  induction l with
  | nil => cases h
  | cons m l ih =>
    show n ≤ max m (l.foldr max 0)
    rcases List.mem_cons.mp h with rfl | h
    · omega
    · have := ih h
      omega

theorem mem_writtenVersions {policy : LanguagePolicy} {versions : List LanguageVersion}
    {x : ArticleVersion} (hx : x ∈ d.writtenVersions policy versions) :
    x.draftGroup = d.nextId ∧ (∀ v ∈ d.versions, v.version < x.version) ∧
      (∃ v ∈ versions, x.claimIds = v.cited) ∧
      x.version = (d.versions.map ArticleVersion.version).foldr max 0 + 1 := by
  obtain ⟨v, hv, rfl⟩ := List.mem_map.mp hx
  refine ⟨rfl, ?_, ⟨v, ?_, rfl⟩, rfl⟩
  · intro w hw
    exact Nat.lt_succ_of_le (le_foldr_max (List.mem_map_of_mem hw))
  · rcases List.mem_append.mp hv with hv | hv <;> exact (List.mem_filter.mp hv).1

theorem writtenVersions_ne_nil {policy : LanguagePolicy} {versions : List LanguageVersion}
    (h : versions ≠ []) : ∃ x, x ∈ d.writtenVersions policy versions := by
  obtain ⟨v, hv⟩ := List.exists_mem_of_ne_nil versions h
  refine ⟨_, List.mem_map_of_mem (a := v) ?_⟩
  by_cases hp : v.lang = policy.primary
  · exact List.mem_append_left _ (List.mem_filter.mpr ⟨hv, decide_eq_true hp⟩)
  · exact List.mem_append_right _ (List.mem_filter.mpr ⟨hv, decide_eq_true hp⟩)

/-- A new draft: its group is new, so no report speaks of it yet. -/
theorem Grounded.written (h : Grounded d) {policy : LanguagePolicy}
    {versions : List LanguageVersion} (hcites : versions.flatMap LanguageVersion.cited ≠ [])
    (hk : Kept t) (hwrite : d.writeDraft rules policy versions = .ok t)
    (ht : ∀ b, t.article = some b → b.currentDraftGroup = d.nextId ∧
      ∀ g, b.publishedGroup = some g → ∃ a, d.article = some a ∧ a.publishedGroup = some g) :
    Grounded t := by
  simp only [Desk.writeDraft] at hwrite
  split at hwrite
  · cases hwrite
  next hok =>
  have ht' := (Except.ok.inj hwrite).symm
  have hversions : t.versions = d.versions ++ d.writtenVersions policy versions := by rw [ht']
  have hreports : t.reports = d.reports := by rw [ht']
  have hclaims : t.claims = d.claims := by rw [ht']
  have hnext : t.nextId = d.nextId + 1 := by rw [ht']
  obtain ⟨hne, hrest⟩ := not_or.mp hok
  have hissues := (List.append_eq_nil_iff.mp (Classical.not_not.mp (not_or.mp hrest).2)).1
  obtain ⟨hknown, hsame⟩ := checkDraft_cites hissues
  have hfull : ∀ v ∈ versions, v.cited ≠ [] := by
    intro v hv hnil
    obtain ⟨id, hid⟩ := List.exists_mem_of_ne_nil _ hcites
    obtain ⟨w, hw, hid⟩ := List.mem_flatMap.mp hid
    have := hsame w hw v hv id hid
    rw [hnil] at this
    cases this
  have hnew : ∀ v ∈ d.versions, ∀ x ∈ d.writtenVersions policy versions,
      v.draftGroup ≠ x.draftGroup ∧ v.version ≠ x.version := by
    intro v hv x hx
    obtain ⟨hg, hlt, -⟩ := mem_writtenVersions hx
    have hold := h.old v hv
    exact ⟨by omega, Nat.ne_of_lt (hlt v hv)⟩
  have hcited : ∀ g, g ≠ d.nextId → ∀ id, t.citedBy g id → d.citedBy g id := by
    rintro g hg id ⟨v, hv, hvg, hid⟩
    rw [hversions] at hv
    rcases List.mem_append.mp hv with hv | hv
    · exact ⟨v, hv, hvg, hid⟩
    · exact absurd (hvg.symm.trans (mem_writtenVersions hv).1) hg
  refine ⟨hk, ?_, ?_, ?_, ?_, ?_, ?_, ?_, ?_, ?_⟩
  · intro v hv
    rw [hversions] at hv
    rw [hnext]
    rcases List.mem_append.mp hv with hv | hv
    · exact Nat.lt_succ_of_lt (h.old v hv)
    · rw [(mem_writtenVersions hv).1]
      exact Nat.lt_succ_self _
  · intro r hr
    rw [hreports] at hr
    rw [hnext]
    exact Nat.lt_succ_of_lt (h.oldReports r hr)
  · intro v hv w hw
    rw [hversions] at hv hw
    rcases List.mem_append.mp hv with hv | hv <;> rcases List.mem_append.mp hw with hw | hw
    · exact h.numbered v hv w hw
    · exact ⟨fun he => absurd he (hnew v hv w hw).2, fun he => absurd he (hnew v hv w hw).1⟩
    · exact ⟨fun he => absurd he.symm (hnew w hw v hv).2,
        fun he => absurd he.symm (hnew w hw v hv).1⟩
    · obtain ⟨hvg, -, -, hvn⟩ := mem_writtenVersions hv
      obtain ⟨hwg, -, -, hwn⟩ := mem_writtenVersions hw
      exact ⟨fun _ => hvg.trans hwg.symm, fun _ => hvn.trans hwn.symm⟩
  · intro v hv
    rw [hversions] at hv
    rcases List.mem_append.mp hv with hv | hv
    · exact h.cites v hv
    · obtain ⟨-, -, ⟨x, hx, hids⟩, -⟩ := mem_writtenVersions hv
      rw [hids]
      exact hfull x hx
  · intro v hv w hw hg
    rw [hversions] at hv hw
    rcases List.mem_append.mp hv with hv | hv <;> rcases List.mem_append.mp hw with hw | hw
    · exact h.same v hv w hw hg
    · exact absurd hg (hnew v hv w hw).1
    · exact absurd hg.symm (hnew w hw v hv).1
    · obtain ⟨-, -, ⟨x, hx, hxids⟩, -⟩ := mem_writtenVersions hv
      obtain ⟨-, -, ⟨y, hy, hyids⟩, -⟩ := mem_writtenVersions hw
      rw [hxids, hyids]
      exact hsame x hx y hy
  · intro v hv id hid
    rw [hversions] at hv
    rw [hclaims]
    rcases List.mem_append.mp hv with hv | hv
    · exact h.known v hv id hid
    · obtain ⟨-, -, ⟨x, hx, hids⟩, -⟩ := mem_writtenVersions hv
      exact hknown x hx id (hids ▸ hid)
  · intro b hb
    obtain ⟨x, hx⟩ := @writtenVersions_ne_nil d policy _ hne
    refine ⟨x, ?_, ?_⟩
    · rw [hversions]
      exact List.mem_append_right _ hx
    · rw [(mem_writtenVersions hx).1, (ht b hb).1]
  · intro b g hb hg
    obtain ⟨a, ha, hag⟩ := (ht b hb).2 g hg
    obtain ⟨⟨v, hv, hvg⟩, hold⟩ := h.published a g ha hag
    have hne : g ≠ d.nextId := by
      have := h.old v hv
      omega
    refine ⟨⟨v, by rw [hversions]; exact List.mem_append_left _ hv, hvg⟩, ?_⟩
    intro id hid
    rw [Desk.Verified, hclaims]
    exact hold id (hcited g hne id hid)
  · intro b hb hpassed
    rw [Desk.factCheckPassed, Desk.latestReport, hreports, (ht b hb).1] at hpassed
    have hnone : d.reports.filter (fun r => r.draftGroup = d.nextId) = [] := by
      rw [List.filter_eq_nil_iff]
      intro r hr heq
      have := h.oldReports r hr
      have := of_decide_eq_true heq
      omega
    rw [hnone] at hpassed
    cases hpassed

theorem runFactCheck_eq {minTrust : Rat} {version : Option Nat}
    (h : d.runFactCheck rules minTrust version = .ok t) : ∃ a primary others passed,
      d.article = some a ∧ d.checkedVersions a version = primary :: others ∧
      t = { d with
        claims := d.recheck rules minTrust ((primary :: others).flatMap ArticleVersion.claimIds)
        reports := d.reports ++ [⟨d.nextId, primary.draftGroup, passed⟩]
        nextId := d.nextId + 1 } ∧
      (passed = true → ∀ c ∈ d.claims,
        c.id ∈ (primary :: others).flatMap ArticleVersion.claimIds →
          d.claimProblems rules minTrust c = []) := by
  simp only [Desk.runFactCheck] at h
  split at h
  · cases h
  · next a ha =>
    split at h
    · cases h
    · split at h
      · cases h
      · next primary others hv =>
        refine ⟨a, primary, others, _, ha, hv, (Except.ok.inj h).symm, ?_⟩
        intro hpassed c hc hcited
        obtain ⟨-, hall⟩ := (Bool.and_eq_true _ _).mp hpassed
        have hc := (Bool.or_eq_true _ _).mp (List.all_eq_true.mp hall c hc)
        rcases hc with hc | hc
        · exact absurd hcited (of_decide_eq_true hc)
        · exact of_decide_eq_true hc

theorem recheck_verified {minTrust : Rat} {cited : List Nat} {id : Nat}
    (ht : t.claims = d.recheck rules minTrust cited) (hv : d.Verified id)
    (hpass : id ∈ cited → ∀ c ∈ d.claims, c.id = id → d.claimProblems rules minTrust c = []) :
    t.Verified id := by
  obtain ⟨c, hc, hcid, hstatus⟩ := hv
  by_cases hcited : c.id ∈ cited
  · refine ⟨{ c with status := .verified }, ?_, hcid, rfl⟩
    rw [ht]
    refine List.mem_map.mpr ⟨c, hc, ?_⟩
    rw [if_pos hcited, if_pos (hpass (hcid ▸ hcited) c hc hcid)]
  · refine ⟨c, ?_, hcid, hstatus⟩
    rw [ht]
    exact List.mem_map.mpr ⟨c, hc, if_neg hcited⟩

theorem recheck_passes {minTrust : Rat} {cited : List Nat} {id : Nat}
    (ht : t.claims = d.recheck rules minTrust cited) (hk : ∃ c ∈ d.claims, c.id = id)
    (hid : id ∈ cited)
    (hpass : ∀ c ∈ d.claims, c.id ∈ cited → d.claimProblems rules minTrust c = []) :
    t.Verified id := by
  obtain ⟨c, hc, hcid⟩ := hk
  have hcited : c.id ∈ cited := hcid ▸ hid
  refine ⟨{ c with status := .verified }, ?_, hcid, rfl⟩
  rw [ht]
  refine List.mem_map.mpr ⟨c, hc, ?_⟩
  rw [if_pos hcited, if_pos (hpass c hc hcited)]

theorem Grounded.checked_group (h : Grounded d) {version : Option Nat} {primary v : ArticleVersion}
    {others : List ArticleVersion} (hv : d.checkedVersions a version = primary :: others)
    (hm : v ∈ d.versions) : v ∈ primary :: others ↔ v.draftGroup = primary.draftGroup := by
  have hp : primary ∈ d.checkedVersions a version := hv ▸ List.mem_cons_self
  rw [← hv]
  cases version with
  | some n =>
    obtain ⟨hpm, hpn⟩ := List.mem_filter.mp hp
    have hpn := of_decide_eq_true hpn
    constructor
    · intro hv'
      have hvn := of_decide_eq_true (List.mem_filter.mp hv').2
      exact (h.numbered v hm primary hpm).mp (hvn.trans hpn.symm)
    · intro hg
      have hvn := (h.numbered v hm primary hpm).mpr hg
      exact List.mem_filter.mpr ⟨hm, decide_eq_true (hvn.trans hpn)⟩
  | none =>
    have hpg := of_decide_eq_true (List.mem_filter.mp hp).2
    constructor
    · intro hv'
      exact (of_decide_eq_true (List.mem_filter.mp hv').2).trans hpg.symm
    · intro hg
      exact List.mem_filter.mpr ⟨hm, decide_eq_true (hg.trans hpg)⟩

theorem latestReport_snoc {r : FactCheckReport} (ht : t.reports = d.reports ++ [r]) :
    t.latestReport a = if r.draftGroup = a.currentDraftGroup then some r else d.latestReport a := by
  rw [Desk.latestReport, ht, List.filter_append]
  by_cases hr : r.draftGroup = a.currentDraftGroup
  · have hone : [r].filter (fun r => decide (r.draftGroup = a.currentDraftGroup)) = [r] := by
      simp only [List.filter_cons, hr, decide_true, if_true, List.filter_nil]
    rw [if_pos hr, hone, List.getLast?_append]
    rfl
  · have hnone : [r].filter (fun r => decide (r.draftGroup = a.currentDraftGroup)) = [] := by
      simp only [List.filter_cons, hr, decide_false, Bool.false_eq_true, if_false, List.filter_nil]
    rw [if_neg hr, hnone, List.append_nil, Desk.latestReport]

theorem Grounded.checked (h : Grounded d) {minTrust : Rat} {version : Option Nat}
    (hact : d.checksItsOwn rules (.runFactCheck minTrust version))
    (hcheck : d.runFactCheck rules minTrust version = .ok t) : Grounded t := by
  obtain ⟨a, primary, others, passed, ha, hv, ht, hpass⟩ := runFactCheck_eq hcheck
  have hversions : t.versions = d.versions := by rw [ht]
  have hclaims : t.claims = d.recheck rules minTrust
      ((primary :: others).flatMap ArticleVersion.claimIds) := by rw [ht]
  have hreports : t.reports = d.reports ++ [⟨d.nextId, primary.draftGroup, passed⟩] := by rw [ht]
  have harticle : t.article = some a := by rw [ht, ← ha]
  have hnext : t.nextId = d.nextId + 1 := by rw [ht]
  have hprimary : primary ∈ d.checkedVersions a version := hv ▸ List.mem_cons_self
  have hmem : ∀ v ∈ primary :: others, v ∈ d.versions := by
    intro v hv'
    rw [← hv] at hv'
    cases version with
    | some n => exact (List.mem_filter.mp hv').1
    | none => exact (List.mem_filter.mp hv').1
  -- what another draft rests on has no problem when it is checked
  have helse : ∀ v ∈ primary :: others, ∀ id ∈ v.claimIds, d.restsElsewhere a v id →
      ∀ c ∈ d.claims, c.id = id → d.claimProblems rules minTrust c = [] :=
    fun v hv' => hact a ha v (hv ▸ hv')
  have hstays : ∀ id, d.Verified id →
      (∀ v ∈ primary :: others, id ∈ v.claimIds → d.restsElsewhere a v id) → t.Verified id := by
    intro id hid hrests
    apply recheck_verified hclaims hid
    intro hcited
    obtain ⟨v, hv', hidv⟩ := List.mem_flatMap.mp hcited
    exact helse v hv' id hidv (hrests v hv' hidv)
  refine ⟨h.kept.still (by rw [harticle, ha]) (by rw [ht]) (by rw [ht]), ?_, ?_, ?_, ?_, ?_, ?_, ?_, ?_, ?_⟩
  · rw [hversions, hnext]
    exact fun v hv' => Nat.lt_succ_of_lt (h.old v hv')
  · intro r hr
    rw [hreports] at hr
    rw [hnext]
    rcases List.mem_append.mp hr with hr | hr
    · exact Nat.lt_succ_of_lt (h.oldReports r hr)
    · rw [List.mem_singleton.mp hr]
      exact Nat.lt_succ_of_lt (h.old primary (hmem primary List.mem_cons_self))
  · rw [hversions]
    exact h.numbered
  · rw [hversions]
    exact h.cites
  · rw [hversions]
    exact h.same
  · intro v hv' id hid
    rw [hversions] at hv'
    obtain ⟨c, hc, hcid⟩ := h.known v hv' id hid
    rw [hclaims]
    refine ⟨_, List.mem_map_of_mem hc, ?_⟩
    split
    · exact hcid
    · exact hcid
  · intro b hb
    rw [hversions]
    exact h.current b (ha.trans (harticle.symm.trans hb))
  · intro b g hb hg
    obtain rfl : a = b := Option.some.inj (harticle.symm.trans hb)
    have hold := h.published a g ha hg
    rw [hversions]
    refine ⟨hold.1, ?_⟩
    intro id hid
    rw [Desk.citedBy, hversions] at hid
    exact hstays id (hold.2 id hid) fun v _ _ => .inr ⟨g, hg, hid⟩
  · intro b hb hpassed id hid
    obtain rfl : a = b := Option.some.inj (harticle.symm.trans hb)
    rw [Desk.citedBy, hversions] at hid
    rw [Desk.factCheckPassed, latestReport_snoc hreports] at hpassed
    by_cases hg : primary.draftGroup = a.currentDraftGroup
    · rw [if_pos hg] at hpassed
      have hpassed : passed = true := hpassed
      obtain ⟨v, hvm, hvg, hidv⟩ := hid
      have hvc : v ∈ primary :: others := (h.checked_group hv hvm).mpr (hvg.trans hg.symm)
      exact recheck_passes hclaims (h.known v hvm id hidv)
        (List.mem_flatMap.mpr ⟨v, hvc, hidv⟩) (hpass hpassed)
    · rw [if_neg hg] at hpassed
      apply hstays id (h.vouched a ha hpassed id hid)
      intro v hv' _
      refine .inl ⟨?_, hid⟩
      rw [(h.checked_group hv (hmem v hv')).mp hv']
      exact hg

theorem Change.grounded (h : Change rules d act t) (hd : Grounded d)
    (hact : d.checksItsOwn rules act) : Grounded t := by
  have hk : Kept t := h.kept hd.kept (checksItsOwn_leaves hact)
  have hof : ∀ {a b : Article}, d.article = some a → t.article = some b →
      (b.currentDraftGroup = a.currentDraftGroup ∨ a.publishedGroup = some b.currentDraftGroup) →
      (b.publishedGroup = a.publishedGroup ∨
        b.publishedGroup = some a.currentDraftGroup ∧ d.factCheckPassed a = true) →
      ∀ b, t.article = some b → ∃ a, d.article = some a ∧
        (b.currentDraftGroup = a.currentDraftGroup ∨
          a.publishedGroup = some b.currentDraftGroup) ∧
        (b.publishedGroup = a.publishedGroup ∨
          b.publishedGroup = some a.currentDraftGroup ∧ d.factCheckPassed a = true) := by
    intro a b ha hb hcur hpub b' hb'
    obtain rfl : b = b' := Option.some.inj (hb.symm.trans hb')
    exact ⟨a, ha, hcur, hpub⟩
  cases h with
  | still h _ _ hrec =>
    apply hd.moved hk hrec
    intro b hb
    exact ⟨b, h ▸ hb, .inl rfl, .inl rfl⟩
  | claimed => exact hd.claimed
  | moved =>
    exact ⟨hk, hd.old, hd.oldReports, hd.numbered, hd.cites, hd.same, hd.known, hd.current,
      hd.published, hd.vouched⟩
  | checked h _ _ _ hcheck => exact hd.checked hact hcheck
  | created hnone h _ _ _ hwrite =>
    apply hd.written hact hk hwrite
    intro b hb
    obtain rfl := Option.some.inj (h.symm.trans hb)
    exact ⟨rfl, fun g hg => by cases hg⟩
  | drafted a ha hs h _ _ _ hwrite =>
    apply hd.written hact hk hwrite
    intro b hb
    obtain rfl := Option.some.inj (h.symm.trans hb)
    exact ⟨rfl, fun g hg => ⟨a, ha, hg⟩⟩
  | turned a s n ha hs h _ _ hrec => exact hd.moved hk hrec (hof ha h (.inl rfl) (.inl rfl))
  | approved a ha _ h _ _ hrec => exact hd.moved hk hrec (hof ha h (.inl rfl) (.inl rfl))
  | dropped a g ha hg h _ _ hrec => exact hd.moved hk hrec (hof ha h (.inr hg) (.inl rfl))
  | revised a ha h _ _ hrec => exact hd.moved hk hrec (hof ha h (.inl rfl) (.inl rfl))
  | takenDown a ha _ h _ _ hrec => exact hd.moved hk hrec (hof ha h (.inl rfl) (.inl rfl))
  | putBack a ha _ h _ _ hrec => exact hd.moved hk hrec (hof ha h (.inl rfl) (.inl rfl))
  | published a ha _ hpassed h _ _ _ hrec =>
    exact hd.moved hk hrec (hof ha h (.inl rfl) (.inr ⟨rfl, hpassed⟩))

theorem Change.vouchedFor (h : Change rules d act t) (hd : Grounded d)
    (hact : d.leavesRevisions act) : VouchedFor d t := by
  intro b hb hs hnew
  have hsame : t.article = d.article → t.RestsOnVerified b.currentDraftGroup := by
    intro heq
    rw [← heq, hb] at hnew
    exact absurd rfl hnew
  -- the step comes from an approval or a publication, or goes back to what was published
  have hpassed : ∀ a, d.article = some a → d.factCheckPassed a = true →
      d.RestsOnVerified a.currentDraftGroup :=
    fun a ha hp => hd.rests (hd.current a ha) (hd.vouched a ha hp)
  have hpublished : ∀ a g, d.article = some a → a.publishedGroup = some g →
      d.RestsOnVerified g :=
    fun a g ha hg => hd.rests (hd.published a g ha hg).1 (hd.published a g ha hg).2
  cases h with
  | still h => exact hsame h
  | claimed => exact hsame rfl
  | moved => exact hsame rfl
  | checked h => exact hsame h
  | created _ h =>
    obtain rfl := Option.some.inj (h.symm.trans hb)
    simp at hs
  | drafted a ha hdraft h =>
    obtain rfl := Option.some.inj (h.symm.trans hb)
    simp [hdraft] at hs
  | turned a s n ha hturn h =>
    obtain rfl := Option.some.inj (h.symm.trans hb)
    rcases hturn with rfl | rfl | rfl <;> simp at hs
  | approved a ha hp h _ _ hrec =>
    obtain rfl := Option.some.inj (h.symm.trans hb)
    exact hrec.rests (hpassed a ha hp)
  | dropped a g ha hg h _ _ hrec =>
    obtain rfl := Option.some.inj (h.symm.trans hb)
    exact hrec.rests (hpublished a g ha hg)
  | revised a ha h =>
    obtain rfl := Option.some.inj (h.symm.trans hb)
    simp at hs
  | takenDown a ha _ h =>
    obtain rfl := Option.some.inj (h.symm.trans hb)
    simp at hs
  | putBack a ha hmove h _ _ hrec =>
    obtain rfl := Option.some.inj (h.symm.trans hb)
    have harchived := putBack_archived hmove (hact a ha).1 (hact a ha).2
    exact hrec.rests (hpublished a _ ha (hd.kept.archived a ha harchived).2)
  | published a ha _ hp h _ _ _ hrec =>
    obtain rfl := Option.some.inj (h.symm.trans hb)
    exact hrec.rests (hpassed a ha hp)

theorem blankDesk_grounded : Grounded blankDesk := by
  refine ⟨blankDesk_kept, ?_, ?_, ?_, ?_, ?_, ?_, ?_, ?_, ?_⟩ <;> intro x <;> intros <;>
    contradiction

theorem reach_grounded (h : (newsdesk rules).Reach (Desk.checksItsOwn rules) d) : Grounded d := by
  refine h.invariant ?_ ?_
  · intro d hd
    rw [hd]
    exact blankDesk_grounded
  · intro d act t hd hact hs
    rw [← hs]
    exact run_change.grounded hd hact

/-- In every run in which the drafts cite claims, no check rejects a claim of another draft and
nobody takes down or puts back an article with a revision in work, whatever becomes approved
or published rests on verified claims. -/
theorem approved_rests_on_verified (rules : WordRules) (d : Desk)
    (h : (newsdesk rules).Reach (Desk.checksItsOwn rules) d) (act : Act)
    (hact : d.checksItsOwn rules act) : VouchedFor d (d.run rules act) :=
  run_change.vouchedFor (reach_grounded h) (checksItsOwn_leaves hact)

/-! A fact that is quoted, a second draft that cites it again, and a contradiction found
after the second draft was checked. -/

def supporting : QuoteFacts := ⟨1, 7, "The rate was cut.", .supports, true, 1, "source:1"⟩

def contradicting : QuoteFacts := ⟨1, 8, "The rate was not cut.", .contradicts, true, 1, "source:2"⟩

def checkedTwice : List Act :=
  [.createClaim "The rate was cut." .fact, .linkEvidence supporting,
    .writeDraft english (oneBlock "The rate was cut."),
    .writeDraft english (oneBlock "The rate was cut again."), .runFactCheck (1/2) none]

theorem rejected_claim_approved : ¬ ∀ (rules : WordRules) (d : Desk),
    (newsdesk rules).Reach anyStep d → ∀ act, VouchedFor d (d.run rules act) := by
  intro h
  have hrun : (System.follow anyStep (fun d act => some (d.run plainRules act)) blankDesk
      (checkedTwice ++ [.acceptDraft 4, .linkEvidence contradicting,
        .runFactCheck (1/2) (some 1)])).map
      (fun d => (d.article, (d.run plainRules (.approveArticle .allow)).article,
        (d.run plainRules (.approveArticle .allow)).claims)) =
      some (some ⟨.inReview, 3, none, true, 0⟩, some ⟨.approved, 3, none, true, 0⟩,
        [⟨1, "The rate was cut.", .fact, .rejected⟩]) := by decide +kernel
  obtain ⟨d, hd, heq⟩ := Option.map_eq_some_iff.mp hrun
  obtain ⟨hbefore, hrest⟩ := Prod.mk.inj heq
  obtain ⟨hafter, hclaims⟩ := Prod.mk.inj hrest
  have hreach : (newsdesk plainRules).Reach anyStep d :=
    ⟨blankDesk, rfl, System.follow_path (fun _ _ _ h => Option.some.inj h) hd⟩
  have hvouched := h plainRules d hreach (.approveArticle .allow) _ hafter (.inl rfl)
    (by rw [hbefore]; decide)
  obtain ⟨v, hv, hvg⟩ := hvouched.written
  obtain ⟨id, hid⟩ := List.exists_mem_of_ne_nil _ (hvouched.cites v hv hvg)
  obtain ⟨c, hc, -, hstatus⟩ := hvouched.verified v hv hvg id hid
  rw [hclaims, List.mem_singleton] at hc
  rw [hc] at hstatus
  cases hstatus

theorem approved_rests_on_verified_twice : ∃ d : Desk,
    (d.run plainRules (.approveArticle .allow)).article = some ⟨.approved, 3, none, true, 0⟩ ∧
      VouchedFor d (d.run plainRules (.approveArticle .allow)) := by
  have hrun : (System.follow (Desk.checksItsOwn plainRules)
      (fun d act => some (d.run plainRules act)) blankDesk
      (checkedTwice ++ [.acceptDraft 4, .runFactCheck (1/2) (some 1)])).map
      (fun d => (d.run plainRules (.approveArticle .allow)).article) =
      some (some ⟨.approved, 3, none, true, 0⟩) := by decide +kernel
  obtain ⟨d, hd, heq⟩ := Option.map_eq_some_iff.mp hrun
  exact ⟨d, heq, approved_rests_on_verified plainRules d
    ⟨blankDesk, rfl, System.follow_path (fun _ _ _ h => Option.some.inj h) hd⟩ _ trivial⟩

end Autora.Newsroom
