import Autora.Articles

/-! What the commands of a desk do to its article, and what holds of the article
after any of them. -/

namespace Autora.Newsroom

open Systems

inductive Act where
  | createClaim (text : String) (claimType : ClaimType)
  | linkEvidence (q : QuoteFacts)
  | writeDraft (policy : LanguagePolicy) (versions : List LanguageVersion)
  | runFactCheck (minTrust : Rat) (version : Option Nat)
  | acceptDraft (report : Nat)
  | requestRevision (issuesCount : Nat)
  | chiefDecide (verdict : Verdict) (issuesCount : Nat) (reason : String)
  | approveArticle (decision : Decision)
  | rejectArticle (actor : Actor) (delegated : Bool)
  | startRevision (actor : Actor) (reason : String)
  | returnArticle (actor : Actor) (reason : String)
  | unpublishArticle (actor : Actor) (reason : String)
  | republishArticle (actor : Actor)
  | publishArticle (policy : LanguagePolicy) (decision : Decision)
  | moveStory (target : StoryState)
  deriving DecidableEq, Repr

variable {rules : WordRules} {d t : Desk} {act : Act} {a a' : Article}

def Desk.exec (rules : WordRules) (d : Desk) : Act → Except Refusal Desk
  | .createClaim text claimType => .ok (d.createClaim text claimType)
  | .linkEvidence q => d.linkEvidence q
  | .writeDraft policy versions => d.writeDraft rules policy versions
  | .runFactCheck minTrust version => d.runFactCheck rules minTrust version
  | .acceptDraft report => d.acceptDraft report
  | .requestRevision issuesCount => d.requestRevision issuesCount
  | .chiefDecide verdict issuesCount reason => d.chiefDecide verdict issuesCount reason
  | .approveArticle decision => d.approveArticle decision
  | .rejectArticle actor delegated => d.rejectArticle actor delegated
  | .startRevision actor reason => d.startRevision actor reason
  | .returnArticle actor reason => d.returnArticle actor reason
  | .unpublishArticle actor reason => d.unpublishArticle actor reason
  | .republishArticle actor => d.republishArticle actor
  | .publishArticle policy decision => d.publishArticle policy decision
  | .moveStory target =>
    if storyFsm.can d.story target then .ok { d with story := target }
    else .error (.illegal (storyFsm.illegal d.story target))

/-- A refused call changes nothing: its transaction is rolled back. -/
def Desk.run (rules : WordRules) (d : Desk) (act : Act) : Desk :=
  match d.exec rules act with
  | .ok t => t
  | .error _ => d

def blankDesk : Desk := ⟨.discovered, none, [], [], [], [], [], 1, [], none⟩

def newsdesk (rules : WordRules) : System Desk Act where
  init d := d = blankDesk
  step d act t := d.run rules act = t

/-- The drafts, their checks and the claims are what they were, and the story has at most
been dropped or published. -/
structure SameRecords (d t : Desk) : Prop where
  versions : t.versions = d.versions
  reports : t.reports = d.reports
  claims : t.claims = d.claims
  nextId : t.nextId = d.nextId
  story : t.story = d.story ∨ t.story = d.story.drop ∨ t.story = .published

/-- What a command may do to the article. -/
inductive Change (rules : WordRules) (d : Desk) : Act → Desk → Prop
  | still {act : Act} {t : Desk} (h : t.article = d.article)
    (happroved : t.approvedGroups = d.approvedGroups) (hrev : t.revising = d.revising)
    (hrec : SameRecords d t) : Change rules d act t
  | claimed {text : String} {claimType : ClaimType} :
    Change rules d (.createClaim text claimType) (d.createClaim text claimType)
  | moved {target : StoryState} :
    Change rules d (.moveStory target) { d with story := target }
  | checked {minTrust : Rat} {version : Option Nat} {t : Desk} (h : t.article = d.article)
    (happroved : t.approvedGroups = d.approvedGroups) (hrev : t.revising = d.revising)
    (hstory : t.story = d.story) (hcheck : d.runFactCheck rules minTrust version = .ok t) :
    Change rules d (.runFactCheck minTrust version) t
  | created {policy : LanguagePolicy} {versions : List LanguageVersion} {t : Desk}
    (hd : d.article = none) (h : t.article = some ⟨.draft, d.nextId, none, true, 0⟩)
    (happroved : t.approvedGroups = d.approvedGroups) (hrev : t.revising = d.revising)
    (hstory : t.story = d.story) (hwrite : d.writeDraft rules policy versions = .ok t) :
    Change rules d (.writeDraft policy versions) t
  | drafted {policy : LanguagePolicy} {versions : List LanguageVersion} {t : Desk} (a : Article)
    (hd : d.article = some a) (hs : a.state = .draft)
    (h : t.article = some { a with currentDraftGroup := d.nextId })
    (happroved : t.approvedGroups = d.approvedGroups) (hrev : t.revising = d.revising)
    (hstory : t.story = d.story) (hwrite : d.writeDraft rules policy versions = .ok t) :
    Change rules d (.writeDraft policy versions) t
  | turned {act : Act} {t : Desk} (a : Article) (s : ArticleState) (n : Nat)
    (hd : d.article = some a) (hs : s = .draft ∨ s = .inReview ∨ s = .rejected)
    (h : t.article = some { a with state := s, revisionCount := n })
    (happroved : t.approvedGroups = d.approvedGroups) (hrev : t.revising = d.revising)
    (hrec : SameRecords d t) : Change rules d act t
  | approved {act : Act} {t : Desk} (a : Article) (hd : d.article = some a)
    (hpassed : d.factCheckPassed a = true) (h : t.article = some { a with state := .approved })
    (happroved : t.approvedGroups = d.approvedGroups ++ [a.currentDraftGroup])
    (hrev : t.revising = d.revising) (hrec : SameRecords d t) : Change rules d act t
  | dropped {act : Act} {t : Desk} (a : Article) (g : Nat) (hd : d.article = some a)
    (hg : a.publishedGroup = some g)
    (h : t.article = some { a with
      state := if a.listed = true then .published else .archived
      currentDraftGroup := g })
    (happroved : t.approvedGroups = d.approvedGroups) (hrev : t.revising = none)
    (hrec : SameRecords d t) : Change rules d act t
  | revised {act : Act} {t : Desk} (a : Article) (hd : d.article = some a)
    (h : t.article = some { a with state := .draft, revisionCount := 0 })
    (happroved : t.approvedGroups = d.approvedGroups)
    (hrev : t.revising = some (a.publishedGroup, a.listed)) (hrec : SameRecords d t) :
    Change rules d act t
  | takenDown {actor : Actor} {reason : String} {t : Desk} (a : Article)
    (hd : d.article = some a) (hmove : a.transition .archived = .ok { a with state := .archived })
    (h : t.article = some { a with state := .archived, listed := false })
    (happroved : t.approvedGroups = d.approvedGroups) (hrev : t.revising = d.revising)
    (hrec : SameRecords d t) : Change rules d (.unpublishArticle actor reason) t
  | putBack {actor : Actor} {t : Desk} (a : Article) (hd : d.article = some a)
    (hmove : a.transition .published = .ok { a with state := .published })
    (h : t.article = some { a with state := .published, listed := true })
    (happroved : t.approvedGroups = d.approvedGroups) (hrev : t.revising = d.revising)
    (hrec : SameRecords d t) : Change rules d (.republishArticle actor) t
  | published {policy : LanguagePolicy} {decision : Decision} {t : Desk} (a : Article)
    (hd : d.article = some a) (hs : a.state = .approved) (hpassed : d.factCheckPassed a = true)
    (h : t.article = some { a with
      state := .published, publishedGroup := some a.currentDraftGroup, listed := true })
    (happroved : t.approvedGroups = d.approvedGroups) (hrev : t.revising = none)
    (hstory : t.story = .published) (hrec : SameRecords d t) :
    Change rules d (.publishArticle policy decision) t

theorem transition_eq {target : ArticleState} (h : a.transition target = .ok a') :
    a' = { a with state := target } := by
  simp only [Article.transition] at h
  split at h
  · cases h
  · split at h
    · split at h
      · cases h
      · exact (Except.ok.inj h).symm
    · exact (Except.ok.inj h).symm

theorem transition_can {target : ArticleState} (h : a.transition target = .ok a') :
    articleFsm.can a.state target = true := by
  simp only [Article.transition] at h
  split at h
  · cases h
  · next hcan => exact eq_true_of_ne_false hcan

theorem transitionAlong_eq {path : List ArticleState} (h : a.transitionAlong path = .ok a') :
    a' = { a with state := (path.getLast?).getD a.state } := by
  induction path generalizing a with
  | nil => exact (Except.ok.inj h).symm
  | cons hop hops ih =>
    simp only [Article.transitionAlong] at h
    split at h
    · next b hb =>
      rw [ih h, transition_eq hb]
      cases hops with
      | nil => rfl
      | cons hop' hops => simp only [List.getLast?_cons, Option.getD_some]
    · cases h

/-- A search that finds a path ends at the state it was to reach. -/
theorem rejected_path {s : ArticleState} {path : List ArticleState}
    (h : articleFsm.shortestPath articleStates s .rejected = .ok path) :
    (path.getLast?).getD s = .rejected := by
  have hall : (articleFsm.shortestPath articleStates s .rejected).toOption.all
      (fun path => (path.getLast?).getD s = .rejected) = true := by cases s <;> decide
  rw [h] at hall
  exact of_decide_eq_true hall

theorem transitionVia_rejected (h : a.transitionVia .rejected = .ok a') :
    a' = { a with state := .rejected } := by
  simp only [Article.transitionVia] at h
  split at h
  · next path hpath => rw [transitionAlong_eq h, rejected_path hpath]
  · cases h

theorem dropRevision_eq (h : d.dropRevision a = .ok t) : ∃ g, a.publishedGroup = some g ∧
    t = { d.withArticle { a with
      state := if a.listed = true then .published else .archived
      currentDraftGroup := g } with revising := none } := by
  simp only [Desk.dropRevision] at h
  split at h
  · cases h
  · next a' g hmove hg =>
    cases h
    rw [transition_eq hmove]
    exact ⟨g, hg, rfl⟩
  · cases h

theorem reject_change {verdict : Verdict} {byChief : Bool} (hd : d.article = some a)
    (h : (d.review a verdict byChief).reject a = .ok t) : Change rules d act t := by
  simp only [Desk.reject] at h
  split at h
  · obtain ⟨g, hg, rfl⟩ := dropRevision_eq h
    exact .dropped a g hd hg rfl rfl rfl ⟨rfl, rfl, rfl, rfl, .inl rfl⟩
  · split at h
    · cases h
    · next a' hmove =>
      cases h
      rw [transitionVia_rejected hmove]
      exact .turned a .rejected a.revisionCount hd (.inr (.inr rfl)) rfl rfl rfl
            ⟨rfl, rfl, rfl, rfl, .inr (.inl rfl)⟩

theorem reviewed_eq (h : d.reviewed = .ok a) : d.article = some a := by
  simp only [Desk.reviewed] at h
  split at h
  · cases h
  · next hd =>
    split at h
    · cases h
      exact hd
    · cases h

theorem theArticle_eq (h : d.theArticle = .ok a) : d.article = some a := by
  simp only [Desk.theArticle] at h
  split at h
  · cases h
  · next hd =>
    cases h
    exact hd

theorem checkDraft_draft {versions : List LanguageVersion} {story : StoryState}
    {s : ArticleState} {policy : LanguagePolicy} {claims : List Claim} {revising : Bool}
    (h : checkDraft rules versions story (some s) policy claims revising = []) : s = .draft := by
  simp only [checkDraft, List.append_eq_nil_iff] at h
  have hs := h.1.1.1.1.2
  cases s with
  | draft => rfl
  | inReview => cases hs
  | approved => cases hs
  | published => cases hs
  | archived => cases hs
  | rejected => cases hs

theorem writeDraft_change {policy : LanguagePolicy} {versions : List LanguageVersion}
    (h : d.writeDraft rules policy versions = .ok t) :
    Change rules d (.writeDraft policy versions) t := by
  have hwrite := h
  simp only [Desk.writeDraft] at h
  split at h
  · cases h
  · next hok =>
    have ht := (Except.ok.inj h).symm
    cases hd : d.article with
    | none =>
      exact .created hd (by rw [ht]; simp only [hd]) (by rw [ht]) (by rw [ht]) (by rw [ht]) hwrite
    | some a =>
      have hissues := Classical.not_not.mp (not_or.mp (not_or.mp hok).2).2
      rw [hd] at hissues
      exact .drafted a hd (checkDraft_draft (List.append_eq_nil_iff.mp hissues).1)
        (by rw [ht]; simp only [hd]) (by rw [ht]) (by rw [ht]) (by rw [ht]) hwrite

theorem runFactCheck_change {minTrust : Rat} {version : Option Nat}
    (h : d.runFactCheck rules minTrust version = .ok t) :
    Change rules d (.runFactCheck minTrust version) t := by
  have hcheck := h
  simp only [Desk.runFactCheck] at h
  split at h
  · cases h
  · split at h
    · cases h
    · split at h
      · cases h
      · cases h
        exact .checked rfl rfl rfl rfl hcheck

theorem acceptDraft_change {report : Nat} (h : d.acceptDraft report = .ok t) :
    Change rules d act t := by
  simp only [Desk.acceptDraft] at h
  split at h
  · cases h
  · next a ha =>
    split at h
    · split at h
      · cases h
        exact .still rfl rfl rfl ⟨rfl, rfl, rfl, rfl, .inl rfl⟩
      · cases h
    · split at h
      · cases h
      · split at h
        · cases h
        · split at h
          · cases h
          · split at h
            · cases h
            · split at h
              · cases h
              · next a' hmove =>
                cases h
                rw [transition_eq hmove]
                exact .turned a .inReview a.revisionCount (reviewed_eq ha) (.inr (.inl rfl)) rfl
                  rfl rfl ⟨rfl, rfl, rfl, rfl, .inl rfl⟩

theorem requestRevision_change {issuesCount : Nat} (h : d.requestRevision issuesCount = .ok t) :
    Change rules d act t := by
  simp only [Desk.requestRevision] at h
  split at h
  · cases h
  · split at h
    · cases h
    · next a ha =>
      have hd := reviewed_eq ha
      split at h
      · split at h
        · cases h
          exact .still rfl rfl rfl ⟨rfl, rfl, rfl, rfl, .inl rfl⟩
        · cases h
      · split at h
        · cases h
        · next hs =>
          split at h
          · exact reject_change hd h
          · cases h
            have hdraft : a.state = .draft := Classical.not_not.mp hs
            exact .turned a .draft (a.revisionCount + 1) hd (.inl rfl) (by rw [← hdraft]; rfl) rfl
              rfl ⟨rfl, rfl, rfl, rfl, .inl rfl⟩

theorem chiefDecide_change {verdict : Verdict} {issuesCount : Nat} {reason : String}
    (h : d.chiefDecide verdict issuesCount reason = .ok t) : Change rules d act t := by
  simp only [Desk.chiefDecide] at h
  split at h
  · cases h
  · split at h
    · cases h
    · split at h
      · cases h
      · next a ha =>
        have hd := reviewed_eq ha
        split at h
        · split at h
          · cases h
            exact .still rfl rfl rfl ⟨rfl, rfl, rfl, rfl, .inl rfl⟩
          · cases h
        · split at h
          · cases h
          · split at h
            · cases h
              exact .still rfl rfl rfl ⟨rfl, rfl, rfl, rfl, .inl rfl⟩
            · exact reject_change hd h
            · split at h
              · exact reject_change hd h
              · split at h
                · cases h
                · next a' hmove =>
                  cases h
                  rw [transition_eq hmove]
                  exact .turned a .draft (a.revisionCount + 1) hd (.inl rfl) rfl rfl rfl
                    ⟨rfl, rfl, rfl, rfl, .inl rfl⟩

theorem approveArticle_change {decision : Decision} (h : d.approveArticle decision = .ok t) :
    Change rules d act t := by
  simp only [Desk.approveArticle] at h
  split at h
  · cases h
  · next a ha =>
    split at h
    · cases h
      exact .still rfl rfl rfl ⟨rfl, rfl, rfl, rfl, .inl rfl⟩
    · split at h
      · cases h
      · split at h
        · cases h
        · next hpassed =>
          split at h
          · cases h
          · cases h
          · next a' _ hmove =>
            cases h
            rw [transition_eq hmove]
            exact .approved a (theArticle_eq ha) (eq_true_of_ne_false hpassed) rfl rfl rfl
              ⟨rfl, rfl, rfl, rfl, .inl rfl⟩

theorem rejectArticle_change {actor : Actor} {delegated : Bool}
    (h : d.rejectArticle actor delegated = .ok t) : Change rules d act t := by
  simp only [Desk.rejectArticle] at h
  split at h
  · cases h
  · split at h
    · cases h
    · next a ha =>
      have hd := theArticle_eq ha
      split at h
      · obtain ⟨g, hg, rfl⟩ := dropRevision_eq h
        exact .dropped a g hd hg rfl rfl rfl ⟨rfl, rfl, rfl, rfl, .inl rfl⟩
      · split at h
        · cases h
        · next a' hmove =>
          cases h
          rw [transition_eq hmove]
          exact .turned a .rejected a.revisionCount hd (.inr (.inr rfl)) rfl rfl rfl
            ⟨rfl, rfl, rfl, rfl, .inr (.inl rfl)⟩

theorem bind_ok {α β : Type} {x : Except Refusal α} {f : α → Except Refusal β} {b : β}
    (h : (x >>= f) = .ok b) : ∃ a, x = .ok a ∧ f a = .ok b := by
  cases x with
  | error e => cases h
  | ok a => exact ⟨a, rfl, h⟩

theorem startRevision_change {actor : Actor} {reason : String}
    (h : d.startRevision actor reason = .ok t) : Change rules d act t := by
  obtain ⟨_, _, h⟩ := bind_ok h
  obtain ⟨_, _, h⟩ := bind_ok h
  obtain ⟨a, ha, h⟩ := bind_ok h
  split at h
  · cases h
  · obtain ⟨a', hmove, h⟩ := bind_ok h
    cases h
    rw [transition_eq hmove]
    exact .revised a (theArticle_eq ha) rfl rfl rfl ⟨rfl, rfl, rfl, rfl, .inl rfl⟩

theorem returnArticle_change {actor : Actor} {reason : String}
    (h : d.returnArticle actor reason = .ok t) : Change rules d act t := by
  obtain ⟨_, _, h⟩ := bind_ok h
  obtain ⟨_, _, h⟩ := bind_ok h
  obtain ⟨a, ha, h⟩ := bind_ok h
  obtain ⟨a', hmove, h⟩ := bind_ok h
  cases h
  rw [transition_eq hmove]
  exact .turned a .draft a.revisionCount (theArticle_eq ha) (.inl rfl) rfl rfl rfl
    ⟨rfl, rfl, rfl, rfl, .inl rfl⟩

theorem unpublishArticle_change {actor : Actor} {reason : String}
    (h : d.unpublishArticle actor reason = .ok t) :
    Change rules d (.unpublishArticle actor reason) t := by
  obtain ⟨_, _, h⟩ := bind_ok h
  obtain ⟨_, _, h⟩ := bind_ok h
  obtain ⟨a, ha, h⟩ := bind_ok h
  obtain ⟨a', hmove, h⟩ := bind_ok h
  cases h
  obtain rfl := transition_eq hmove
  exact .takenDown a (theArticle_eq ha) hmove rfl rfl rfl ⟨rfl, rfl, rfl, rfl, .inl rfl⟩

theorem republishArticle_change {actor : Actor} (h : d.republishArticle actor = .ok t) :
    Change rules d (.republishArticle actor) t := by
  obtain ⟨_, _, h⟩ := bind_ok h
  obtain ⟨a, ha, h⟩ := bind_ok h
  obtain ⟨a', hmove, h⟩ := bind_ok h
  cases h
  obtain rfl := transition_eq hmove
  exact .putBack a (theArticle_eq ha) hmove rfl rfl rfl ⟨rfl, rfl, rfl, rfl, .inl rfl⟩

theorem storyTransitionVia_eq {s s' target : StoryState} (h : s.transitionVia target = .ok s') :
    s' = target := by
  simp only [StoryState.transitionVia] at h
  split at h
  · exact (Except.ok.inj h).symm
  · cases h

theorem publishArticle_change {policy : LanguagePolicy} {decision : Decision}
    (h : d.publishArticle policy decision = .ok t) :
    Change rules d (.publishArticle policy decision) t := by
  simp only [Desk.publishArticle] at h
  split at h
  · cases h
  · next a ha =>
    split at h
    · cases h
      exact .still rfl rfl rfl ⟨rfl, rfl, rfl, rfl, .inl rfl⟩
    · split at h
      · cases h
      · next hs =>
        split at h
        · cases h
        · next hpassed =>
          split at h
          · cases h
          · split at h
            · cases h
            · split at h
              · cases h
              · cases h
              · next a' story hmove hstory =>
                cases h
                rw [transition_eq hmove, storyTransitionVia_eq hstory]
                exact .published a (theArticle_eq ha) (Classical.not_not.mp hs)
                  (eq_true_of_ne_false hpassed) rfl rfl rfl rfl
                  ⟨rfl, rfl, rfl, rfl, .inr (.inr rfl)⟩

theorem exec_change (h : d.exec rules act = .ok t) : Change rules d act t := by
  cases act with
  | createClaim =>
    cases h
    exact .claimed
  | linkEvidence q =>
    simp only [Desk.exec, Desk.linkEvidence] at h
    split at h
    · cases h
      exact .still rfl rfl rfl ⟨rfl, rfl, rfl, rfl, .inl rfl⟩
    · cases h
  | writeDraft => exact writeDraft_change h
  | runFactCheck => exact runFactCheck_change h
  | acceptDraft => exact acceptDraft_change h
  | requestRevision => exact requestRevision_change h
  | chiefDecide => exact chiefDecide_change h
  | approveArticle => exact approveArticle_change h
  | rejectArticle => exact rejectArticle_change h
  | startRevision => exact startRevision_change h
  | returnArticle => exact returnArticle_change h
  | unpublishArticle => exact unpublishArticle_change h
  | republishArticle => exact republishArticle_change h
  | publishArticle => exact publishArticle_change h
  | moveStory target =>
    simp only [Desk.exec] at h
    split at h
    · cases h
      exact .moved
    · cases h

theorem run_change : Change rules d act (d.run rules act) := by
  simp only [Desk.run]
  split
  · next t h => exact exec_change h
  · exact .still rfl rfl rfl ⟨rfl, rfl, rfl, rfl, .inl rfl⟩

/-- A revision that was started or handed back, and is neither published nor dropped yet. -/
def Article.inRevision (a : Article) : Bool :=
  a.publishedGroup.isSome && (a.state = .draft || a.state = .inReview)

/-- Nobody takes down or puts back an article whose revision is in work, and nobody puts
back one that is approved and waits to be published. -/
def Desk.leavesRevisions (d : Desk) : Act → Prop
  | .unpublishArticle .. => ∀ a ∈ d.article, a.inRevision = false
  | .republishArticle _ => ∀ a ∈ d.article, a.inRevision = false ∧ a.state ≠ .approved
  | _ => True

instance (d : Desk) : DecidablePred d.leavesRevisions := fun act =>
  match act with
  | .unpublishArticle .. => inferInstanceAs (Decidable (∀ a ∈ d.article, a.inRevision = false))
  | .republishArticle _ =>
    inferInstanceAs (Decidable (∀ a ∈ d.article, a.inRevision = false ∧ a.state ≠ .approved))
  | .createClaim .. | .linkEvidence _ | .writeDraft .. | .runFactCheck .. | .acceptDraft _
  | .requestRevision _ | .chiefDecide .. | .approveArticle _ | .rejectArticle ..
  | .startRevision .. | .returnArticle .. | .publishArticle .. | .moveStory _ => isTrue trivial

def Desk.publishedGroup (d : Desk) : Option Nat := d.article.bind Article.publishedGroup

/-- The published version of an article, whatever happens to its drafts. -/
structure PublishedKept (d : Desk) : Prop where
  published : ∀ a, d.article = some a → a.state = .published →
    a.listed = true ∧ a.publishedGroup = some a.currentDraftGroup
  archived : ∀ a, d.article = some a → a.state = .archived →
    a.listed = false ∧ a.publishedGroup = some a.currentDraftGroup
  revision : ∀ a g listed, d.article = some a → d.revising = some (g, listed) →
    a.publishedGroup = g ∧ a.listed = listed

/-- A step that changes what is published is the publication of the group last approved. -/
def PublishesApproved (d : Desk) (act : Act) (t : Desk) : Prop :=
  t.publishedGroup ≠ d.publishedGroup → ∃ policy decision a,
    act = .publishArticle policy decision ∧ d.article = some a ∧ a.state = .approved ∧
      t.publishedGroup = some a.currentDraftGroup ∧
      d.approvedGroups.getLast? = some a.currentDraftGroup

structure Kept (d : Desk) : Prop extends PublishedKept d where
  approved : ∀ a, d.article = some a → a.state = .approved →
    d.approvedGroups.getLast? = some a.currentDraftGroup
  settled : ∀ a, d.article = some a → a.state = .published ∨ a.state = .archived →
    d.revising = none
  unwritten : d.article = none → d.revising = none

/-- Out of review without an approval goes a revision only. -/
theorem transition_guarded {target : ArticleState} (h : a.transition target = .ok a')
    (hback : backWithoutApproval a.state target = true) : a.publishedGroup.isSome = true := by
  simp only [Article.transition] at h
  split at h
  · cases h
  · split at h
    · cases h
    · next hrev =>
      simp only [Article.aRevision] at hrev
      split at hrev
      · cases hrev
      · next hne => exact Option.isSome_iff_ne_none.mpr hne

theorem takenDown_published (h : a.transition .archived = .ok a') (hrev : a.inRevision = false) :
    a.state = .published := by
  have hcan := transition_can h
  have hguard := transition_guarded h
  simp only [Article.inRevision] at hrev
  cases hs : a.state with
  | published => rfl
  | draft =>
    rw [hs] at hguard hrev
    rw [hguard rfl] at hrev
    cases hrev
  | inReview =>
    rw [hs] at hguard hrev
    rw [hguard rfl] at hrev
    cases hrev
  | approved => rw [hs] at hcan; cases hcan
  | archived => rw [hs] at hcan; cases hcan
  | rejected => rw [hs] at hcan; cases hcan

theorem putBack_archived (h : a.transition .published = .ok a') (hrev : a.inRevision = false)
    (happroved : a.state ≠ .approved) : a.state = .archived := by
  have hcan := transition_can h
  have hguard := transition_guarded h
  simp only [Article.inRevision] at hrev
  cases hs : a.state with
  | archived => rfl
  | draft =>
    rw [hs] at hguard hrev
    rw [hguard rfl] at hrev
    cases hrev
  | inReview =>
    rw [hs] at hguard hrev
    rw [hguard rfl] at hrev
    cases hrev
  | approved => exact absurd hs happroved
  | published => rw [hs] at hcan; cases hcan
  | rejected => rw [hs] at hcan; cases hcan

/-- Nothing of an article that is in work is claimed but what its revision set out from. -/
theorem Kept.inWork {b : Article} (ht : t.article = some b)
    (hs : b.state = .draft ∨ b.state = .inReview ∨ b.state = .rejected)
    (hrev : ∀ g listed, t.revising = some (g, listed) → b.publishedGroup = g ∧ b.listed = listed) :
    Kept t := by
  have hb : ∀ x, t.article = some x → x = b := fun x hx => Option.some.inj (hx.symm.trans ht)
  refine ⟨⟨?_, ?_, ?_⟩, ?_, ?_, ?_⟩
  · intro x hx hp
    rw [hb x hx] at hp
    rw [hp] at hs
    simp at hs
  · intro x hx hp
    rw [hb x hx] at hp
    rw [hp] at hs
    simp at hs
  · intro x g listed hx hr
    rw [hb x hx]
    exact hrev g listed hr
  · intro x hx hp
    rw [hb x hx] at hp
    rw [hp] at hs
    simp at hs
  · intro x hx hp
    rw [hb x hx] at hp
    rcases hp with hp | hp <;> rw [hp] at hs <;> simp at hs
  · intro hx
    rw [hx] at ht
    cases ht

/-- An article that is out, or down, with the draft it was published with. -/
theorem Kept.out {b : Article} (ht : t.article = some b)
    (hs : b.state = .published ∧ b.listed = true ∨ b.state = .archived ∧ b.listed = false)
    (hg : b.publishedGroup = some b.currentDraftGroup) (hrev : t.revising = none) : Kept t := by
  have hb : ∀ x, t.article = some x → x = b := fun x hx => Option.some.inj (hx.symm.trans ht)
  refine ⟨⟨?_, ?_, ?_⟩, ?_, fun _ _ _ => hrev, fun _ => hrev⟩
  · intro x hx hp
    rw [hb x hx] at hp ⊢
    rcases hs with hs | hs
    · exact ⟨hs.2, hg⟩
    · rw [hp] at hs
      exact absurd hs.1 (by decide)
  · intro x hx hp
    rw [hb x hx] at hp ⊢
    rcases hs with hs | hs
    · rw [hp] at hs
      exact absurd hs.1 (by decide)
    · exact ⟨hs.2, hg⟩
  · intro x g listed _ hr
    rw [hrev] at hr
    cases hr
  · intro x hx hp
    rw [hb x hx] at hp
    rcases hs with hs | hs <;> rw [hp] at hs <;> exact absurd hs.1 (by decide)

theorem Kept.still (hk : Kept d) (h : t.article = d.article)
    (happroved : t.approvedGroups = d.approvedGroups) (hrev : t.revising = d.revising) :
    Kept t := by
  refine ⟨⟨?_, ?_, ?_⟩, ?_, ?_, ?_⟩ <;> rw [h]
  · exact hk.published
  · exact hk.archived
  · rw [hrev]
    exact hk.revision
  · rw [happroved]
    exact hk.approved
  · rw [hrev]
    exact hk.settled
  · rw [hrev]
    exact hk.unwritten

theorem Change.kept (h : Change rules d act t) (hk : Kept d) (hact : d.leavesRevisions act) :
    Kept t := by
  cases h with
  | still h happroved hrev => exact hk.still h happroved hrev
  | claimed => exact hk.still rfl rfl rfl
  | moved => exact hk.still rfl rfl rfl
  | checked h happroved hrev => exact hk.still h happroved hrev
  | created hd h happroved hrev =>
    apply Kept.inWork h (.inl rfl)
    intro g' listed hr
    rw [hrev, hk.unwritten hd] at hr
    cases hr
  | drafted a hd hs h happroved hrev =>
    apply Kept.inWork h (.inl hs)
    intro g' listed hr
    exact hk.revision a g' listed hd (hrev ▸ hr)
  | turned a s n hd hs h happroved hrev =>
    apply Kept.inWork h hs
    intro g' listed hr
    exact hk.revision a g' listed hd (hrev ▸ hr)
  | approved a hd _ h happroved hrev =>
    have hb : ∀ x, t.article = some x → x = { a with state := .approved } :=
      fun x hx => Option.some.inj (hx.symm.trans h)
    refine ⟨⟨?_, ?_, ?_⟩, ?_, ?_, ?_⟩
    · intro x hx hp
      rw [hb x hx] at hp
      cases hp
    · intro x hx hp
      rw [hb x hx] at hp
      cases hp
    · intro x g listed hx hr
      rw [hb x hx]
      exact hk.revision a g listed hd (hrev ▸ hr)
    · intro x hx _
      rw [hb x hx, happroved, List.getLast?_append]
      rfl
    · intro x hx hp
      rw [hb x hx] at hp
      rcases hp with hp | hp <;> cases hp
    · intro hx
      rw [hx] at h
      cases h
  | dropped a g hd hg h happroved hrev =>
    apply Kept.out h ?_ hg hrev
    cases hl : a.listed with
    | true => exact .inl ⟨rfl, rfl⟩
    | false => exact .inr ⟨rfl, rfl⟩
  | revised a hd h happroved hrev =>
    apply Kept.inWork h (.inl rfl)
    intro g' listed hr
    rw [hrev] at hr
    cases hr
    exact ⟨rfl, rfl⟩
  | takenDown a hd hmove h happroved hrev =>
    have hs := takenDown_published hmove (hact a hd)
    apply Kept.out h (.inr ⟨rfl, rfl⟩) (hk.published a hd hs).2
    rw [hrev, hk.settled a hd (.inl hs)]
  | putBack a hd hmove h happroved hrev =>
    have hs := putBack_archived hmove (hact a hd).1 (hact a hd).2
    apply Kept.out h (.inl ⟨rfl, rfl⟩) (hk.archived a hd hs).2
    rw [hrev, hk.settled a hd (.inr hs)]
  | published a hd hs _ h happroved hrev => exact Kept.out h (.inl ⟨rfl, rfl⟩) rfl hrev

theorem Change.publishesApproved (h : Change rules d act t) (hk : Kept d) :
    PublishesApproved d act t := by
  intro hne
  have hof : ∀ {b c : Article}, t.article = some b → d.article = some c →
      b.publishedGroup = c.publishedGroup → t.publishedGroup = d.publishedGroup := by
    intro b c ht hd hbc
    rw [Desk.publishedGroup, Desk.publishedGroup, ht, hd]
    exact hbc
  have hsame : t.article = d.article → t.publishedGroup = d.publishedGroup := by
    intro h
    rw [Desk.publishedGroup, Desk.publishedGroup, h]
  cases h with
  | still h => exact absurd (hsame h) hne
  | claimed => exact absurd rfl hne
  | moved => exact absurd rfl hne
  | checked h => exact absurd (hsame h) hne
  | created hd h =>
    exact absurd (by rw [Desk.publishedGroup, Desk.publishedGroup, h, hd]; rfl) hne
  | drafted a hd hs h => exact absurd (hof h hd rfl) hne
  | turned a s n hd hs h => exact absurd (hof h hd rfl) hne
  | approved a hd _ h => exact absurd (hof h hd rfl) hne
  | dropped a g hd hg h => exact absurd (hof h hd rfl) hne
  | revised a hd h => exact absurd (hof h hd rfl) hne
  | takenDown a hd hmove h => exact absurd (hof h hd rfl) hne
  | putBack a hd hmove h => exact absurd (hof h hd rfl) hne
  | published a hd hs _ h =>
    refine ⟨_, _, a, rfl, hd, hs, ?_, hk.approved a hd hs⟩
    rw [Desk.publishedGroup, h]
    rfl

theorem blankDesk_kept : Kept blankDesk := by
  refine ⟨⟨?_, ?_, ?_⟩, ?_, ?_, fun _ => rfl⟩ <;> intro x <;> intros <;> contradiction

theorem reach_kept (h : (newsdesk rules).Reach Desk.leavesRevisions d) : Kept d := by
  refine h.invariant ?_ ?_
  · intro d hd
    rw [hd]
    exact blankDesk_kept
  · intro d act t hk hact hs
    rw [← hs]
    exact run_change.kept hk hact

/-- In every run in which nobody takes down or puts back an article while a revision of it is
in work, what is published stays as it was approved, and what the site shows does not depend
on a draft. -/
theorem published_as_approved (rules : WordRules) (d : Desk)
    (h : (newsdesk rules).Reach Desk.leavesRevisions d) :
    PublishedKept d ∧ ∀ act, PublishesApproved d act (d.run rules act) := by
  have hk := reach_kept h
  exact ⟨hk.toPublishedKept, fun act => run_change.publishesApproved hk⟩

/-! An article in English that states one opinion, and its revision. -/

def plainRules : WordRules := ⟨fun _ => [], fun _ => [], fun _ _ => []⟩

def english : LanguagePolicy := ⟨"en", ["en"], false⟩

def oneBlock (text : String) : List LanguageVersion :=
  [⟨"en", "Rates", none, [⟨.paragraph, text, [1]⟩]⟩]

/-- Up to the approval of the first draft. -/
def approvedOnce : List Act :=
  [.createClaim "Rates may fall." .opinion, .writeDraft english (oneBlock "Rates may fall."),
    .runFactCheck 0 none, .acceptDraft 3, .chiefDecide .accept 0 "", .approveArticle .allow]

/-- Up to the publication, from a story in production. -/
def publishedOnce : List Act :=
  [.moveStory .selected, .moveStory .inProduction] ++ approvedOnce ++
    [.publishArticle english .allow]

def revisedOnce : List Act :=
  publishedOnce ++ [.unpublishArticle .human "a wrong figure",
    .startRevision .human "correct the figure",
    .writeDraft english (oneBlock "Rates may rise.")]

theorem unapproved_draft_shown : ¬ ∀ (rules : WordRules) (d : Desk),
    (newsdesk rules).Reach anyStep d →
      PublishedKept d ∧ ∀ act, PublishesApproved d act (d.run rules act) := by
  intro h
  have hrun : (System.follow anyStep (fun d act => some (d.run plainRules act)) blankDesk
      (revisedOnce ++ [.republishArticle .human])).map Desk.article =
      some (some ⟨.published, 4, some 2, true, 0⟩) := by decide +kernel
  obtain ⟨d, hd, harticle⟩ := Option.map_eq_some_iff.mp hrun
  have hreach : (newsdesk plainRules).Reach anyStep d :=
    ⟨blankDesk, rfl, System.follow_path (fun _ _ _ h => Option.some.inj h) hd⟩
  have hkept := ((h plainRules d hreach).1.published _ harticle rfl).2
  exact absurd hkept (by decide)

theorem published_as_approved_revised : ∃ d : Desk,
    d.article = some ⟨.published, 4, some 4, true, 0⟩ ∧
      (PublishedKept d ∧ ∀ act, PublishesApproved d act (d.run plainRules act)) := by
  have hrun : (System.follow Desk.leavesRevisions
      (fun d act => some (d.run plainRules act)) blankDesk
      (revisedOnce ++ [.runFactCheck 0 none, .acceptDraft 5, .chiefDecide .accept 0 "",
        .approveArticle .allow, .publishArticle english .allow])).map Desk.article =
      some (some ⟨.published, 4, some 4, true, 0⟩) := by decide +kernel
  obtain ⟨d, hd, harticle⟩ := Option.map_eq_some_iff.mp hrun
  exact ⟨d, harticle, published_as_approved plainRules d
    ⟨blankDesk, rfl, System.follow_path (fun _ _ _ h => Option.some.inj h) hd⟩⟩

end Autora.Newsroom
