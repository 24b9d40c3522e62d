import Autora.ArticleRuns

/-! What the verdicts of the editor, the editor-in-chief and a person do to the article. -/

namespace Autora.Newsroom

variable {rules : WordRules} {d d' : Desk} {a : Article}

/-- Rejected, or back to what was published. -/
def Down (a : Article) (d : Desk) : Prop :=
  d.article = some { a with state := .rejected } ∨
    ∃ g, a.publishedGroup = some g ∧ d.article = some { a with
      state := if a.listed = true then .published else .archived
      currentDraftGroup := g }

def InWork (a : Article) : Prop := a.state = .draft ∨ a.state = .inReview

def TurnedDown (d d' : Desk) : Prop := ∃ a, d.article = some a ∧ InWork a ∧ Down a d'

def revisions (d : Desk) : Nat := (d.article.map Article.revisionCount).getD 0

theorem Down.article (h : Down a d) :
    ∃ a', d.article = some a' ∧ a'.revisionCount = a.revisionCount ∧ ¬ InWork a' := by
  rcases h with h | ⟨g, _, h⟩
  · refine ⟨_, h, rfl, ?_⟩
    rintro (hs | hs) <;> cases hs
  · refine ⟨_, h, rfl, ?_⟩
    cases hl : a.listed with
    | true => rintro (hs | hs) <;> cases hs
    | false => rintro (hs | hs) <;> cases hs

theorem Down.turnedDown {verdict : Verdict} (h : Down a d) (hv : verdict ≠ .accept) :
    d.turnedDown verdict = true := by
  rcases h with h | ⟨g, hg, h⟩
  · simp [Desk.turnedDown, h]
  · cases hl : a.listed <;> simp [Desk.turnedDown, h, hg, hv, hl]

theorem reject_down {v : Verdict} {byChief : Bool} (h : (d.review a v byChief).reject a = .ok d') :
    Down a d' := by
  simp only [Desk.reject] at h
  split at h
  · obtain ⟨g, hg, rfl⟩ := dropRevision_eq h
    exact .inr ⟨g, hg, rfl⟩
  · split at h
    · cases h
    · next a' hmove =>
      cases h
      rw [transitionVia_rejected hmove]
      exact .inl rfl

theorem undecided_earlier {byChief : Bool} (h : d.undecided byChief = true)
    (ha : d.article = some a) : d.earlier a byChief = none := by
  rw [Desk.undecided, ha, Option.all_some] at h
  exact Option.isNone_iff_eq_none.mp h

theorem acceptDraft_spec {report : Nat} (hu : d.undecided false = true)
    (h : d.acceptDraft report = .ok d') :
    ∃ a, d.article = some a ∧ a.state = .draft ∧
      d'.article = some { a with state := .inReview } := by
  simp only [Desk.acceptDraft] at h
  cases ha : d.reviewed with
  | error e => simp [ha] at h
  | ok a =>
    have hd := reviewed_eq ha
    simp only [ha, undecided_earlier hu hd] at h
    by_cases hs : a.state = .draft
    · refine ⟨a, hd, hs, ?_⟩
      simp only [hs, ne_eq, not_true, if_false] at h
      split at h
      · cases h
      · split at h
        · cases h
        · split at h
          · cases h
          · split at h
            · cases h
            · next a' hmove =>
              cases h
              rw [transition_eq hmove]
              rfl
    · simp [hs] at h

theorem requestRevision_spec {issuesCount : Nat} (hu : d.undecided false = true)
    (h : d.requestRevision issuesCount = .ok d') :
    ∃ a, d.article = some a ∧ a.state = .draft ∧
      (a.revisionCount < 2 ∧
          d'.article = some { a with revisionCount := a.revisionCount + 1 } ∨
        2 ≤ a.revisionCount ∧ Down a d') := by
  simp only [Desk.requestRevision] at h
  split at h
  · cases h
  cases ha : d.reviewed with
  | error e => simp [ha] at h
  | ok a =>
    have hd := reviewed_eq ha
    simp only [ha, undecided_earlier hu hd] at h
    by_cases hs : a.state = .draft
    · refine ⟨a, hd, hs, ?_⟩
      simp only [hs, ne_eq, not_true, if_false] at h
      by_cases hn : maxRevisions ≤ a.revisionCount
      · rw [if_pos hn] at h
        exact .inr ⟨hn, reject_down h⟩
      · rw [if_neg hn] at h
        cases h
        refine .inl ⟨Nat.lt_of_not_le hn, ?_⟩
        rw [hs]
        rfl
    · simp [hs] at h

theorem chiefDecide_spec {verdict : Verdict} {issuesCount : Nat} {reason : String}
    (hu : d.undecided true = true) (h : d.chiefDecide verdict issuesCount reason = .ok d') :
    ∃ a, d.article = some a ∧ a.state = .inReview ∧
      (verdict = .accept ∧ d'.article = some a ∨ verdict ≠ .accept ∧ Down a d' ∨
        verdict = .revise ∧ a.revisionCount < 2 ∧
          d'.article = some { a with state := .draft, revisionCount := a.revisionCount + 1 }) := by
  simp only [Desk.chiefDecide] at h
  split at h
  · cases h
  split at h
  · cases h
  cases ha : d.reviewed with
  | error e => simp [ha] at h
  | ok a =>
    have hd := reviewed_eq ha
    simp only [ha, undecided_earlier hu hd] at h
    by_cases hs : a.state = .inReview
    · refine ⟨a, hd, hs, ?_⟩
      simp only [hs, ne_eq, not_true, if_false] at h
      cases verdict with
      | accept =>
        cases h
        exact .inl ⟨rfl, hd⟩
      | veto => exact .inr (.inl ⟨by simp, reject_down h⟩)
      | revise =>
        by_cases hn : maxRevisions ≤ a.revisionCount
        · simp only [if_pos hn] at h
          exact .inr (.inl ⟨by simp, reject_down h⟩)
        · simp only [if_neg hn] at h
          split at h
          · cases h
          · next a' hmove =>
            cases h
            rw [transition_eq hmove]
            exact .inr (.inr ⟨rfl, Nat.lt_of_not_le hn, rfl⟩)
    · simp [hs] at h

theorem approveArticle_spec {decision : Decision} (h : d.approveArticle decision = .ok d') :
    ∃ a s, d.article = some a ∧ d'.article = some { a with state := s } ∧
      (s = .approved ∨ s = .published) := by
  simp only [Desk.approveArticle] at h
  cases ha : d.theArticle with
  | error e => simp [ha] at h
  | ok a =>
    have hd := theArticle_eq ha
    simp only [ha] at h
    split at h
    · next hs =>
      cases h
      exact ⟨a, a.state, hd, hd, hs⟩
    split at h
    · cases h
    split at h
    · cases h
    split at h
    · cases h
    · cases h
    · next a' _ hmove =>
      cases h
      rw [transition_eq hmove]
      exact ⟨a, .approved, hd, rfl, .inl rfl⟩

theorem returnArticle_spec {reason : String} (h : d.returnArticle .human reason = .ok d') :
    ∃ a, d.article = some a ∧ d'.article = some { a with state := .draft } := by
  obtain ⟨_, _, h⟩ := bind_ok h
  obtain ⟨_, _, h⟩ := bind_ok h
  obtain ⟨a, ha, h⟩ := bind_ok h
  obtain ⟨a', hmove, h⟩ := bind_ok h
  cases h
  rw [transition_eq hmove]
  exact ⟨a, theArticle_eq ha, rfl⟩

theorem rejectArticle_spec (h : d.rejectArticle .human false = .ok d') :
    ∃ a, d.article = some a ∧ Down a d' := by
  simp only [Desk.rejectArticle] at h
  split at h
  · cases h
  cases ha : d.theArticle with
  | error e => simp [ha] at h
  | ok a =>
    refine ⟨a, theArticle_eq ha, ?_⟩
    simp only [ha] at h
    split at h
    · obtain ⟨g, hg, rfl⟩ := dropRevision_eq h
      exact .inr ⟨g, hg, rfl⟩
    split at h
    · cases h
    · next a' hmove =>
      cases h
      rw [transition_eq hmove]
      exact .inl rfl

theorem publishArticle_spec {policy : LanguagePolicy} {decision : Decision}
    (h : d.publishArticle policy decision = .ok d') :
    ∃ a a', d.article = some a ∧ ¬ InWork a ∧ d'.article = some a' ∧
      a'.revisionCount = a.revisionCount ∧ ¬ InWork a' := by
  simp only [Desk.publishArticle] at h
  cases ha : d.theArticle with
  | error e => simp [ha] at h
  | ok a =>
    have hd := theArticle_eq ha
    simp only [ha] at h
    by_cases hp : a.state = .published
    · rw [if_pos hp] at h
      cases h
      have hn : ¬ InWork a := by rintro (hs | hs) <;> rw [hp] at hs <;> cases hs
      exact ⟨a, a, hd, hn, hd, rfl, hn⟩
    · rw [if_neg hp] at h
      by_cases hs : a.state = .approved
      · simp only [hs, ne_eq, not_true, if_false] at h
        split at h
        · cases h
        split at h
        · cases h
        split at h
        · cases h
        split at h
        · cases h
        · cases h
        · next a' _ hmove _ =>
          cases h
          rw [transition_eq hmove]
          refine ⟨a, _, hd, ?_, rfl, rfl, ?_⟩
          · rintro (hw | hw) <;> rw [hs] at hw <;> cases hw
          · rintro (hw | hw) <;> cases hw
      · simp [hs] at h

theorem writeDraft_spec {policy : LanguagePolicy} {versions : List LanguageVersion}
    (h : d.writeDraft rules policy versions = .ok d') :
    d.article = none ∧ d'.article = some ⟨.draft, d.nextId, none, true, 0⟩ ∨
      ∃ a, d.article = some a ∧ a.state = .draft ∧
        d'.article = some { a with currentDraftGroup := d.nextId } := by
  simp only [Desk.writeDraft] at h
  split at h
  · cases h
  · next hok =>
    have ht := (Except.ok.inj h).symm
    cases hd : d.article with
    | none =>
      left
      rw [ht]
      simp only [hd, and_self]
    | some a =>
      right
      have hissues := Classical.not_not.mp (not_or.mp (not_or.mp hok).2).2
      rw [hd] at hissues
      refine ⟨a, rfl, checkDraft_draft (List.append_eq_nil_iff.mp hissues).1, ?_⟩
      rw [ht]
      simp only [hd]

theorem prepare_spec {act : Act} (h : act.prepares = true) :
    (d.run rules act).article = d.article ∨
    (d.article = none ∧ (d.run rules act).article = some ⟨.draft, d.nextId, none, true, 0⟩) ∨
    ∃ a, d.article = some a ∧ a.state = .draft ∧
      (d.run rules act).article = some { a with currentDraftGroup := d.nextId } := by
  unfold Desk.run
  cases he : d.exec rules act with
  | error e => exact .inl rfl
  | ok u =>
    cases act with
    | createClaim text claimType =>
      cases he
      exact .inl rfl
    | linkEvidence q =>
      simp only [Desk.exec, Desk.linkEvidence] at he
      split at he
      · cases he
        exact .inl rfl
      · cases he
    | writeDraft policy versions => exact .inr (writeDraft_spec he)
    | runFactCheck minTrust version =>
      simp only [Desk.exec, Desk.runFactCheck] at he
      split at he
      · cases he
      split at he
      · cases he
      split at he
      · cases he
      · cases he
        exact .inl rfl
    | _ => cases h

end Autora.Newsroom
