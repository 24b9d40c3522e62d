import Autora.ArticleLife

/-! The workflow runs of a newsroom's stories, and the pass that puts back on the desk
the stories whose production ended without an article. -/

namespace Autora.Newsroom

open Systems

inductive TemplateName where
  | storyToArticle
  | articleRevision
  | unansweredApproval
  deriving DecidableEq, Repr

inductive WorkflowRunState where
  | running
  | succeeded
  | failed
  | cancelled
  deriving DecidableEq, Repr

/-- A run whose params carry the story's id. `published`: its publish step has completed. -/
structure WorkflowRun where
  template : TemplateName
  state : WorkflowRunState
  published : Bool
  deriving DecidableEq, Repr

/-- A story with its desk and its runs, in the order they were started. -/
structure StoryLine where
  desk : Desk
  runs : List WorkflowRun
  deriving DecidableEq, Repr

abbrev Stories := Nat → Option StoryLine

def WorkflowRun.fell (r : WorkflowRun) : Bool := r.state = .failed || r.state = .cancelled

def WorkflowRun.producing (r : WorkflowRun) : Bool :=
  r.template = .storyToArticle && r.state = .running

/-- The condition of the query: some run failed or was cancelled, and no run did not. -/
def StoryLine.stuck (line : StoryLine) : Bool :=
  line.desk.story = .inProduction && line.runs.any WorkflowRun.fell &&
    line.runs.all WorkflowRun.fell

/-- `return_unfinished`, for one story. The transition is a legal one. -/
def StoryLine.returnUnfinished (line : StoryLine) : StoryLine :=
  if line.stuck then { line with desk := { line.desk with story := .selected } } else line

def returnUnfinished (n : Stories) : Stories := fun id => (n id).map StoryLine.returnUnfinished

inductive LineAct where
  | select
  | ignore
  | drop
  | desk (act : Act)
  | startStory
  | startArticleRevision (actor : Actor) (reason : String)
  | delegate
  | publishStep (k : Nat) (policy : LanguagePolicy) (decision : Decision)
  | endRun (k : Nat) (state : WorkflowRunState)
  deriving DecidableEq, Repr

inductive NewsroomAct where
  | discover (id : Nat)
  | line (id : Nat) (act : LineAct)
  | returnUnfinished
  deriving DecidableEq, Repr

namespace StoryLine

variable (line : StoryLine)

def start (template : TemplateName) (desk : Desk) : StoryLine :=
  ⟨desk, line.runs ++ [⟨template, .running, false⟩]⟩

/-- The moves of a story that are neither a production's nor a publication's. -/
def moveStory (target : StoryState) : Option StoryLine :=
  if storyFsm.can line.desk.story target ∧ line.desk.story ≠ .inProduction then
    some { line with desk := { line.desk with story := target } }
  else none

def startStory : Option StoryLine :=
  if line.desk.story = .selected then
    some (line.start .storyToArticle { line.desk with story := .inProduction })
  else none

/-- A revision starts in the project of an earlier run. -/
def startArticleRevision (actor : Actor) (reason : String) : Option StoryLine :=
  match line.desk.startRevision actor reason with
  | .ok desk => if line.runs = [] then none else some (line.start .articleRevision desk)
  | .error _ => none

def delegate : Option StoryLine :=
  if line.desk.article = none then none else some (line.start .unansweredApproval line.desk)

def publishStep (k : Nat) (policy : LanguagePolicy) (decision : Decision) : Option StoryLine :=
  match line.runs[k]?, line.desk.publishArticle policy decision with
  | some r, .ok desk =>
    if r.state = .running ∧ r.template ≠ .unansweredApproval then
      some ⟨desk, line.runs.set k { r with published := true }⟩
    else none
  | _, _ => none

/-- A production or a revision succeeds when all its steps have, the publication among them. -/
def endRun (k : Nat) (state : WorkflowRunState) : Option StoryLine :=
  match line.runs[k]? with
  | some r =>
    if r.state = .running ∧ state ≠ .running ∧
        (state = .succeeded → r.published = true ∨ r.template = .unansweredApproval) then
      some { line with runs := line.runs.set k { r with state := state } }
    else none
  | none => none

def step (rules : WordRules) : LineAct → Option StoryLine
  | .select => line.moveStory .selected
  | .ignore => line.moveStory .ignored
  | .drop =>
    if storyFsm.can line.desk.story .dropped then
      some { line with desk := { line.desk with story := .dropped } }
    else none
  | .desk (.moveStory _) => none
  | .desk act => some { line with desk := line.desk.run rules act }
  | .startStory => line.startStory
  | .startArticleRevision actor reason => line.startArticleRevision actor reason
  | .delegate => line.delegate
  | .publishStep k policy decision => line.publishStep k policy decision
  | .endRun k state => line.endRun k state

end StoryLine

def Stories.step (rules : WordRules) (n : Stories) : NewsroomAct → Option Stories
  | .discover id =>
    if n id = none then some (Function.update n id (some ⟨blankDesk, []⟩)) else none
  | .line id act =>
    match n id with
    | some line => (line.step rules act).map fun l => Function.update n id (some l)
    | none => none
  | .returnUnfinished => some (returnUnfinished n)

def newsroom (rules : WordRules) : System Stories NewsroomAct where
  init n := n = fun _ => none
  step n act t := n.step rules act = some t

/-- Calls of `newsdesk` are as its published articles need them. -/
def Stories.leavesRevisions (n : Stories) : NewsroomAct → Prop
  | .line id (.desk act) => ∀ line ∈ n id, line.desk.leavesRevisions act
  | _ => True

instance (n : Stories) : DecidablePred n.leavesRevisions := fun act =>
  match act with
  | .line id (.desk act) =>
    inferInstanceAs (Decidable (∀ line ∈ n id, line.desk.leavesRevisions act))
  | .discover _ | .returnUnfinished | .line _ .select | .line _ .ignore | .line _ .drop
  | .line _ .startStory | .line _ (.startArticleRevision ..) | .line _ .delegate
  | .line _ (.publishStep ..) | .line _ (.endRun ..) => isTrue trivial

/-- After a pass every story in production has a production run at work, and what was put
back can be written again. -/
structure Unstuck (n t : Stories) : Prop where
  producing : ∀ id line, t id = some line → line.desk.story = .inProduction →
    ∃ r ∈ line.runs, r.producing = true
  again : ∀ id line line', n id = some line → t id = some line' →
    line.desk.story = .inProduction → line'.desk.story = .selected →
    ∀ a, line'.desk.article = some a → a.state = .draft

/-- Every story in production whose production runs have ended is free of an approval that was
delegated and is still being decided, or was decided, and of an article past its draft. -/
def Stories.Unanswered (n : Stories) : Prop :=
  ∀ id line, n id = some line → line.desk.story = .inProduction →
    (∀ r ∈ line.runs, r.producing = false) →
    (∀ r ∈ line.runs, r.template = .unansweredApproval → r.fell = true) ∧
      ∀ a, line.desk.article = some a → a.state = .draft

variable {rules : WordRules} {line l : StoryLine} {n : Stories}

/-- What a story's runs say of it. -/
structure StoryLine.Consistent (line : StoryLine) : Prop where
  kept : Kept line.desk
  out : ∀ a, line.desk.article = some a → a.publishedGroup ≠ none → line.desk.story = .published
  produced : line.desk.story = .inProduction → ∃ r ∈ line.runs, r.template = .storyToArticle
  published : ∀ r ∈ line.runs, r.published = true → line.desk.story = .published
  succeeded : ∀ r ∈ line.runs, r.template = .storyToArticle → r.state = .succeeded →
    line.desk.story = .published
  revised : ∀ r ∈ line.runs, r.template = .articleRevision → line.desk.story = .published

theorem WorkflowRun.fell_iff {r : WorkflowRun} :
    r.fell = true ↔ r.state = .failed ∨ r.state = .cancelled := by
  simp only [WorkflowRun.fell, Bool.or_eq_true, decide_eq_true_eq]

theorem StoryLine.Consistent.run_fell (h : line.Consistent) (hs : line.desk.story = .inProduction)
    {r : WorkflowRun} (hr : r ∈ line.runs) (hidle : r.producing = false) :
    r.template = .unansweredApproval ∨ r.fell = true := by
  have hne : line.desk.story ≠ .published := by
    rw [hs]
    decide
  cases ht : r.template with
  | unansweredApproval => exact .inl rfl
  | articleRevision => exact absurd (h.revised r hr ht) hne
  | storyToArticle =>
    right
    rw [WorkflowRun.fell_iff]
    cases hst : r.state with
    | running => simp [WorkflowRun.producing, ht, hst] at hidle
    | succeeded => exact absurd (h.succeeded r hr ht hst) hne
    | failed => exact .inl rfl
    | cancelled => exact .inr rfl

theorem StoryLine.Consistent.stuck_iff (h : line.Consistent)
    (hs : line.desk.story = .inProduction) :
    line.stuck = true ↔ (∀ r ∈ line.runs, r.producing = false) ∧
      ∀ r ∈ line.runs, r.template = .unansweredApproval → r.fell = true := by
  simp only [StoryLine.stuck, hs, decide_true, Bool.true_and, Bool.and_eq_true, List.any_eq_true,
    List.all_eq_true]
  constructor
  · rintro ⟨-, hall⟩
    refine ⟨?_, fun r hr _ => hall r hr⟩
    intro r hr
    rcases WorkflowRun.fell_iff.mp (hall r hr) with hst | hst <;>
      simp [WorkflowRun.producing, hst]
  · rintro ⟨hidle, hunanswered⟩
    have hall : ∀ r ∈ line.runs, r.fell = true := by
      intro r hr
      rcases h.run_fell hs hr (hidle r hr) with ht | hf
      · exact hunanswered r hr ht
      · exact hf
    obtain ⟨r, hr, _⟩ := h.produced hs
    exact ⟨⟨r, hr, hall r hr⟩, hall⟩

theorem unstuck_iff (h : ∀ id line, n id = some line → line.Consistent) :
    Unstuck n (returnUnfinished n) ↔ n.Unanswered := by
  have hline : ∀ id line, n id = some line →
      returnUnfinished n id = some line.returnUnfinished := by
    intro id line hn
    rw [returnUnfinished, hn]
    rfl
  constructor
  · intro hu id line hn hs hidle
    have hafter := hline id line hn
    have hstuck : line.stuck = true := by
      by_contra hno
      rw [StoryLine.returnUnfinished, if_neg hno] at hafter
      obtain ⟨r, hr, hrun⟩ := hu.producing id line hafter hs
      rw [hidle r hr] at hrun
      cases hrun
    refine ⟨((h id line hn).stuck_iff hs |>.mp hstuck).2, ?_⟩
    rw [StoryLine.returnUnfinished, if_pos hstuck] at hafter
    have hagain := hu.again id line _ hn hafter hs rfl
    exact hagain
  · intro hc
    constructor
    · intro id line' ht hs
      obtain ⟨line, hn, rfl⟩ := Option.map_eq_some_iff.mp ht
      simp only [StoryLine.returnUnfinished] at hs ⊢
      split at hs
      · cases hs
      · next hno =>
        rw [if_neg hno]
        by_contra hnone
        have hidle : ∀ r ∈ line.runs, r.producing = false := by
          intro r hr
          by_contra hrun
          exact hnone ⟨r, hr, eq_true_of_ne_false hrun⟩
        exact hno (((h id line hn).stuck_iff hs).mpr ⟨hidle, (hc id line hn hs hidle).1⟩)
    · intro id line line' hn ht hs hs' a ha
      have hafter := (hline id line hn).symm.trans ht
      obtain rfl := Option.some.inj hafter
      simp only [StoryLine.returnUnfinished] at hs' ha
      split at hs'
      · next hstuck =>
        rw [if_pos hstuck] at ha
        exact (hc id line hn hs ((h id line hn).stuck_iff hs |>.mp hstuck).1).2 a ha
      · rw [hs] at hs'
        cases hs'

theorem drop_inProduction {s : StoryState} : s.drop ≠ .inProduction := by cases s <;> decide

theorem Change.storyMoves {d t : Desk} {act : Act} (h : Change rules d act t)
    (hact : ∀ target, act ≠ .moveStory target) :
    t.story = d.story ∨ t.story = d.story.drop ∨ t.story = .published := by
  cases h with
  | still _ _ _ hrec => exact hrec.story
  | claimed => exact .inl rfl
  | moved => exact absurd rfl (hact _)
  | checked _ _ _ hstory => exact .inl hstory
  | created _ _ _ _ hstory => exact .inl hstory
  | drafted _ _ _ _ _ _ hstory => exact .inl hstory
  | turned _ _ _ _ _ _ _ _ hrec => exact hrec.story
  | approved _ _ _ _ _ _ hrec => exact hrec.story
  | dropped _ _ _ _ _ _ _ hrec => exact hrec.story
  | revised _ _ _ _ _ hrec => exact hrec.story
  | takenDown _ _ _ _ _ _ hrec => exact hrec.story
  | putBack _ _ _ _ _ _ hrec => exact hrec.story
  | published _ _ _ _ _ _ _ hstory => exact .inr (.inr hstory)

/-- An article with a published version had one before, or its story is published now. -/
theorem Change.publishedFrom {d t : Desk} {act : Act} (h : Change rules d act t) {b : Article}
    (hb : t.article = some b) (hg : b.publishedGroup ≠ none) :
    (∃ a, d.article = some a ∧ a.publishedGroup ≠ none) ∨ t.story = .published := by
  have hof : ∀ {a c : Article}, d.article = some a → t.article = some c →
      c.publishedGroup = a.publishedGroup → ∃ a, d.article = some a ∧ a.publishedGroup ≠ none := by
    intro a c ha hc heq
    obtain rfl := Option.some.inj (hb.symm.trans hc)
    exact ⟨a, ha, heq ▸ hg⟩
  cases h with
  | still h => exact .inl ⟨b, h ▸ hb, hg⟩
  | claimed => exact .inl ⟨b, hb, hg⟩
  | moved => exact .inl ⟨b, hb, hg⟩
  | checked h => exact .inl ⟨b, h ▸ hb, hg⟩
  | created _ h =>
    obtain rfl := Option.some.inj (hb.symm.trans h)
    exact absurd rfl hg
  | drafted a ha _ h => exact .inl (hof ha h rfl)
  | turned a _ _ ha _ h => exact .inl (hof ha h rfl)
  | approved a ha _ h => exact .inl (hof ha h rfl)
  | dropped a _ ha _ h => exact .inl (hof ha h rfl)
  | revised a ha h => exact .inl (hof ha h rfl)
  | takenDown a ha _ h => exact .inl (hof ha h rfl)
  | putBack a ha _ h => exact .inl (hof ha h rfl)
  | published _ _ _ _ _ _ _ hstory => exact .inr hstory

theorem Change.story_kept {d t : Desk} {act : Act} (h : Change rules d act t)
    (hact : ∀ target, act ≠ .moveStory target) :
    (d.story = .published → t.story = .published) ∧
      (t.story = .inProduction → d.story = .inProduction) := by
  rcases h.storyMoves hact with hs | hs | hs <;> rw [hs]
  · exact ⟨id, id⟩
  · refine ⟨?_, fun hd => absurd hd drop_inProduction⟩
    intro hd
    rw [hd]
    rfl
  · exact ⟨fun _ => rfl, nofun⟩

theorem StoryLine.Consistent.desk (h : line.Consistent) {t : Desk} {act : Act}
    (hc : Change rules line.desk act t) (hact : ∀ target, act ≠ .moveStory target)
    (hkept : Kept t) : StoryLine.Consistent { line with desk := t } := by
  obtain ⟨hstays, hback⟩ := hc.story_kept hact
  refine ⟨hkept, ?_, ?_, ?_, ?_, ?_⟩
  · intro b hb hg
    rcases hc.publishedFrom hb hg with ⟨a, ha, hag⟩ | hs
    · exact hstays (h.out a ha hag)
    · exact hs
  · intro hs
    exact h.produced (hback hs)
  · intro r hr hp
    exact hstays (h.published r hr hp)
  · intro r hr ht hst
    exact hstays (h.succeeded r hr ht hst)
  · intro r hr ht
    exact hstays (h.revised r hr ht)

theorem StoryLine.Consistent.moved (h : line.Consistent) {s : StoryState}
    (hfrom : line.desk.story ≠ .published)
    (hs : s = .inProduction → ∃ r ∈ line.runs, r.template = .storyToArticle) :
    StoryLine.Consistent { line with desk := { line.desk with story := s } } where
  kept := h.kept.still rfl rfl rfl
  out a ha hg := absurd (h.out a ha hg) hfrom
  produced := hs
  published r hr hp := absurd (h.published r hr hp) hfrom
  succeeded r hr ht hst := absurd (h.succeeded r hr ht hst) hfrom
  revised r hr ht := absurd (h.revised r hr ht) hfrom

theorem StoryLine.Consistent.started (h : line.Consistent) {template : TemplateName}
    (ht : template = .articleRevision → line.desk.story = .published) :
    (line.start template line.desk).Consistent := by
  refine ⟨h.kept, h.out, ?_, ?_, ?_, ?_⟩
  · intro hs
    obtain ⟨r, hr, hrt⟩ := h.produced hs
    exact ⟨r, List.mem_append_left _ hr, hrt⟩
  · intro r hr hp
    rcases List.mem_append.mp hr with hr | hr
    · exact h.published r hr hp
    · rw [List.mem_singleton.mp hr] at hp
      cases hp
  · intro r hr hrt hst
    rcases List.mem_append.mp hr with hr | hr
    · exact h.succeeded r hr hrt hst
    · rw [List.mem_singleton.mp hr] at hst
      cases hst
  · intro r hr hrt
    rcases List.mem_append.mp hr with hr | hr
    · exact h.revised r hr hrt
    · rw [List.mem_singleton.mp hr] at hrt
      exact ht hrt

theorem StoryLine.Consistent.replaced (h : line.Consistent) {k : Nat} {r r' : WorkflowRun}
    (hk : line.runs[k]? = some r) (ht : r'.template = r.template)
    (hp : r'.published = true → line.desk.story = .published)
    (hst : r'.template = .storyToArticle → r'.state = .succeeded → line.desk.story = .published) :
    StoryLine.Consistent { line with runs := line.runs.set k r' } := by
  have hmem : r ∈ line.runs := List.mem_of_getElem? hk
  refine ⟨h.kept, h.out, ?_, ?_, ?_, ?_⟩
  · intro hs
    obtain ⟨x, hx, hxt⟩ := h.produced hs
    obtain ⟨i, hi, rfl⟩ := List.mem_iff_getElem.mp hx
    by_cases hik : k = i
    · subst hik
      have hr : line.runs[k] = r := Option.some.inj ((List.getElem?_eq_getElem hi).symm.trans hk)
      refine ⟨r', List.mem_set hi r', ht.trans (hr ▸ hxt)⟩
    · refine ⟨line.runs[i], ?_, hxt⟩
      refine List.mem_iff_getElem.mpr ⟨i, by rwa [List.length_set], ?_⟩
      rw [List.getElem_set_ne hik]
  · intro x hx hxp
    rcases List.mem_or_eq_of_mem_set hx with hx | rfl
    · exact h.published x hx hxp
    · exact hp hxp
  · intro x hx hxt hxs
    rcases List.mem_or_eq_of_mem_set hx with hx | rfl
    · exact h.succeeded x hx hxt hxs
    · exact hst hxt hxs
  · intro x hx hxt
    rcases List.mem_or_eq_of_mem_set hx with hx | rfl
    · exact h.revised x hx hxt
    · exact h.revised r hmem (ht ▸ hxt)

theorem startRevision_published {d t : Desk} {actor : Actor} {reason : String}
    (h : d.startRevision actor reason = .ok t) :
    ∃ a, d.article = some a ∧ a.publishedGroup ≠ none := by
  obtain ⟨_, _, h⟩ := bind_ok h
  obtain ⟨_, _, h⟩ := bind_ok h
  obtain ⟨a, ha, h⟩ := bind_ok h
  split at h
  · cases h
  · next hno => exact ⟨a, theArticle_eq ha, (not_or.mp hno).1⟩

/-- The publisher returns with the story published, or with an article that was out before. -/
theorem publishArticle_story {d t : Desk} {policy : LanguagePolicy} {decision : Decision}
    (h : d.publishArticle policy decision = .ok t) :
    t.story = .published ∨ t = d ∧ ∃ a, d.article = some a ∧ a.state = .published := by
  simp only [Desk.publishArticle] at h
  split at h
  · cases h
  · next a ha =>
    split at h
    · next hs =>
      cases h
      exact .inr ⟨rfl, a, theArticle_eq ha, hs⟩
    · split at h
      · cases h
      · split at h
        · cases h
        · split at h
          · cases h
          · split at h
            · cases h
            · split at h
              · cases h
              · cases h
              · next a' story _ hstory =>
                cases h
                exact .inl (storyTransitionVia_eq hstory)

theorem StoryLine.Consistent.moveStory (h : line.Consistent) {target : StoryState}
    (htarget : target ≠ .inProduction) (hs : line.moveStory target = some l) : l.Consistent := by
  simp only [StoryLine.moveStory] at hs
  split at hs
  · next hcan =>
    cases hs
    apply h.moved
    · intro hp
      rw [hp] at hcan
      exact absurd hcan.1 (by simp [storyFsm, StateMachine.can, StateMachine.allowedFrom])
    · intro heq
      exact absurd heq htarget
  · cases hs

theorem StoryLine.Consistent.run (h : line.Consistent) {act : Act}
    (hact : ∀ target, act ≠ .moveStory target) (hok : line.desk.leavesRevisions act) :
    StoryLine.Consistent { line with desk := line.desk.run rules act } :=
  h.desk run_change hact (run_change.kept h.kept hok)

theorem lineStep_consistent {act : LineAct} (h : line.Consistent)
    (hok : ∀ a, act = .desk a → line.desk.leavesRevisions a)
    (hs : line.step rules act = some l) : l.Consistent := by
  cases act with
  | select => exact h.moveStory (by decide) hs
  | ignore => exact h.moveStory (by decide) hs
  | drop =>
    simp only [StoryLine.step] at hs
    split at hs
    · next hcan =>
      cases hs
      apply h.moved
      · intro hp
        rw [hp] at hcan
        cases hcan
      · intro hp
        cases hp
    · cases hs
  | desk a =>
    have hok := hok a rfl
    have hrun := @StoryLine.Consistent.run rules _ h a
    cases a with
    | moveStory => cases hs
    | _ =>
      obtain rfl := Option.some.inj hs
      exact hrun (fun _ he => by cases he) hok
  | startStory =>
    simp only [StoryLine.step, StoryLine.startStory] at hs
    split at hs
    · next hsel =>
      cases hs
      have hstart : (line.start .storyToArticle line.desk).Consistent :=
        h.started fun he => by cases he
      apply hstart.moved
      · show line.desk.story ≠ .published
        rw [hsel]
        decide
      · intro _
        exact ⟨_, List.mem_append_right _ (List.mem_singleton.mpr rfl), rfl⟩
    · cases hs
  | startArticleRevision actor reason =>
    simp only [StoryLine.step, StoryLine.startArticleRevision] at hs
    split at hs
    · next t ht =>
      split at hs
      · cases hs
      · cases hs
        have hc : Change rules line.desk (.startRevision actor reason) t :=
          startRevision_change ht
        have hdesk := h.desk hc (fun _ he => by cases he) (hc.kept h.kept trivial)
        obtain ⟨a, ha, hg⟩ := startRevision_published ht
        exact @StoryLine.Consistent.started _ hdesk .articleRevision
          fun _ => (hc.story_kept fun _ he => by cases he).1 (h.out a ha hg)
    · cases hs
  | delegate =>
    simp only [StoryLine.step, StoryLine.delegate] at hs
    split at hs
    · cases hs
    · cases hs
      exact h.started fun he => by cases he
  | publishStep k policy decision =>
    simp only [StoryLine.step, StoryLine.publishStep] at hs
    split at hs
    · next r t hk ht =>
      split at hs
      · next hrun =>
        cases hs
        have hc : Change rules line.desk (.publishArticle policy decision) t :=
          publishArticle_change ht
        have hdesk := h.desk hc (fun _ he => by cases he) (hc.kept h.kept trivial)
        have hstory : t.story = .published := by
          rcases publishArticle_story ht with hp | ⟨rfl, a, ha, hp⟩
          · exact hp
          · apply h.out a ha
            rw [(h.kept.published a ha hp).2]
            intro hnone
            cases hnone
        exact hdesk.replaced hk rfl (fun _ => hstory) fun _ _ => hstory
      · cases hs
    · cases hs
  | endRun k state =>
    simp only [StoryLine.step, StoryLine.endRun] at hs
    split at hs
    · next r hk =>
      split at hs
      · next hend =>
        cases hs
        have hr : r ∈ line.runs := List.mem_of_getElem? hk
        refine h.replaced hk ?_ ?_ ?_
        · rfl
        · exact h.published r hr
        · intro ht hst
          rcases hend.2.2 hst with hp | hp
          · exact h.published r hr hp
          · rw [show r.template = .storyToArticle from ht] at hp
            cases hp
      · cases hs
    · cases hs

theorem StoryLine.Consistent.returned (h : line.Consistent) : line.returnUnfinished.Consistent := by
  simp only [StoryLine.returnUnfinished]
  split
  · next hstuck =>
    apply h.moved
    · intro hp
      simp [StoryLine.stuck, hp] at hstuck
    · nofun
  · exact h

theorem blankLine_consistent : StoryLine.Consistent ⟨blankDesk, []⟩ := by
  refine ⟨blankDesk_kept, ?_, ?_, ?_, ?_, ?_⟩ <;> intro x <;> intros <;> contradiction

theorem reach_consistent (h : (newsroom rules).Reach Stories.leavesRevisions n) :
    ∀ id line, n id = some line → line.Consistent := by
  refine h.invariant (I := fun n => ∀ id line, n id = some line → line.Consistent) ?_ ?_
  · intro n hn id line hl
    rw [hn] at hl
    cases hl
  · intro n act t hn hok hs id line hl
    replace hs : n.step rules act = some t := hs
    cases act with
    | discover i =>
      simp only [Stories.step] at hs
      split at hs
      · cases hs
        by_cases hi : id = i
        · subst hi
          rw [Function.update_self] at hl
          cases hl
          exact blankLine_consistent
        · rw [Function.update_of_ne hi] at hl
          exact hn id line hl
      · cases hs
    | line i act =>
      simp only [Stories.step] at hs
      split at hs
      · next before hi =>
        obtain ⟨after, hafter, rfl⟩ := Option.map_eq_some_iff.mp hs
        by_cases hid : id = i
        · subst hid
          rw [Function.update_self] at hl
          cases hl
          apply lineStep_consistent (hn id before hi) _ hafter
          rintro a rfl
          exact hok before hi
        · rw [Function.update_of_ne hid] at hl
          exact hn id line hl
      · cases hs
    | returnUnfinished =>
      obtain rfl := Option.some.inj hs
      obtain ⟨before, hi, rfl⟩ := Option.map_eq_some_iff.mp hl
      exact (hn id before hi).returned

/-- In every run in which articles with a revision in work are neither taken down nor put back,
a pass leaves no story stuck exactly when no story whose production ended has a delegated
approval that is still open or was decided, or an article past its draft. -/
theorem no_story_stuck (rules : WordRules) (n : Stories)
    (h : (newsroom rules).Reach Stories.leavesRevisions n) :
    Unstuck n (returnUnfinished n) ↔ n.Unanswered :=
  unstuck_iff (reach_consistent h)

/-! A story whose approval went to the CEO: she approves, and the publication fails. -/

def producedOnce : List NewsroomAct :=
  [.discover 0, .line 0 .select, .line 0 .startStory] ++
    ([.createClaim "Rates may fall." .opinion, .writeDraft english (oneBlock "Rates may fall."),
      .runFactCheck 0 none] : List Act).map fun act => .line 0 (.desk act)

def emptyNewsroom : Stories := fun _ => none

theorem story_stuck : ¬ ∀ (rules : WordRules) (n : Stories),
    (newsroom rules).Reach anyStep n → Unstuck n (returnUnfinished n) := by
  intro h
  have hrun : (System.follow anyStep (fun n act => Stories.step plainRules n act) emptyNewsroom
      (producedOnce ++ [.line 0 (.desk (.acceptDraft 3)), .line 0 .delegate,
        .line 0 (.desk (.approveArticle .allow)), .line 0 (.endRun 1 .succeeded),
        .line 0 (.endRun 0 .failed)])).map
      (fun n => (returnUnfinished n 0).map fun l => (l.desk.story, l.runs)) =
      some (some (.inProduction, [⟨.storyToArticle, .failed, false⟩,
        ⟨.unansweredApproval, .succeeded, false⟩])) := by decide +kernel
  obtain ⟨n, hn, hafter⟩ := Option.map_eq_some_iff.mp hrun
  obtain ⟨l, hl, heq⟩ := Option.map_eq_some_iff.mp hafter
  obtain ⟨hstory, hruns⟩ := Prod.mk.inj heq
  obtain ⟨r, hr, hproducing⟩ :=
    (h plainRules n ⟨emptyNewsroom, rfl, System.follow_path (fun _ _ _ h => h) hn⟩).producing 0 l
      hl hstory
  rw [hruns] at hr
  have hnone : ∀ r ∈ [(⟨.storyToArticle, .failed, false⟩ : WorkflowRun),
      ⟨.unansweredApproval, .succeeded, false⟩], r.producing = false := by decide
  rw [hnone r hr] at hproducing
  cases hproducing

theorem no_story_stuck_drafted : ∃ n : Stories,
    (returnUnfinished n 0).map (fun l => l.desk.story) = some .selected ∧
      (Unstuck n (returnUnfinished n) ↔ n.Unanswered) := by
  have hrun : (System.follow Stories.leavesRevisions (fun n act => Stories.step plainRules n act)
      emptyNewsroom (producedOnce ++ [.line 0 (.endRun 0 .failed)])).map
      (fun n => (returnUnfinished n 0).map fun l => l.desk.story) =
      some (some .selected) := by decide +kernel
  obtain ⟨n, hn, hafter⟩ := Option.map_eq_some_iff.mp hrun
  exact ⟨n, hafter, no_story_stuck plainRules n
    ⟨emptyNewsroom, rfl, System.follow_path (fun _ _ _ h => h) hn⟩⟩

end Autora.Newsroom
