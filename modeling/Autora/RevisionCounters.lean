import Autora.RunRounds
import Autora.Verdicts

/-! The engine's rounds against the article's revisions: there is a review for every revision and
for every time a person was asked, so the rounds may be used up where the revisions are not. -/

namespace Autora.Newsroom

open Systems

variable {rules : WordRules} {t : TemplateSpec} {f f' : Floor} {d d' : Desk} {a : Article}

/-! The invariant. -/

/-- A review for every revision and for every time a person is asked; and while the article is in
work, a person is still to be asked. -/
structure Counters (f : Floor) : Prop where
  asked : 1 ≤ countOf f.jobs "approve"
  reviews : countOf f.jobs "review" = revisions f.desk + countOf f.jobs "approve"
  awaiting : (∀ a, f.desk.article = some a → InWork a) → Awaiting f.jobs

/-- A verdict asks for another round of the engine only where it has one left, or the article has
no revision left either. -/
def WithinRounds (f : Floor) : Move → Prop
  | .editor _ (.revise _ _) => revisions f.desk < 2 → countOf f.jobs "review" ≤ 2
  | .chief _ .revise _ _ => revisions f.desk < 2 → countOf f.jobs "chief_review" ≤ 2
  | .person _ (.revise _) => countOf f.jobs "approve" ≤ 2
  | _ => True

theorem running_some {id : Nat} {p : String → Bool} (h : f.running id p = true) :
    ∃ j, f.jobs[id]? = some j ∧ p j.name = true ∧ j.state.active = true := by
  rw [Floor.running, Option.any_eq_true] at h
  obtain ⟨j, hj, hp⟩ := h
  rw [Bool.and_eq_true] at hp
  exact ⟨j, hj, hp⟩

theorem countOf_setJob (id : Nat) (s : TaskState) (jobs : List Job) (name : String) :
    countOf (setJob id s jobs) name = countOf jobs name := countOf_congr (setJob_names id s jobs) name

theorem Counters.unlocked {id : Nat} {name : String} {output : Dict} (hf : Counters f)
    (hr : reaction t (setJob id .succeeded f.jobs) name output = .unlocked)
    (hrev : revisions d = revisions f.desk)
    (hwork : (∀ a, d.article = some a → InWork a) → (∀ a, f.desk.article = some a → InWork a) ∧
      ∀ j, f.jobs[id]? = some j → j.name ≠ "approve") :
    Counters ⟨onTaskFinished t id name output (setJob id .succeeded f.jobs), d⟩ := by
  have hjobs : onTaskFinished t id name output (setJob id .succeeded f.jobs) =
      unlock id (setJob id .succeeded f.jobs) := by
    simp only [onTaskFinished, hr]
  rw [hjobs]
  have hcount : ∀ n, countOf (unlock id (setJob id .succeeded f.jobs)) n = countOf f.jobs n := by
    intro n
    rw [countOf_congr (unlock_names id _), countOf_setJob]
  refine ⟨?_, ?_, ?_⟩
  · rw [hcount]
    exact hf.asked
  · show countOf (unlock id (setJob id .succeeded f.jobs)) "review" = revisions d + countOf _ "approve"
    rw [hcount, hcount, hrev]
    exact hf.reviews
  · intro hw
    obtain ⟨hbefore, hname⟩ := hwork hw
    exact ((hf.awaiting hbefore).setJob (.inr hname)).unlock id

theorem counters_cancelled {id : Nat} {s : TaskState} (hf : Counters f)
    (hrev : revisions d = revisions f.desk) (hwork : ∃ a, d.article = some a ∧ ¬ InWork a) :
    Counters ⟨cancelWaiting id (setJob id s f.jobs), d⟩ := by
  have hcount : ∀ n, countOf (cancelWaiting id (setJob id s f.jobs)) n = countOf f.jobs n := by
    intro n
    rw [countOf_congr (cancelWaiting_names id _), countOf_setJob]
  refine ⟨?_, ?_, ?_⟩
  · rw [hcount]
    exact hf.asked
  · show countOf (cancelWaiting id (setJob id s f.jobs)) "review" = revisions d + countOf _ "approve"
    rw [hcount, hcount, hrev]
    exact hf.reviews
  · intro hw
    obtain ⟨a, ha, hn⟩ := hwork
    exact absurd (hw a ha) hn

/-- The article was turned down in the step in which the engine stops the run. -/
theorem Counters.stopped {id : Nat} {name : String} {output : Dict} (hf : Counters f)
    (hr : reaction t (setJob id .succeeded f.jobs) name output = .halted ∨
      reaction t (setJob id .succeeded f.jobs) name output = .gaveUp)
    (hrev : revisions d = revisions f.desk) (hwork : ∃ a, d.article = some a ∧ ¬ InWork a) :
    Counters ⟨onTaskFinished t id name output (setJob id .succeeded f.jobs), d⟩ := by
  have hjobs : onTaskFinished t id name output (setJob id .succeeded f.jobs) =
      cancelWaiting id (setJob id .succeeded f.jobs) := by
    rcases hr with hr | hr <;> simp only [onTaskFinished, hr]
  rw [hjobs]
  exact counters_cancelled hf hrev hwork

/-- Another round is counted on both sides: as a revision, or as one more time a person is asked. -/
theorem Counters.again {id : Nat} {name : String} {output : Dict} {loop : Loop} (hf : Counters f)
    (ht : Rounded t) (hl : loop ∈ t.loops)
    (hr : reaction t (setJob id .succeeded f.jobs) name output = .again loop)
    (hrev : revisions d + (if loop.check = "approve" then 1 else 0) = revisions f.desk + 1)
    (hwork : loop.check = "approve" ∨ (∀ a, f.desk.article = some a → InWork a) ∧
      ∀ j, f.jobs[id]? = some j → j.name ≠ "approve") :
    Counters ⟨onTaskFinished t id name output (setJob id .succeeded f.jobs), d⟩ := by
  have hjobs : onTaskFinished t id name output (setJob id .succeeded f.jobs) =
      startRound t loop id (setJob id .succeeded f.jobs) := by
    simp only [onTaskFinished, hr]
  rw [hjobs]
  have hreviews := ht.reviews loop hl
  have happrovals := ht.approvals loop hl
  have hbefore := hf.reviews
  refine ⟨?_, ?_, ?_⟩
  · have := hf.asked
    rw [countOf_startRound, countOf_setJob]
    omega
  · show countOf (startRound t loop id (setJob id .succeeded f.jobs)) "review" =
      revisions d + countOf (startRound t loop id (setJob id .succeeded f.jobs)) "approve"
    rw [countOf_startRound, countOf_startRound, countOf_setJob, countOf_setJob, hreviews, happrovals]
    omega
  · intro _
    rcases hwork with hcheck | ⟨hw, hname⟩
    · apply awaiting_startRound
      rw [happrovals, if_pos hcheck]
      exact Nat.one_pos
    · exact ((hf.awaiting hw).setJob (.inr hname)).startRound

/-- What a step of the run says of both counters. -/
structure Agrees (t : TemplateSpec) (f : Floor) (move : Move) (f' : Floor) : Prop where
  counters : Counters f'
  stopped : ∀ r, f.reacts t move = some r → r = .halted ∨ r = .gaveUp → TurnedDown f.desk f'.desk
  turnedDown : TurnedDown f.desk f'.desk → ∀ loop, f.reacts t move ≠ some (.again loop)

theorem TurnedDown.out (h : TurnedDown d d') : ∃ a, d'.article = some a ∧ ¬ InWork a := by
  obtain ⟨a, _, _, hdown⟩ := h
  obtain ⟨a', ha', _, hn⟩ := hdown.article
  exact ⟨a', ha', hn⟩

theorem not_turnedDown (h : d'.article = some a) (hw : InWork a) : ¬ TurnedDown d d' := by
  intro hd
  obtain ⟨a', ha', hn⟩ := hd.out
  rw [h, Option.some.injEq] at ha'
  subst ha'
  exact hn hw

theorem revisions_some (h : d.article = some a) : revisions d = a.revisionCount := by
  rw [revisions, h]
  rfl

theorem revisions_down (ha : d.article = some a) (h : Down a d') : revisions d' = revisions d := by
  obtain ⟨a', ha', hrev, _⟩ := h.article
  rw [revisions_some ha', revisions_some ha, hrev]

/-! One step. -/

section

variable {id : Nat} {name : String} {output : Dict} {move : Move}

theorem agrees_unlocked (hf : Counters f) (he : f.ends move = some (id, name, output, d))
    (hr : reaction t (setJob id .succeeded f.jobs) name output = .unlocked)
    (hrev : revisions d = revisions f.desk)
    (hwork : (∀ a, d.article = some a → InWork a) → (∀ a, f.desk.article = some a → InWork a) ∧
      ∀ j, f.jobs[id]? = some j → j.name ≠ "approve") :
    Agrees t f move ⟨onTaskFinished t id name output (setJob id .succeeded f.jobs), d⟩ := by
  have hreact : f.reacts t move = some .unlocked := by
    rw [Floor.reacts, he, ← hr]
    rfl
  refine ⟨hf.unlocked hr hrev hwork, ?_, ?_⟩
  · intro r hs hstop
    rw [hreact, Option.some.injEq] at hs
    subst hs
    rcases hstop with h | h <;> cases h
  · intro _ loop h
    rw [hreact] at h
    cases h

theorem agrees_stopped (hf : Counters f) (he : f.ends move = some (id, name, output, d))
    (hr : reaction t (setJob id .succeeded f.jobs) name output = .halted ∨
      reaction t (setJob id .succeeded f.jobs) name output = .gaveUp)
    (ha : f.desk.article = some a) (hw : InWork a) (hd : Down a d) :
    Agrees t f move ⟨onTaskFinished t id name output (setJob id .succeeded f.jobs), d⟩ := by
  have hreact : f.reacts t move = some (reaction t (setJob id .succeeded f.jobs) name output) := by
    rw [Floor.reacts, he]
    rfl
  have hturned : TurnedDown f.desk d := ⟨a, ha, hw, hd⟩
  refine ⟨hf.stopped hr (revisions_down ha hd) hturned.out, fun _ _ _ => hturned, ?_⟩
  intro _ loop h
  rw [hreact, Option.some.injEq] at h
  rcases hr with hr | hr <;> rw [hr] at h <;> cases h

theorem agrees_again (ht : Rounded t) (hf : Counters f)
    (he : f.ends move = some (id, name, output, d)) (hrounds : Rounds t name output)
    (hleft : countOf f.jobs name ≤ 2) (ha : d.article = some a) (hw : InWork a)
    (hrev : revisions d + (if name = "approve" then 1 else 0) = revisions f.desk + 1)
    (hwork : name = "approve" ∨ (∀ a, f.desk.article = some a → InWork a) ∧
      ∀ j, f.jobs[id]? = some j → j.name ≠ "approve") :
    Agrees t f move ⟨onTaskFinished t id name output (setJob id .succeeded f.jobs), d⟩ := by
  obtain ⟨loop, hl, hcheck, hr⟩ := hrounds
  have hagain := hr (setJob id .succeeded f.jobs)
  rw [countOf_setJob, if_neg (by omega)] at hagain
  have hreact : f.reacts t move = some (.again loop) := by
    rw [Floor.reacts, he, ← hagain]
    rfl
  refine ⟨hf.again ht hl hagain (hcheck ▸ hrev) (hcheck ▸ hwork), ?_, ?_⟩
  · intro r hs hstop
    rw [hreact, Option.some.injEq] at hs
    subst hs
    rcases hstop with h | h <;> cases h
  · intro hturned
    exact absurd hturned (not_turnedDown ha hw)

/-- The rounds of the engine are used up where the article's revisions are. -/
theorem gaveUp_of_revisions (hf : Counters f) (hrounds : Rounds t "review" output)
    (hrev : 2 ≤ revisions f.desk) :
    reaction t (setJob id .succeeded f.jobs) "review" output = .gaveUp := by
  obtain ⟨loop, _, _, hr⟩ := hrounds
  have hasked := hf.asked
  have hreviews := hf.reviews
  rw [hr, countOf_setJob, if_pos (by omega)]

end

theorem name_of_running {id : Nat} {name : String}
    (h : f.running id (fun n => decide (n = name)) = true) :
    ∀ j, f.jobs[id]? = some j → j.name = name := by
  obtain ⟨j, hj, hn, _⟩ := running_some h
  intro j' hj'
  rw [hj, Option.some.injEq] at hj'
  subst hj'
  exact of_decide_eq_true hn

theorem toOption_some {α : Type} {x : Except Refusal α} {a : α} (h : x.toOption = some a) :
    x = .ok a := by
  cases x with
  | ok b => exact congrArg _ (Option.some.inj h)
  | error e => cases h

theorem work_agrees (ht : Rounded t) (hf : Counters f) {id : Nat} {output : Dict}
    {e : Nat × String × Dict × Desk} (he : f.ends (.work id output) = some e) :
    Agrees t f (.work id output) ⟨onTaskFinished t e.1 e.2.1 e.2.2.1 (setJob e.1 .succeeded f.jobs),
      e.2.2.2⟩ := by
  have hends := he
  simp only [Floor.ends] at he
  split at he
  · next hrun =>
    obtain ⟨j, hj, hn, _⟩ := running_some hrun
    have hname : j.name ∉ decided := of_decide_eq_true hn
    simp only [hj, Option.map_some, Option.some.injEq] at he
    subst he
    apply agrees_unlocked hf hends (ht.work _ _ _ hname) rfl
    intro hw
    refine ⟨hw, ?_⟩
    intro j' hj'
    rw [hj, Option.some.injEq] at hj'
    subst hj'
    exact fun h => (not_decided hname).2.2 h.symm
  · cases he

theorem publish_agrees (ht : Rounded t) (hf : Counters f) {id : Nat} {policy : LanguagePolicy}
    {e : Nat × String × Dict × Desk} (he : f.ends (.publish id policy) = some e) :
    Agrees t f (.publish id policy)
      ⟨onTaskFinished t e.1 e.2.1 e.2.2.1 (setJob e.1 .succeeded f.jobs), e.2.2.2⟩ := by
  have hends := he
  simp only [Floor.ends] at he
  split at he
  · obtain ⟨d, hd, rfl⟩ := Option.map_eq_some_iff.mp he
    obtain ⟨a, a', ha, _, ha', hrev, hout⟩ := publishArticle_spec (toOption_some hd)
    apply agrees_unlocked hf hends (ht.publish _ _)
    · rw [revisions_some ha', revisions_some ha, hrev]
    · intro hw
      exact absurd (hw a' ha') hout
  · cases he

theorem editor_agrees (ht : Rounded t) (hf : Counters f) {id : Nat} {verdict : EditorVerdict}
    (hwithin : WithinRounds f (.editor id verdict)) {e : Nat × String × Dict × Desk}
    (he : f.ends (.editor id verdict) = some e) :
    Agrees t f (.editor id verdict)
      ⟨onTaskFinished t e.1 e.2.1 e.2.2.1 (setJob e.1 .succeeded f.jobs), e.2.2.2⟩ := by
  have hends := he
  simp only [Floor.ends] at he
  split at he
  · next hcond =>
    obtain ⟨hrun, hu⟩ := Bool.and_eq_true_iff.mp hcond
    obtain ⟨d, hd, rfl⟩ := Option.map_eq_some_iff.mp he
    have hname : ∀ j, f.jobs[id]? = some j → j.name ≠ "approve" := by
      intro j hj
      rw [name_of_running hrun j hj]
      decide
    have hd := toOption_some hd
    cases verdict with
    | accept report =>
      obtain ⟨a, ha, hs, ha'⟩ := acceptDraft_spec hu hd
      apply agrees_unlocked hf hends (ht.accepted _ report)
      · rw [revisions_some ha', revisions_some ha]
      · intro _
        refine ⟨?_, hname⟩
        intro b hb
        rw [ha, Option.some.injEq] at hb
        exact hb ▸ .inl hs
    | revise issuesCount backTo =>
      obtain ⟨a, ha, hs, ⟨hlow, ha'⟩ | ⟨hhigh, hdown⟩⟩ := requestRevision_spec hu hd
      · have hbefore := revisions_some ha
        apply agrees_again ht hf hends (ht.revised issuesCount backTo)
          (hwithin (by omega)) ha' (.inl hs)
        · rw [revisions_some ha', hbefore, if_neg (by decide)]
        · right
          refine ⟨?_, hname⟩
          intro b hb
          rw [ha, Option.some.injEq] at hb
          exact hb ▸ .inl hs
      · apply agrees_stopped hf hends (.inr ?_) ha (.inl hs) hdown
        apply gaveUp_of_revisions hf (ht.revised issuesCount backTo)
        rw [revisions_some ha]
        exact hhigh
  · cases he

theorem chief_agrees (ht : Rounded t) (hf : Counters f) {id issuesCount : Nat} {verdict : Verdict}
    {reason : String} (hwithin : WithinRounds f (.chief id verdict issuesCount reason))
    {e : Nat × String × Dict × Desk}
    (he : f.ends (.chief id verdict issuesCount reason) = some e) :
    Agrees t f (.chief id verdict issuesCount reason)
      ⟨onTaskFinished t e.1 e.2.1 e.2.2.1 (setJob e.1 .succeeded f.jobs), e.2.2.2⟩ := by
  have hends := he
  simp only [Floor.ends] at he
  split at he
  · next hcond =>
    obtain ⟨hrun, hu⟩ := Bool.and_eq_true_iff.mp hcond
    obtain ⟨d, hd, rfl⟩ := Option.map_eq_some_iff.mp he
    have hname : ∀ j, f.jobs[id]? = some j → j.name ≠ "approve" := by
      intro j hj
      rw [name_of_running hrun j hj]
      decide
    obtain ⟨a, ha, hs, ⟨rfl, ha'⟩ | ⟨hv, hdown⟩ | ⟨rfl, hlow, ha'⟩⟩ :=
      chiefDecide_spec hu (toOption_some hd)
    · have hout : chiefOutput .accept d = [("verdict", .str "accept"), ("dropped", .bool false)] := by
        simp [chiefOutput, Desk.turnedDown, Desk.verdictValue, ha', hs]
      apply agrees_unlocked hf hends
      · rw [hout]
        exact ht.passed _
      · rw [revisions_some ha', revisions_some ha]
      · intro _
        refine ⟨?_, hname⟩
        intro b hb
        rw [ha, Option.some.injEq] at hb
        exact hb ▸ .inr hs
    · apply agrees_stopped hf hends (.inl ?_) ha (.inr hs) hdown
      rw [chiefOutput, hdown.turnedDown hv]
      exact ht.dropped _ _
    · have hout : chiefOutput .revise d = [("verdict", .str "revise"), ("dropped", .bool false)] := by
        simp [chiefOutput, Desk.turnedDown, Desk.verdictValue, ha']
      have hbefore := revisions_some ha
      apply agrees_again ht hf hends (a := { a with state := .draft, revisionCount := a.revisionCount + 1 })
      · rw [hout]
        exact ht.sentBack
      · exact hwithin (by omega)
      · exact ha'
      · exact .inl rfl
      · rw [revisions_some ha', hbefore, if_neg (by decide)]
      · right
        refine ⟨?_, hname⟩
        intro b hb
        rw [ha, Option.some.injEq] at hb
        exact hb ▸ .inr hs
  · cases he

theorem person_agrees (ht : Rounded t) (hf : Counters f) {id : Nat} {verdict : PersonVerdict}
    (hwithin : WithinRounds f (.person id verdict)) {e : Nat × String × Dict × Desk}
    (he : f.ends (.person id verdict) = some e) :
    Agrees t f (.person id verdict)
      ⟨onTaskFinished t e.1 e.2.1 e.2.2.1 (setJob e.1 .succeeded f.jobs), e.2.2.2⟩ := by
  have hends := he
  simp only [Floor.ends] at he
  split at he
  · next hcond =>
    obtain ⟨_, hv⟩ := Bool.and_eq_true_iff.mp hcond
    obtain ⟨d, hd, rfl⟩ := Option.map_eq_some_iff.mp he
    have hd := toOption_some hd
    cases verdict with
    | approve =>
      obtain ⟨a, s, ha, ha', hs⟩ := approveArticle_spec hd
      apply agrees_unlocked hf hends (ht.approved _)
      · rw [revisions_some ha', revisions_some ha]
      · intro hw
        have := hw _ ha'
        rcases hs with rfl | rfl <;> rcases this with h | h <;> cases h
    | revise reason =>
      obtain ⟨a, ha, ha'⟩ := returnArticle_spec hd
      apply agrees_again ht hf hends (ht.returned reason) hwithin ha' (.inl rfl)
      · rw [revisions_some ha', revisions_some ha]
        rfl
      · exact .inl rfl
    | reject => simp at hv
  · cases he

theorem step_agrees (ht : Rounded t) (hf : Counters f) {move : Move}
    (hwithin : WithinRounds f move) (h : f.step t rules move = some f') : Agrees t f move f' := by
  unfold Floor.step at h
  cases he : f.ends move with
  | some e =>
    obtain ⟨id, name, output, d⟩ := e
    simp only [he, Option.some.injEq] at h
    subst h
    cases move with
    | take id s => cases he
    | prepare act => cases he
    | work id output => exact work_agrees ht hf he
    | publish id policy => exact publish_agrees ht hf he
    | editor id verdict => exact editor_agrees ht hf hwithin he
    | chief id verdict issuesCount reason => exact chief_agrees ht hf hwithin he
    | person id verdict => exact person_agrees ht hf hwithin he
  | none =>
    have hreact : f.reacts t move = none := by
      rw [Floor.reacts, he]
      rfl
    have agrees : Counters f' → Agrees t f move f' := by
      intro hc
      refine ⟨hc, ?_, ?_⟩
      · intro r hr
        rw [hreact] at hr
        cases hr
      · intro _ loop hr
        rw [hreact] at hr
        cases hr
    apply agrees
    simp only [he] at h
    cases move with
    | take id s =>
      obtain ⟨hcond, h⟩ := Option.ite_none_right_eq_some.mp h
      cases h
      obtain ⟨_, hs⟩ := Bool.and_eq_true_iff.mp hcond
      refine ⟨?_, ?_, ?_⟩
      · rw [countOf_setJob]
        exact hf.asked
      · rw [countOf_setJob, countOf_setJob]
        exact hf.reviews
      · intro hw
        refine (hf.awaiting hw).setJob (.inl ?_)
        simp only [TaskState.active, Bool.and_eq_true] at hs
        simpa using hs.1
    | prepare act =>
      obtain ⟨hcond, h⟩ := Option.ite_none_right_eq_some.mp h
      cases h
      rcases @prepare_spec rules f.desk act hcond with ha | ⟨hd, ha⟩ | ⟨a, hd, hs, ha⟩
      · refine ⟨hf.asked, ?_, ?_⟩
        · show _ = revisions (f.desk.run rules act) + _
          rw [revisions, ha]
          exact hf.reviews
        · intro hw
          apply hf.awaiting
          rw [← ha]
          exact hw
      · refine ⟨hf.asked, ?_, ?_⟩
        · have := hf.reviews
          rw [revisions, hd] at this
          rw [revisions_some ha]
          exact this
        · intro _
          apply hf.awaiting
          intro a h
          rw [hd] at h
          cases h
      · refine ⟨hf.asked, ?_, ?_⟩
        · have := hf.reviews
          rw [revisions_some hd] at this
          rw [revisions_some ha]
          exact this
        · intro _
          apply hf.awaiting
          intro b hb
          rw [hd, Option.some.injEq] at hb
          exact hb ▸ .inl hs
    | person id verdict =>
      cases verdict with
      | reject =>
        obtain ⟨_, h⟩ := Option.ite_none_right_eq_some.mp h
        obtain ⟨d, hd, rfl⟩ := Option.map_eq_some_iff.mp h
        obtain ⟨a, ha, hdown⟩ := rejectArticle_spec (toOption_some hd)
        apply counters_cancelled hf (revisions_down ha hdown)
        obtain ⟨a', ha', _, hout⟩ := hdown.article
        exact ⟨a', ha', hout⟩
      | approve => cases h
      | revise reason => cases h
    | work id output => cases h
    | publish id policy => cases h
    | editor id verdict => cases h
    | chief id verdict issuesCount reason => cases h

/-! Runs. -/

/-- The engine stops a run only where the article is turned down, and starts no round there; a
run that is closed leaves no article in work. -/
structure SameEnd (t : TemplateSpec) (rules : WordRules) (f : Floor) : Prop where
  stopped : ∀ move f', WithinRounds f move → f.step t rules move = some f' →
    ∀ r, f.reacts t move = some r → r = .halted ∨ r = .gaveUp → TurnedDown f.desk f'.desk
  turnedDown : ∀ move f', WithinRounds f move → f.step t rules move = some f' →
    TurnedDown f.desk f'.desk → ∀ loop, f.reacts t move ≠ some (.again loop)
  closed : closed f.jobs = true → ∀ a, f.desk.article = some a → ¬ InWork a

theorem Counters.sameEnd (ht : Rounded t) (hf : Counters f) : SameEnd t rules f where
  stopped _ _ hwithin h := (step_agrees ht hf hwithin h).stopped
  turnedDown _ _ hwithin h := (step_agrees ht hf hwithin h).turnedDown
  closed hclosed a ha hw := by
    have h := hf.awaiting fun b hb => by
      rw [ha, Option.some.injEq] at hb
      exact hb ▸ hw
    rw [h.not_closed] at hclosed
    cases hclosed

theorem counters_story (h : (storyRun rules).Reach WithinRounds f) : Counters f := by
  apply h.invariant
  · rintro f ⟨hjobs, hnone⟩
    refine ⟨?_, ?_, ?_⟩
    · rw [hjobs]
      decide +kernel
    · rw [hjobs, revisions, hnone]
      decide +kernel
    · intro _
      rw [hjobs]
      exact ⟨⟨"approve", .pending, [5, 3]⟩, by decide +kernel, rfl, rfl⟩
  · intro f move f' hf hwithin hs
    exact (step_agrees rounded_story hf hwithin hs).counters

theorem startRevision_spec {reason : String} (h : d.startRevision .human reason = .ok d') :
    ∃ a : Article, d'.article = some { a with state := .draft, revisionCount := 0 } := by
  obtain ⟨_, _, h⟩ := bind_ok h
  obtain ⟨_, _, h⟩ := bind_ok h
  obtain ⟨a, _, h⟩ := bind_ok h
  split at h
  · cases h
  · obtain ⟨a', hmove, h⟩ := bind_ok h
    cases h
    rw [transition_eq hmove]
    exact ⟨a, rfl⟩

theorem counters_revision (h : (revisionRun rules).Reach WithinRounds f) : Counters f := by
  apply h.invariant
  · rintro f ⟨hjobs, d, reason, hd⟩
    obtain ⟨a, ha⟩ := startRevision_spec hd
    refine ⟨?_, ?_, ?_⟩
    · rw [hjobs]
      decide +kernel
    · rw [hjobs, revisions_some ha]
      show countOf (instantiate revisionTemplate.toTemplateSpec) "review" =
        0 + countOf (instantiate revisionTemplate.toTemplateSpec) "approve"
      decide +kernel
    · intro _
      rw [hjobs]
      exact ⟨⟨"approve", .pending, [2]⟩, by decide +kernel, rfl, rfl⟩
  · intro f move f' hf hwithin hs
    exact (step_agrees rounded_revision hf hwithin hs).counters

/-- In runs whose verdicts stay within the rounds of the engine, both counters run out at the same
verdict. -/
theorem counters_agree (rules : WordRules) (f : Floor) :
    ((storyRun rules).Reach WithinRounds f → SameEnd storyTemplate.toTemplateSpec rules f) ∧
    ((revisionRun rules).Reach WithinRounds f →
      SameEnd revisionTemplate.toTemplateSpec rules f) :=
  ⟨fun h => (counters_story h).sameEnd rounded_story,
    fun h => (counters_revision h).sameEnd rounded_revision⟩

/-! A story that the editor sends back once and a person once. -/

instance (f : Floor) : DecidablePred (WithinRounds f)
  | .editor _ (.revise _ _) => inferInstanceAs (Decidable (_ → _))
  | .chief _ .revise _ _ => inferInstanceAs (Decidable (_ → _))
  | .person _ (.revise _) => inferInstanceAs (Decidable (_ ≤ 2))
  | .editor _ (.accept _) => isTrue trivial
  | .chief _ .accept _ _ => isTrue trivial
  | .chief _ .veto _ _ => isTrue trivial
  | .person _ .approve => isTrue trivial
  | .person _ .reject => isTrue trivial
  | .take _ _ => isTrue trivial
  | .prepare _ => isTrue trivial
  | .work _ _ => isTrue trivial
  | .publish _ _ => isTrue trivial

def newStory : Floor :=
  ⟨instantiate storyTemplate.toTemplateSpec, { blankDesk with story := .inProduction }⟩

def draftOf (words : String) : Move := .prepare (.writeDraft english (oneBlock words))

/-- Up to the approval of the second draft. -/
def askedOnce : List Move :=
  [.work 0 [], .work 1 [], .prepare (.createClaim "Rates may fall." .opinion),
    draftOf "Rates may fall.", .work 2 [], .editor 4 (.revise 1 "writer"),
    draftOf "Rates may fall soon.", .work 9 [], .prepare (.runFactCheck 0 none),
    .editor 10 (.accept 4), .chief 5 .accept 0 "", .work 3 []]

/-- A person's send-back has used up a round of the editor's loop. -/
theorem closed_with_draft : ∃ f : Floor, (storyRun plainRules).Reach anyStep f ∧
    closed f.jobs = true ∧ f.desk.article = some ⟨.draft, 5, none, true, 2⟩ := by
  have hrun : (System.follow anyStep (Floor.step storyTemplate.toTemplateSpec plainRules) newStory
      (askedOnce ++ [.person 6 (.revise "the headline"), draftOf "Rates may fall next year.",
        .work 11 [], .editor 12 (.revise 1 "writer")])).map
      (fun f => (closed f.jobs, f.desk.article)) =
        some (true, some ⟨.draft, 5, none, true, 2⟩) := by decide +kernel
  obtain ⟨f, hf, hout⟩ := Option.map_eq_some_iff.mp hrun
  obtain ⟨hclosed, harticle⟩ := Prod.mk.inj hout
  exact ⟨f, ⟨newStory, ⟨rfl, rfl⟩, System.follow_path (fun _ _ _ h => h) hf⟩, hclosed, harticle⟩

theorem counters_agree_published : ∃ f : Floor, closed f.jobs = true ∧
    f.desk.article = some ⟨.published, 3, some 3, true, 1⟩ ∧
    SameEnd storyTemplate.toTemplateSpec plainRules f := by
  have hrun : (System.follow WithinRounds (Floor.step storyTemplate.toTemplateSpec plainRules)
      newStory (askedOnce ++ [.person 6 .approve, .publish 7 english, .work 8 []])).map
      (fun f => (closed f.jobs, f.desk.article)) =
        some (true, some ⟨.published, 3, some 3, true, 1⟩) := by decide +kernel
  obtain ⟨f, hf, hout⟩ := Option.map_eq_some_iff.mp hrun
  obtain ⟨hclosed, harticle⟩ := Prod.mk.inj hout
  exact ⟨f, hclosed, harticle, (counters_agree plainRules f).1
    ⟨newStory, ⟨rfl, rfl⟩, System.follow_path (fun _ _ _ h => h) hf⟩⟩

end Autora.Newsroom
