import Autora.ArticleRuns

/-! What the engine makes of the tasks of a run: how many there are of a name, which approval is
still to be given, and what the two templates say at the end of each task. -/

namespace Autora.Newsroom

variable {t : TemplateSpec} {jobs jobs' : List Job}

/-! The tasks of a name. -/

def countOf (jobs : List Job) (name : String) : Nat := jobs.countP fun j => j.name = name

theorem countOf_congr (h : jobs'.map Job.name = jobs.map Job.name) (name : String) :
    countOf jobs' name = countOf jobs name := by
  have hmap : ∀ js : List Job, countOf js name = (js.map Job.name).countP (· = name) := by
    intro js
    rw [List.countP_map]
    rfl
  rw [hmap, hmap, h]

theorem setJob_names (id : Nat) (s : TaskState) (jobs : List Job) :
    (setJob id s jobs).map Job.name = jobs.map Job.name := by
  apply List.ext_getElem?
  intro i
  simp only [setJob, List.getElem?_map, List.getElem?_modify]
  by_cases hi : id = i
  · cases jobs[i]? <;> simp [hi]
  · cases jobs[i]? <;> simp [hi]

theorem cancelWaiting_names (id : Nat) (jobs : List Job) :
    (cancelWaiting id jobs).map Job.name = jobs.map Job.name := by
  apply List.ext_getElem?
  intro i
  simp only [cancelWaiting, List.getElem?_map, List.getElem?_zipIdx]
  cases hj : jobs[i]? with
  | none => simp
  | some j =>
    simp only [Option.map_some]
    split <;> rfl

theorem unlock_names (id : Nat) (jobs : List Job) :
    (unlock id jobs).map Job.name = jobs.map Job.name := by
  simp only [unlock, List.map_map]
  apply List.map_congr_left
  intro j _
  simp only [Function.comp_apply]
  split <;> rfl

theorem countOf_startRound (loop : Loop) (id : Nat) (jobs : List Job) (name : String) :
    countOf (startRound t loop id jobs) name =
      countOf jobs name + (t.loopBody loop).countP fun n => n.name = name := by
  simp only [countOf, startRound, List.countP_append, List.countP_map]
  rfl

/-! The approval that is not decided yet. -/

def Awaiting (jobs : List Job) : Prop := ∃ j ∈ jobs, j.name = "approve" ∧ j.state.final = false

theorem Awaiting.not_closed (h : Awaiting jobs) : closed jobs = false := by
  obtain ⟨j, hj, _, hs⟩ := h
  rw [closed, List.all_eq_false]
  exact ⟨j, hj, by simp [hs]⟩

theorem Awaiting.setJob {id : Nat} {s : TaskState} (h : Awaiting jobs)
    (hid : s.final = false ∨ ∀ j, jobs[id]? = some j → j.name ≠ "approve") :
    Awaiting (setJob id s jobs) := by
  obtain ⟨j, hj, hn, hs⟩ := h
  obtain ⟨i, hi⟩ := List.mem_iff_getElem?.mp hj
  by_cases he : id = i
  · rcases hid with hid | hid
    · refine ⟨{ j with state := s }, List.mem_iff_getElem?.mpr ⟨i, ?_⟩, hn, hid⟩
      simp [Newsroom.setJob, he, hi]
    · exact absurd hn (hid j (he ▸ hi))
  · refine ⟨j, List.mem_iff_getElem?.mpr ⟨i, ?_⟩, hn, hs⟩
    simp [Newsroom.setJob, he, hi]

theorem Awaiting.unlock (id : Nat) (h : Awaiting jobs) : Awaiting (unlock id jobs) := by
  obtain ⟨j, hj, hn, hs⟩ := h
  refine ⟨_, List.mem_map_of_mem hj, ?_⟩
  split
  · exact ⟨hn, rfl⟩
  · exact ⟨hn, hs⟩

theorem Awaiting.startRound {loop : Loop} {id : Nat} (h : Awaiting jobs) :
    Awaiting (startRound t loop id jobs) := by
  obtain ⟨j, hj, hn, hs⟩ := h
  exact ⟨_, List.mem_append_left _ (List.mem_map_of_mem hj), hn, hs⟩

/-- A round that repeats the approval waits for it. -/
theorem awaiting_startRound {loop : Loop} (id : Nat)
    (h : 0 < (t.loopBody loop).countP fun n => n.name = "approve") :
    Awaiting (startRound t loop id jobs) := by
  obtain ⟨n, hn, hname⟩ := List.countP_pos_iff.mp h
  refine ⟨_, List.mem_append_right _ (List.mem_map_of_mem hn), of_decide_eq_true hname, ?_⟩
  split <;> rfl

/-! What the templates say. -/

/-- The rounds a loop has, by the tasks of its check that there are. -/
def Rounds (t : TemplateSpec) (name : String) (output : Dict) : Prop :=
  ∃ loop ∈ t.loops, loop.check = name ∧ ∀ jobs, reaction t jobs name output =
    if 3 ≤ countOf jobs name then .gaveUp else .again loop

structure Rounded (t : TemplateSpec) : Prop where
  reviews : ∀ loop ∈ t.loops, ((t.loopBody loop).countP fun n => n.name = "review") = 1
  approvals : ∀ loop ∈ t.loops, ((t.loopBody loop).countP fun n => n.name = "approve") =
    if loop.check = "approve" then 1 else 0
  work : ∀ jobs name output, name ∉ decided → reaction t jobs name output = .unlocked
  publish : ∀ jobs output, reaction t jobs "publish" output = .unlocked
  accepted : ∀ jobs report,
    reaction t jobs "review" (EditorVerdict.accept report).output = .unlocked
  revised : ∀ issuesCount backTo, Rounds t "review" (EditorVerdict.revise issuesCount backTo).output
  passed : ∀ jobs, reaction t jobs "chief_review"
    [("verdict", .str "accept"), ("dropped", .bool false)] = .unlocked
  vetoed : ∀ jobs dropped, reaction t jobs "chief_review"
    [("verdict", .str "veto"), ("dropped", .bool dropped)] = .halted
  dropped : ∀ jobs verdict, reaction t jobs "chief_review"
    [("verdict", .str verdict), ("dropped", .bool true)] = .halted
  sentBack : Rounds t "chief_review" [("verdict", .str "revise"), ("dropped", .bool false)]
  approved : ∀ jobs, reaction t jobs "approve" PersonVerdict.approve.output = .unlocked
  returned : ∀ reason, Rounds t "approve" (PersonVerdict.revise reason).output

theorem rounds_of_find {name : String} {output : Dict} {loop : Loop}
    (hhalt : (t.halts.any fun h => h.check = name && h.fires output) = false)
    (hfind : (t.loops.find? fun l => l.check = name && l.again output) = some loop)
    (hmax : loop.maxRounds = 2) : Rounds t name output := by
  have hcheck : loop.check = name := by
    have hp := List.find?_some hfind
    simp only [Bool.and_eq_true, decide_eq_true_eq] at hp
    exact hp.1
  refine ⟨loop, List.mem_of_find?_eq_some hfind, hcheck, ?_⟩
  intro jobs
  simp only [reaction, hhalt, hfind, hmax, hcheck, Bool.false_eq_true, if_false]
  by_cases h : 3 ≤ countOf jobs name
  · rw [if_pos h, if_pos]
    show (2 : Int) ≤ (countOf jobs name : Int) - 1
    omega
  · rw [if_neg h, if_neg]
    show ¬ (2 : Int) ≤ (countOf jobs name : Int) - 1
    omega

theorem unlocked_of_find {name : String} {output : Dict}
    (hhalt : (t.halts.any fun h => h.check = name && h.fires output) = false)
    (hfind : (t.loops.find? fun l => l.check = name && l.again output) = none)
    (jobs : List Job) : reaction t jobs name output = .unlocked := by
  simp only [reaction, hhalt, hfind, Bool.false_eq_true, if_false]

theorem halted_of_any {name : String} {output : Dict}
    (hhalt : (t.halts.any fun h => h.check = name && h.fires output) = true)
    (jobs : List Job) : reaction t jobs name output = .halted := by
  simp only [reaction, hhalt, if_true]

theorem not_decided {name : String} (h : name ∉ decided) :
    "review" ≠ name ∧ "chief_review" ≠ name ∧ "approve" ≠ name := by
  simp only [decided, List.mem_cons, List.not_mem_nil, or_false, not_or] at h
  exact ⟨fun he => h.1 he.symm, fun he => h.2.1 he.symm, fun he => h.2.2.1 he.symm⟩

theorem textOf_backTo (issuesCount : Nat) (backTo : String) :
    textOf (EditorVerdict.revise issuesCount backTo).output "back_to" = some backTo := rfl

theorem revise_revise (issuesCount : Nat) (backTo : String) :
    revise (EditorVerdict.revise issuesCount backTo).output = true := rfl

theorem chiefStops_dropped (verdict : String) :
    chiefStops [("verdict", .str verdict), ("dropped", .bool true)] = true := Bool.or_true _

/-! Both templates stop at the chief's word and go back from his desk and from a person alike; they
differ in where a review sends the article. -/

section Desk

variable {reviews : List Loop}

theorem find_of_ne_review {name : String} {output : Dict} (hname : name ≠ "review")
    (hcheck : ∀ loop ∈ reviews, loop.check = "review")
    (hloops : t.loops = reviews ++ [chiefLoop, approveLoop]) :
    (t.loops.find? fun l => l.check = name && l.again output) =
      [chiefLoop, approveLoop].find? fun l => l.check = name && l.again output := by
  have hnone : (reviews.find? fun l => l.check = name && l.again output) = none := by
    rw [List.find?_eq_none]
    intro loop hloop
    simp [hcheck loop hloop, hname.symm]
  rw [hloops, List.find?_append, hnone, Option.none_or]

theorem halts_of_desk (hhalts : t.halts = [chiefHalt]) (name : String) (output : Dict) :
    (t.halts.any fun h => h.check = name && h.fires output) =
      (decide ("chief_review" = name) && chiefStops output) := by
  rw [hhalts]
  simp [chiefHalt]

theorem rounded_of_desk (hhalts : t.halts = [chiefHalt])
    (hcheck : ∀ loop ∈ reviews, loop.check = "review")
    (hloops : t.loops = reviews ++ [chiefLoop, approveLoop])
    (hreviews : ∀ loop ∈ t.loops, ((t.loopBody loop).countP fun n => n.name = "review") = 1)
    (happrovals : ∀ loop ∈ t.loops, ((t.loopBody loop).countP fun n => n.name = "approve") =
      if loop.check = "approve" then 1 else 0)
    (haccepted : ∀ report, ∀ loop ∈ reviews,
      loop.again (EditorVerdict.accept report).output = false)
    (hrevised : ∀ issuesCount backTo,
      Rounds t "review" (EditorVerdict.revise issuesCount backTo).output) : Rounded t where
  reviews := hreviews
  approvals := happrovals
  work jobs name output h := by
    obtain ⟨h1, h2, h3⟩ := not_decided h
    apply unlocked_of_find
    · simp [halts_of_desk hhalts, h2]
    · rw [find_of_ne_review h1.symm hcheck hloops]
      simp [chiefLoop, approveLoop, h2, h3]
  publish jobs output := by
    apply unlocked_of_find
    · simp [halts_of_desk hhalts]
    · rw [find_of_ne_review (by decide) hcheck hloops]
      simp [chiefLoop, approveLoop]
  accepted jobs report := by
    apply unlocked_of_find
    · simp [halts_of_desk hhalts]
    · rw [hloops, List.find?_eq_none]
      intro loop hloop
      rcases List.mem_append.mp hloop with hr | hr
      · simp [haccepted report loop hr]
      · simp only [List.mem_cons, List.not_mem_nil, or_false] at hr
        rcases hr with rfl | rfl
        · simp [chiefLoop]
        · simp [approveLoop]
  revised := hrevised
  passed jobs := by
    apply unlocked_of_find
    · rw [halts_of_desk hhalts]; rfl
    · rw [find_of_ne_review (by decide) hcheck hloops]; rfl
  vetoed jobs dropped := by
    apply halted_of_any
    rw [halts_of_desk hhalts]; rfl
  dropped jobs verdict := by
    apply halted_of_any
    simp [halts_of_desk hhalts, chiefStops_dropped]
  sentBack := by
    apply @rounds_of_find _ _ _ chiefLoop ?_ ?_ rfl
    · rw [halts_of_desk hhalts]; rfl
    · rw [find_of_ne_review (by decide) hcheck hloops]; rfl
  approved jobs := by
    apply unlocked_of_find
    · rw [halts_of_desk hhalts]; rfl
    · rw [find_of_ne_review (by decide) hcheck hloops]; rfl
  returned reason := by
    apply @rounds_of_find _ _ _ approveLoop ?_ ?_ rfl
    · rw [halts_of_desk hhalts]; rfl
    · rw [find_of_ne_review (by decide) hcheck hloops]; rfl

end Desk

theorem rounded_story : Rounded storyTemplate.toTemplateSpec := by
  refine @rounded_of_desk _ [reviewLoop "analysis" toAnalyst, reviewLoop "draft" toWriter]
    rfl ?_ rfl ?_ ?_ ?_ ?_
  · decide +kernel
  · decide +kernel
  · decide +kernel
  · intro report loop hloop
    simp only [List.mem_cons, List.not_mem_nil, or_false] at hloop
    rcases hloop with rfl | rfl <;> rfl
  · intro issuesCount backTo
    by_cases hb : backTo = "analyst"
    · subst hb
      exact @rounds_of_find _ _ _ (reviewLoop "analysis" toAnalyst) rfl rfl rfl
    · have hanalyst : toAnalyst (EditorVerdict.revise issuesCount backTo).output = false := by
        simp [toAnalyst, textOf_backTo, hb]
      have hwriter : toWriter (EditorVerdict.revise issuesCount backTo).output = true := by
        simp [toWriter, textOf_backTo, hb, revise_revise]
      apply @rounds_of_find _ _ _ (reviewLoop "draft" toWriter) rfl ?_ rfl
      simp [storyTemplate, reviewLoop, hanalyst, hwriter]

theorem rounded_revision : Rounded revisionTemplate.toTemplateSpec := by
  refine @rounded_of_desk _ [reviewLoop "draft" revise] rfl ?_ rfl ?_ ?_ ?_ ?_
  · decide +kernel
  · decide +kernel
  · decide +kernel
  · intro report loop hloop
    rw [List.mem_singleton.mp hloop]
    rfl
  · intro issuesCount backTo
    exact @rounds_of_find _ _ _ (reviewLoop "draft" revise) rfl rfl rfl

end Autora.Newsroom
