import Autora.BoardBounds
import Autora.Traces

/-! A workflow run is bounded whatever its tasks answer: in the rounds of each check,
in its rounds, in its tasks and in how often one of them ends. -/

namespace Autora

open Systems

/-- The round an operation starts: its run and its check. -/
def roundStarted (e : WorkflowEngine) (s : Runtime) (op : Op) : Option (Id × String) :=
  if (op.exec e e.bound s.db).isOk = true then
    op.finishes?.bind fun (task, output) => (s.db.task? task).bind fun t =>
      t.workflowRunId.bind fun run => match e.verdict s.db { t with output := output } with
        | .again _ _ loop => some (run, loop.check)
        | _ => none
  else none

/-- The tasks of a run that have ended. -/
def World.ended (w : World) (run : Id) : Nat := (w.tasksOf run).countP fun t => t.state.final

/-! What is counted over the steps of a run of the system. -/

section Counts

variable (e : WorkflowEngine) (h : List (System.Taken Runtime Op)) (run : Id)

def ownRounds (check : String) : Nat :=
  h.countP fun x => roundStarted e x.before x.label = some (run, check)

def allRounds : Nat := h.countP fun x => (roundStarted e x.before x.label).any (·.1 = run)

/-- The steps in which a task of the run ends. -/
def endings : Nat := h.countP fun x => x.before.db.ended run < x.after.db.ended run

end Counts

/-- The rounds, tasks and endings of a run when each check has at most `most` rounds. -/
structure RunBounded (e : WorkflowEngine) (h : List (System.Taken Runtime Op)) (s : Runtime)
    (r : WorkflowRun) (t : WorkflowTemplate) (most : String → Int) : Prop where
  own : ∀ check ∈ t.checks, (ownRounds e h r.id check : Int) ≤ most check
  rounds : (allRounds e h r.id : Int) ≤ (t.checks.map most).sum
  tasks : ((s.db.tasksOf r.id).length : Int) ≤ t.nodes.length * (1 + (t.checks.map most).sum)
  endings : (endings h r.id : Int) ≤ t.nodes.length * (1 + (t.checks.map most).sum)

variable {e : WorkflowEngine} {s s' : Runtime} {op : Op}

theorem length_tasksOf (w : World) (run : Id) :
    (w.tasksOf run).length = (namesOf w.board.cards run).length := by
  rw [namesOf, ofRun_board]
  simp

theorem ended_eq (w : World) (run : Id) : w.ended run = endedOf w.board.cards run := by
  rw [endedOf, ofRun_board, List.countP_map]
  rfl

/-- On the board a round is a round of the run and the check it says. -/
theorem roundStarted_spec (hok : ∃ r, op.exec e e.bound s.db = .ok r) {ev : Event}
    (hev : op.event? e s.db = some ev) :
    ∃ id t run, s.db.task? id = some t ∧ t.workflowRunId = some run ∧
      ((∃ loop, ev = .round id loop ∧ roundStarted e s op = some (run, loop.check)) ∨
        ((∀ id loop, ev ≠ .round id loop) ∧ roundStarted e s op = none)) := by
  obtain ⟨r, hr⟩ := hok
  simp only [Op.event?, Option.bind_eq_some_iff, Option.map_eq_some_iff] at hev
  obtain ⟨⟨id, output⟩, hop, t, ht, run, hrun, rfl⟩ := hev
  refine ⟨id, t, run, ht, hrun, ?_⟩
  have hid := (s.db.mem_of_task? id ht).2
  have hstart : roundStarted e s op = match e.verdict s.db { t with output := output } with
      | .again _ _ loop => some (run, loop.check)
      | _ => none := by
    simp only [roundStarted, hr, hop, ht, Option.bind_some]
    exact congrArg (fun o => Option.bind o _) hrun
  rw [hstart]
  cases e.verdict s.db { t with output := output } with
  | again _ _ loop => exact .inl ⟨loop, rfl, rfl⟩
  | carryOn => exact .inr ⟨fun _ _ hh => (by cases hh), rfl⟩
  | halted _ => exact .inr ⟨fun _ _ hh => (by cases hh), rfl⟩
  | exhausted _ => exact .inr ⟨fun _ _ hh => (by cases hh), rfl⟩

theorem roundStarted_none (hev : op.event? e s.db = none) : roundStarted e s op = none := by
  unfold roundStarted
  split
  · simp only [Op.event?] at hev
    cases hop : op.finishes? with
    | none => rfl
    | some p =>
      obtain ⟨task, output⟩ := p
      simp only [hop, Option.bind_some] at hev ⊢
      cases ht : s.db.task? task with
      | none => rfl
      | some t =>
        rw [ht, Option.bind_some, Option.map_eq_none_iff] at hev
        rw [Option.bind_some]
        exact congrArg (fun o => Option.bind o _) hev
  · rfl

theorem roundStarted_failed {err : Err} (h : op.exec e e.bound s.db = .error err) :
    roundStarted e s op = none := by
  unfold roundStarted
  rw [h]
  rfl

/-! Along a history. -/

theorem bumpOwn_snoc (h : List (System.Taken Runtime Op)) {x : System.Taken Runtime Op}
    {run : Id} {check : String} (hx : roundStarted e x.before x.label = some (run, check)) :
    ownRounds e (h ++ [x]) = bumpOwn (ownRounds e h) run check ∧
      allRounds e (h ++ [x]) = bumpTotal (allRounds e h) run := by
  refine ⟨funext fun i => funext fun n => ?_, funext fun i => ?_⟩
  · rw [ownRounds, List.countP_append, List.countP_singleton, hx, bumpOwn, ownRounds]
    by_cases hi : i = run ∧ n = check
    · simp [hi]
    · have hne : ¬ (some (run, check) = some (i, n)) := by
        intro hh
        simp only [Option.some.injEq, Prod.mk.injEq] at hh
        exact hi ⟨hh.1.symm, hh.2.symm⟩
      simp [hi, hne]
  · rw [allRounds, List.countP_append, List.countP_singleton, hx, bumpTotal, allRounds]
    by_cases hi : i = run
    · simp [hi]
    · simp [hi, Ne.symm hi]

theorem none_snoc (h : List (System.Taken Runtime Op)) {x : System.Taken Runtime Op}
    (hx : roundStarted e x.before x.label = none) :
    ownRounds e (h ++ [x]) = ownRounds e h ∧ allRounds e (h ++ [x]) = allRounds e h := by
  refine ⟨funext fun i => funext fun n => ?_, funext fun i => ?_⟩
  · rw [ownRounds, List.countP_append, List.countP_singleton, hx]
    simp [ownRounds]
  · rw [allRounds, List.countP_append, List.countP_singleton, hx]
    simp [allRounds]

theorem CalmPath.ledger {reg : String → Option WorkflowTemplate} {own : Id → String → Nat}
    {total : Id → Nat} {b b' : Board} (hp : CalmPath reg b b') (hs : Shape reg b)
    (h : Ledger reg own total b) : Ledger reg own total b' := by
  have hstep : ∀ b ev b', (Shape reg b ∧ Ledger reg own total b) → ev.calm = true →
      (boards reg).step b ev b' → Shape reg b' ∧ Ledger reg own total b' := by
    intro b ev b' hb hev hst
    refine ⟨BoardStep.shape hb.1 hst, hb.2.other hb.1 hst fun id loop he => ?_⟩
    rw [he] at hev
    cases hev
  exact (System.Path.invariant hstep hp ⟨hs, h⟩).2

/-- What holds along a history: the ledger, and no more endings than ended tasks. -/
structure Accounts (e : WorkflowEngine) (h : List (System.Taken Runtime Op)) (s : Runtime) :
    Prop where
  keyed : Keyed s.db
  shape : Shape e.templates.get s.db.board
  ledger : Ledger e.templates.get (ownRounds e h) (allRounds e h) s.db.board
  endings : ∀ run, endings h run ≤ s.db.ended run

theorem endings_snoc {h : List (System.Taken Runtime Op)} {x : System.Taken Runtime Op}
    {run : Id} (hh : endings h run ≤ x.before.db.ended run)
    (hmono : x.before.db.ended run ≤ x.after.db.ended run) :
    endings (h ++ [x]) run ≤ x.after.db.ended run := by
  rw [Autora.endings, List.countP_append, List.countP_singleton]
  rw [Autora.endings] at hh
  by_cases hlt : x.before.db.ended run < x.after.db.ended run
  · simp only [hlt, decide_true, if_true]
    omega
  · simp only [hlt, decide_false, Bool.false_eq_true, if_false]
    omega

theorem Accounts.step {h : List (System.Taken Runtime Op)} (ha : Accounts e h s)
    (hc : op.Called s) (ho : op.Outside s.db) :
    Accounts e (h ++ [⟨s, op, s.after e e.bound op⟩]) (s.after e e.bound op) := by
  obtain ⟨hk, hs, hl, hend⟩ := ha
  rcases after_cases e e.bound s op with ⟨claim, w, hret, he⟩ | ⟨⟨err, herr⟩, he⟩
  · have hr := exec_refines hk hs hc ho hret
    rw [he]
    cases hev : op.event? e s.db with
    | none =>
      have hp := hr.calm hev
      obtain ⟨h₁, h₂⟩ := none_snoc (e := e) h (x := ⟨s, op, ⟨w, s.claims ++ claim.toList⟩⟩)
        (roundStarted_none hev)
      refine ⟨hr.keyed, hp.shape hs, ?_, fun run => endings_snoc (hend run) ?_⟩
      · rw [h₁, h₂]
        exact hp.ledger hs hl
      · have hmono : ∀ b ev b', (Shape e.templates.get b ∧ s.db.ended run ≤ endedOf b.cards run) →
            ev.calm = true → (boards e.templates.get).step b ev b' →
              Shape e.templates.get b' ∧ s.db.ended run ≤ endedOf b'.cards run :=
          fun b ev b' hb _ hst =>
            ⟨BoardStep.shape hb.1 hst, hb.2.trans (ended_mono hb.1 hst run)⟩
        have hle := System.Path.invariant hmono hp ⟨hs, (ended_eq s.db run).le⟩
        exact hle.2.trans (ended_eq w run).ge
    | some ev =>
      have hst := hr.step ev hev
      have hmono : ∀ run, s.db.ended run ≤ w.ended run := by
        intro run
        rw [ended_eq, ended_eq]
        exact ended_mono hs hst run
      refine ⟨hr.keyed, BoardStep.shape hs hst, ?_, fun run => endings_snoc (hend run) (hmono run)⟩
      obtain ⟨id, t, run, ht, hrun, ⟨loop, rfl, hstart⟩ | ⟨hno, hstart⟩⟩ :=
        roundStarted_spec ⟨_, hret⟩ hev
      · obtain ⟨h₁, h₂⟩ := bumpOwn_snoc h (x := ⟨s, op, ⟨w, s.claims ++ claim.toList⟩⟩) hstart
        rw [h₁, h₂]
        obtain ⟨c, hcm, _, rfl, rfl⟩ := World.card_of_task? ht hrun
        exact hl.of_round hs hcm hst
      · obtain ⟨h₁, h₂⟩ := none_snoc (e := e) h (x := ⟨s, op, ⟨w, s.claims ++ claim.toList⟩⟩) hstart
        rw [h₁, h₂]
        exact hl.other hs hst hno
  · rw [he]
    obtain ⟨h₁, h₂⟩ := none_snoc (e := e) h (x := ⟨s, op, s⟩) (roundStarted_failed herr)
    refine ⟨hk, hs, ?_, fun run => endings_snoc (hend run) (Nat.le_refl _)⟩
    rw [h₁, h₂]
    exact hl

theorem accounts (e : WorkflowEngine) {s₀ : Runtime} (h₀ : s₀.Fresh)
    {h : List (System.Taken Runtime Op)} (hh : (runtime e e.bound).History s₀ h s)
    (ho : ∀ x ∈ h, x.label.Outside x.before.db) : Accounts e h s := by
  induction hh with
  | nil =>
    have hreach : (runtime e e.bound).Reach (Meets e anyStep) s₀ := .init h₀
    obtain ⟨hk, _⟩ := runtime_refines (fun _ _ _ => trivial) hreach
    obtain ⟨ht, _, hr, _⟩ := h₀
    have hinit : (boards e.templates.get).init s₀.db.board := by
      constructor
      · simp [World.board, ht]
      · simp [World.board, hr]
    exact ⟨hk, boards_shape (.init hinit : (boards e.templates.get).Reach anyStep _),
      Ledger.init hinit, fun _ => Nat.zero_le _⟩
  | @snoc h t u op _ hstep ih =>
    obtain ⟨hc, rfl⟩ := hstep
    exact (ih fun x hx => ho x (List.mem_append_left _ hx)).step hc (ho _ List.mem_concat_self)

theorem sum_mono {f g : String → Int} {l : List String} (h : ∀ x ∈ l, f x ≤ g x) :
    (l.map f).sum ≤ (l.map g).sum := by
  induction l with
  | nil => exact le_refl _
  | cons x l ih =>
    have hx := h x (by simp)
    have hxs := ih fun y hy => h y (by simp [hy])
    simp only [List.map_cons, List.sum_cons]
    omega

theorem sum_cast (f : String → Nat) (xs : List String) :
    ((xs.map f).sum : Int) = (xs.map fun x => (f x : Int)).sum := by
  induction xs with
  | nil => rfl
  | cons x xs ih =>
    simp only [List.map_cons, List.sum_cons]
    omega

/-- A loop with a negative number of rounds has none. -/
theorem run_bounded (e : WorkflowEngine) (s₀ s : Runtime) (h : List (System.Taken Runtime Op))
    (h₀ : s₀.Fresh) (hh : (runtime e e.bound).History s₀ h s)
    (ho : ∀ x ∈ h, x.label.Outside x.before.db) :
    ∀ r ∈ s.db.workflowRuns, ∀ t, e.templates.get r.templateName = some t →
      RunBounded e h s r t fun check => max 0 (t.maxRounds check) := by
  obtain ⟨_, _, hl, hend⟩ := accounts e h₀ hh ho
  intro r hr t ht
  have hr' : r.card ∈ s.db.board.runs := List.mem_map_of_mem hr
  have hown : ∀ check, (ownRounds e h r.id check : Int) ≤ max 0 (t.maxRounds check) :=
    hl.bounded r.card hr' t ht
  have hsum : (allRounds e h r.id : Int) ≤ (t.checks.map fun c => max 0 (t.maxRounds c)).sum := by
    have h₁ : allRounds e h r.id ≤ (t.checks.map (ownRounds e h r.id)).sum :=
      hl.sum r.card hr' t ht
    have h₂ := sum_mono (l := t.checks) fun c _ => hown c
    rw [← sum_cast] at h₂
    omega
  have htasks : ((s.db.tasksOf r.id).length : Int) ≤
      t.nodes.length * (1 + (t.checks.map fun c => max 0 (t.maxRounds c)).sum) := by
    have h₁ : (namesOf s.db.board.cards r.id).length ≤ t.nodes.length * (1 + allRounds e h r.id) :=
      hl.size r.card hr' t ht
    rw [length_tasksOf]
    calc ((namesOf s.db.board.cards r.id).length : Int)
        ≤ t.nodes.length * (1 + (allRounds e h r.id : Int)) := by exact_mod_cast h₁
      _ ≤ t.nodes.length * (1 + (t.checks.map fun c => max 0 (t.maxRounds c)).sum) := by
        refine Int.mul_le_mul_of_nonneg_left ?_ (Int.natCast_nonneg _)
        omega
  refine ⟨fun check _ => hown check, hsum, htasks, ?_⟩
  have hle : endings h r.id ≤ (s.db.tasksOf r.id).length :=
    (hend r.id).trans List.countP_le_length
  omega

/-! One node that asks for another round of itself. -/

def redone (rounds : Int) : TemplateSpec where
  name := "redone"
  nodes := [serviceNode "draft" []]
  loops := [{ check := "draft", backTo := "draft", again := wantsMore, maxRounds := rounds }]

def redoneOnce : WorkflowTemplate := { redone 1 with valid := by decide }

/-- `max_rounds` is not checked to be positive. -/
def redoneNever : WorkflowTemplate := { redone (-1) with valid := by decide }

theorem run_exceeds_negative : ¬ ∀ (e : WorkflowEngine) (s₀ s : Runtime)
    (h : List (System.Taken Runtime Op)), s₀.Fresh → (runtime e e.bound).History s₀ h s →
      (∀ x ∈ h, x.label.Outside x.before.db) →
        ∀ r ∈ s.db.workflowRuns, ∀ t, e.templates.get r.templateName = some t →
          RunBounded e h s r t t.maxRounds := by
  intro hall
  let ops : List Op := [.instantiate "redone" 100 101 [] none]
  have hlegal : legal (engineOf redoneNever) anyStep Runtime.blank ops = true := by decide +kernel
  obtain ⟨hh, ho⟩ := history_trace hlegal
  have hrun : ∃ r ∈ (Runtime.blank.trace (engineOf redoneNever) ops).db.workflowRuns,
      r.templateName = "redone" ∧
        ((Runtime.blank.trace (engineOf redoneNever) ops).db.tasksOf r.id).length = 1 := by
    decide +kernel
  obtain ⟨r, hr, hname, hlen⟩ := hrun
  have hb := hall _ _ _ _ Runtime.blank_fresh hh ho r hr redoneNever (by rw [hname]; rfl)
  have htasks := hb.tasks
  rw [hlen] at htasks
  exact absurd htasks (by decide)

/-- Asked again and again, the node is redone once. -/
theorem run_bounded_redone : legal (engineOf redoneOnce) anyStep Runtime.blank
      [.instantiate "redone" 100 101 [] none, .completeWithoutRun 0 more none,
        .completeWithoutRun 2 more none] = true ∧
    ∀ r ∈ (Runtime.blank.trace (engineOf redoneOnce) [.instantiate "redone" 100 101 [] none,
        .completeWithoutRun 0 more none, .completeWithoutRun 2 more none]).db.workflowRuns,
      ∀ t, (engineOf redoneOnce).templates.get r.templateName = some t →
        RunBounded (engineOf redoneOnce) (steps (engineOf redoneOnce) Runtime.blank
          [.instantiate "redone" 100 101 [] none, .completeWithoutRun 0 more none,
            .completeWithoutRun 2 more none])
          (Runtime.blank.trace (engineOf redoneOnce) [.instantiate "redone" 100 101 [] none,
            .completeWithoutRun 0 more none, .completeWithoutRun 2 more none]) r t
          fun check => max 0 (t.maxRounds check) := by
  have hlegal : legal (engineOf redoneOnce) anyStep Runtime.blank
      [.instantiate "redone" 100 101 [] none, .completeWithoutRun 0 more none,
        .completeWithoutRun 2 more none] = true := by
    decide +kernel
  obtain ⟨hh, ho⟩ := history_trace hlegal
  refine ⟨hlegal, ?_⟩
  exact run_bounded _ _ _ _ Runtime.blank_fresh hh ho

end Autora
