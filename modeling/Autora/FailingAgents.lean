import Autora.Reviews

/-! The agents that governance pauses, by the states and errors of their runs. -/

namespace Autora.Governance

/-- A row of `agent_runs`: its state, and the class in its error. -/
structure RunRow where
  state : AgentRunState
  errorClass : Option String
  deriving DecidableEq, Repr

/-- The runs of an agent, newest first. -/
abbrev History := List RunRow

namespace RunRow

/-- `_is_infrastructure`. -/
def isInfrastructure (r : RunRow) : Bool :=
  notTheAgentsFault.any fun fault => fault.isPrefixOf (r.errorClass.getD "")

/-- The rows the loop of `_runs_that_judge` passes over. -/
def dropped (r : RunRow) : Bool := r.state = .failed && r.isInfrastructure

/-- An end that says something about the agent. -/
def judges (r : RunRow) : Bool :=
  r.state = .completed || (r.state = .failed && !r.isInfrastructure)

/-- Aborted by the task manager, or not ended. -/
def cutShort (r : RunRow) : Bool := r.state ≠ .completed && r.state ≠ .failed

def asRun (r : RunRow) : AgentRun := ⟨r.state = .failed, r.errorClass.getD ""⟩

theorem judges_of_kept {r : RunRow} (h : r.dropped = false) (hc : r.cutShort = false) :
    r.judges = true := by
  cases hs : r.state <;> simp_all [dropped, cutShort, judges]

theorem failed_of_dropped {r : RunRow} (h : r.dropped = true) : r.judges = false := by
  simp_all [dropped, judges]

theorem not_failed_of_cutShort {r : RunRow} (h : r.cutShort = true) :
    r.state ≠ .failed ∧ r.judges = false := by
  simp_all [cutShort, judges]

end RunRow

/-- The loop of `_runs_that_judge` over the rows. -/
def collect (judged : List AgentRunState) : History → List AgentRunState
  | [] => judged
  | r :: rows =>
    if r.dropped then collect judged rows
    else if (judged ++ [r.state]).length = failuresBeforePause then judged ++ [r.state]
    else collect (judged ++ [r.state]) rows

/-- `_runs_that_judge`. -/
def judgedStates (h : History) : List AgentRunState := collect [] (h.take (failuresBeforePause * 4))

/-- What `_failing_agents` asks before it pauses. -/
def failsAgain (h : History) : Bool :=
  !((judgedStates h).length < failuresBeforePause) && !(judgedStates h).any (· ≠ .failed)

def Agent.of (companyId : Id) (status : AgentStatus) (h : History) : Agent :=
  ⟨companyId, status, h.map RunRow.asRun⟩

theorem collect_eq (h : History) (judged : List AgentRunState)
    (hj : judged.length < failuresBeforePause) :
    collect judged h = (judged ++ (h.filter fun r => !r.dropped).map RunRow.state).take
      failuresBeforePause := by
  induction h generalizing judged with
  | nil =>
    have hle := Nat.le_of_lt hj
    simp [collect, List.take_of_length_le hle]
  | cons r rows ih =>
    by_cases hd : r.dropped = true
    · simp only [collect, hd, if_true]
      simpa [hd] using ih judged hj
    · have hs : judged ++ ((r :: rows).filter fun r => !r.dropped).map RunRow.state =
          (judged ++ [r.state]) ++ (rows.filter fun r => !r.dropped).map RunRow.state := by
        simp [hd]
      rw [hs]
      by_cases hl : (judged ++ [r.state]).length = failuresBeforePause
      · simp only [collect, hd, hl]
        rw [List.take_append_of_le_length (Nat.le_of_eq hl.symm),
          List.take_of_length_le (Nat.le_of_eq hl)]
        simp
      · have hlt : (judged ++ [r.state]).length < failuresBeforePause := by
          simp only [List.length_append, List.length_singleton] at hl ⊢
          omega
        simp only [collect, hd, hl]
        simpa using ih _ hlt

/-- The first `n` states are there, and every one is a failure. -/
def AllFailed (n : Nat) (rows : History) : Prop :=
  (rows.take n).length = n ∧ ∀ r ∈ rows.take n, r.state = .failed

theorem allFailed_zero {rows : History} : AllFailed 0 rows := by
  simp [AllFailed]

theorem not_allFailed_nil {n : Nat} : ¬ AllFailed (n + 1) [] := by
  simp [AllFailed]

theorem allFailed_cons {n : Nat} {r : RunRow} {rows : History} :
    AllFailed (n + 1) (r :: rows) ↔ r.state = .failed ∧ AllFailed n rows := by
  simp only [AllFailed, List.take_succ_cons, List.length_cons, List.forall_mem_cons]
  constructor
  · rintro ⟨hl, hr, h⟩
    exact ⟨hr, by omega, h⟩
  · rintro ⟨hr, hl, h⟩
    exact ⟨by omega, hr, h⟩

theorem failsAgain_iff {h : History} :
    failsAgain h = true ↔ AllFailed failuresBeforePause
      ((h.take (failuresBeforePause * 4)).filter fun r => !r.dropped) := by
  have hc := collect_eq (h.take (failuresBeforePause * 4)) [] (by decide)
  rw [List.nil_append, ← List.map_take] at hc
  simp only [failsAgain, judgedStates, hc, AllFailed, List.length_map, Bool.and_eq_true,
    Bool.not_eq_true', decide_eq_false_iff_not, List.any_eq_false, List.mem_map, Nat.not_lt]
  constructor
  · rintro ⟨hl, hf⟩
    refine ⟨Nat.le_antisymm (List.length_take_le _ _) hl, fun r hr => ?_⟩
    have := hf r.state ⟨r, hr, rfl⟩
    simpa using this
  · rintro ⟨hl, hf⟩
    refine ⟨Nat.le_of_eq hl.symm, ?_⟩
    rintro s ⟨r, hr, rfl⟩
    simp [hf r hr]

theorem keepsFailing_of {companyId : Id} {status : AgentStatus} (h : History) :
    keepsFailing (Agent.of companyId status h) = failsAgain h := by
  have hf : ((h.take 12).map RunRow.asRun).filter (fun r => !(r.failed && isInfrastructure r)) =
      ((h.take 12).filter fun r => !r.dropped).map RunRow.asRun := by
    rw [List.filter_map]
    rfl
  rw [Bool.eq_iff_iff, failsAgain_iff]
  simp only [keepsFailing, runsThatJudge, Agent.of, failuresBeforePause, ← List.map_take, hf,
    AllFailed, List.length_map, List.all_map, List.all_eq_true, decide_eq_true_eq, Nat.reduceMul]
  simp [RunRow.asRun]

/-! The law. -/

/-- The last three runs that judge the agent all failed. -/
def LastJudgedFailed (h : History) : Prop :=
  AllFailed failuresBeforePause (h.filter RunRow.judges)

/-- The `n`th run that judges the agent is one of the newest `k`, and none after it was cut
short. -/
def ExposedAt (n k : Nat) (h : History) : Prop :=
  ∀ newer r older, h = newer ++ r :: older → r.judges = true →
    (newer.filter RunRow.judges).length + 1 = n →
    newer.length < k ∧ ∀ x ∈ newer, x.cutShort = false

/-- The third run that judges the agent is one of the newest twelve, and none after it was
aborted or has not ended. -/
def Exposed (h : History) : Prop := ExposedAt failuresBeforePause (failuresBeforePause * 4) h

theorem AllFailed.split {h : History} {n : Nat} (hf : AllFailed (n + 1) (h.filter RunRow.judges)) :
    ∃ newer r older, h = newer ++ r :: older ∧ r.judges = true ∧
      (newer.filter RunRow.judges).length + 1 = n + 1 := by
  induction h generalizing n with
  | nil => exact absurd hf not_allFailed_nil
  | cons r rows ih =>
    by_cases hj : r.judges = true
    · rw [List.filter_cons_of_pos hj, allFailed_cons] at hf
      cases n with
      | zero => exact ⟨[], r, rows, rfl, hj, rfl⟩
      | succ n =>
        obtain ⟨newer, x, older, rfl, hx, hn⟩ := ih hf.2
        refine ⟨r :: newer, x, older, rfl, hx, ?_⟩
        rw [List.filter_cons_of_pos hj, List.length_cons, hn]
    · rw [List.filter_cons_of_neg hj] at hf
      obtain ⟨newer, x, older, rfl, hx, hn⟩ := ih hf
      refine ⟨r :: newer, x, older, rfl, hx, ?_⟩
      rw [List.filter_cons_of_neg hj, hn]

theorem exposedAt_cons {n k : Nat} {r : RunRow} {rows : History} (hr : r.cutShort = false) :
    ExposedAt (n + 1) (k + 1) (r :: rows) ↔
      ExposedAt (if r.judges then n else n + 1) k rows := by
  constructor
  · intro h newer x older hs hx hn
    have hlen : ((r :: newer).filter RunRow.judges).length + 1 = n + 1 := by
      by_cases hj : r.judges = true
      · rw [if_pos hj] at hn
        rw [List.filter_cons_of_pos hj, List.length_cons, hn]
      · rw [if_neg hj] at hn
        rw [List.filter_cons_of_neg hj, hn]
    have hc := h (r :: newer) x older (by rw [hs]; rfl) hx hlen
    refine ⟨?_, fun y hy => hc.2 y (List.mem_cons_of_mem r hy)⟩
    have hk := hc.1
    rw [List.length_cons] at hk
    omega
  · intro h newer x older hs hx hn
    cases newer with
    | nil => exact ⟨Nat.succ_pos k, fun y hy => absurd hy List.not_mem_nil⟩
    | cons y newer =>
      rw [List.cons_append, List.cons.injEq] at hs
      obtain ⟨rfl, rfl⟩ := hs
      have hlen : (newer.filter RunRow.judges).length + 1 = if r.judges then n else n + 1 := by
        by_cases hj : r.judges = true
        · rw [List.filter_cons_of_pos hj, List.length_cons] at hn
          rw [if_pos hj]
          omega
        · rw [List.filter_cons_of_neg hj] at hn
          rw [if_neg hj, hn]
      obtain ⟨hk, hc⟩ := h newer x older rfl hx hlen
      exact ⟨by rw [List.length_cons]; omega, List.forall_mem_cons.mpr ⟨hr, hc⟩⟩

/-- What is read of the newest `k` runs: the `n` last verdicts, if nothing stands before them. -/
theorem allFailed_read_iff (h : History) : ∀ n k : Nat,
    AllFailed n ((h.take k).filter fun r => !r.dropped) ↔
      AllFailed n (h.filter RunRow.judges) ∧ ExposedAt n k h := by
  induction h with
  | nil =>
    intro n k
    cases n with
    | zero => simp [allFailed_zero, ExposedAt]
    | succ n => simp [not_allFailed_nil]
  | cons r rows ih =>
    intro n k
    cases n with
    | zero => simp [allFailed_zero, ExposedAt]
    | succ n =>
      cases k with
      | zero =>
        refine iff_of_false not_allFailed_nil ?_
        rintro ⟨hf, he⟩
        obtain ⟨newer, x, older, hs, hx, hn⟩ := hf.split
        exact Nat.not_lt_zero _ (he newer x older hs hx hn).1
      | succ k =>
        by_cases hc : r.cutShort = true
        · -- what was cut short stands where a failure would have to
          obtain ⟨hs, hj⟩ := RunRow.not_failed_of_cutShort hc
          have hd : (!r.dropped) = true := by simp [RunRow.dropped, hs]
          refine iff_of_false ?_ ?_
          · rw [List.take_succ_cons, List.filter_cons_of_pos (by exact hd), allFailed_cons]
            exact fun h => hs h.1
          · rintro ⟨hf, he⟩
            rw [List.filter_cons_of_neg (by simp [hj])] at hf
            obtain ⟨newer, x, older, rfl, hx, hn⟩ := hf.split
            have hlen : ((r :: newer).filter RunRow.judges).length + 1 = n + 1 := by
              rw [List.filter_cons_of_neg (by simp [hj]), hn]
            have := (he (r :: newer) x older rfl hx hlen).2 r List.mem_cons_self
            rw [hc] at this
            cases this
        · rw [Bool.not_eq_true] at hc
          rw [exposedAt_cons hc, List.take_succ_cons]
          by_cases hd : r.dropped = true
          · have hj := RunRow.failed_of_dropped hd
            rw [List.filter_cons_of_neg (by simp [hd]), List.filter_cons_of_neg (by simp [hj]),
              if_neg (by simp [hj])]
            exact ih (n + 1) k
          · rw [Bool.not_eq_true] at hd
            have hj := RunRow.judges_of_kept hd hc
            rw [List.filter_cons_of_pos (by simp [hd]), List.filter_cons_of_pos hj, if_pos hj,
              allFailed_cons, allFailed_cons, ih n k, and_assoc]

theorem failsAgain_iff_exposed {h : History} :
    failsAgain h = true ↔ LastJudgedFailed h ∧ Exposed h :=
  failsAgain_iff.trans (allFailed_read_iff h _ _)

variable {F : Type} {cycle : Cycle} {w : Company F} {done : Governed F} {i : Id}

def Company.pauses (w : Company F) (i : Id) : Prop :=
  ∃ a, w.agents[i]? = some a ∧ a.status = .paused

/-- An active agent of the cycle's company, and no answer recorded for the command that would
pause it. -/
structure Pausable (cycle : Cycle) (w : Company F) (i : Id) (a : Agent) : Prop where
  row : w.agents[i]? = some a
  company : a.companyId = cycle.companyId
  active : a.status = .active
  unasked : w.commands.lookup (cycle.id, .agent i) = none

theorem submit_pauses {a : Agent} (h : Pausable cycle w i a) :
    (submit cycle w (.agent i) (pauseAgentHandler cycle i)).1.pauses i := by
  have hlt := (List.getElem?_eq_some_iff.mp h.row).1
  refine ⟨{ a with status := .paused }, ?_, rfl⟩
  simp only [submit, h.unasked, pauseAgentHandler, h.row, h.company, h.active, and_self, if_true]
  exact List.getElem?_set_self hlt

theorem submit_other {a : Agent} {j : Id} (hij : j ≠ i) (h : Pausable cycle w i a) :
    Pausable cycle (submit cycle w (.agent j) (pauseAgentHandler cycle j)).1 i a := by
  have hkey : ∀ b, (w.commands ++ [((cycle.id, Target.agent j), b)]).lookup
      (cycle.id, Target.agent i) = none := by
    intro b
    rw [lookup_recorded, h.unasked, if_neg (by simp [Ne.symm hij])]
    rfl
  unfold submit
  split
  · exact h
  · split
    · next t ht =>
      unfold pauseAgentHandler at ht
      split at ht
      · split at ht
        · cases ht
          exact ⟨(List.getElem?_set_ne hij).trans h.row, h.company, h.active, hkey true⟩
        · cases ht
      · cases ht
    · exact ⟨h.row, h.company, h.active, hkey false⟩

theorem submit_keeps_paused {j : Id} (h : w.pauses i) :
    (submit cycle w (.agent j) (pauseAgentHandler cycle j)).1.pauses i := by
  obtain ⟨a, ha, hs⟩ := h
  unfold submit
  split
  · exact ⟨a, ha, hs⟩
  · split
    · next t ht =>
      unfold pauseAgentHandler at ht
      split at ht
      · next b hb =>
        split at ht
        · next hc =>
          have hij : j ≠ i := by
            rintro rfl
            rw [ha] at hb
            cases hb
            rw [hs] at hc
            cases hc.2
          cases ht
          exact ⟨a, (List.getElem?_set_ne hij).trans ha, hs⟩
        · cases ht
      · cases ht
    · exact ⟨a, ha, hs⟩

theorem pauseFailing_keeps_paused (l : List (Id × Agent)) (h : w.pauses i) :
    (pauseFailing cycle l (w, done)).1.pauses i := by
  induction l generalizing w done with
  | nil => exact h
  | cons x l ih =>
    obtain ⟨j, b⟩ := x
    by_cases hk : keepsFailing b = true
    · simp only [pauseFailing, hk, if_true]
      exact ih (submit_keeps_paused h)
    · simp only [pauseFailing, hk]
      exact ih h

/-- An agent is paused exactly when it is among those whose runs keep failing. -/
theorem pauseFailing_pauses {a : Agent} (l : List (Id × Agent)) (h : Pausable cycle w i a) :
    (pauseFailing cycle l (w, done)).1.pauses i ↔ ∃ b, (i, b) ∈ l ∧ keepsFailing b = true := by
  induction l generalizing w done with
  | nil =>
    refine iff_of_false ?_ (by simp)
    rintro ⟨b, hb, hs⟩
    have hba : b = a := Option.some.inj (hb.symm.trans h.row)
    rw [hba, h.active] at hs
    cases hs
  | cons x l ih =>
    obtain ⟨j, b⟩ := x
    by_cases hk : keepsFailing b = true
    · simp only [pauseFailing, hk, if_true]
      by_cases hji : j = i
      · subst hji
        exact iff_of_true (pauseFailing_keeps_paused l (submit_pauses h))
          ⟨b, List.mem_cons_self, hk⟩
      · rw [ih (submit_other hji h)]
        simp [Ne.symm hji]
    · simp only [pauseFailing, hk]
      refine (ih h).trans (exists_congr fun c => and_congr_left fun hc => ?_)
      have hne : (i, c) ≠ (j, b) := by
        intro he
        cases he
        exact hk hc
      simp [hne]

/-- Governance pauses an agent with these runs exactly when `due` holds. -/
def PausesWhen (h : History) (due : Prop) : Prop :=
  ∀ (F : Type) (cycle : Cycle) (w : Company F) (done : Governed F) (i : Id),
    Pausable cycle w i (Agent.of cycle.companyId .active h) →
      ((failingAgents cycle (w, done)).1.pauses i ↔ due)

theorem pausesWhen_failsAgain (h : History) : PausesWhen h (failsAgain h = true) := by
  intro F cycle w done i hp
  unfold failingAgents
  rw [pauseFailing_pauses _ hp]
  constructor
  · rintro ⟨b, hb, hk⟩
    have hrow := (mem_activeAgents.mp hb).1
    have hb : Agent.of cycle.companyId .active h = b := Option.some.inj (hp.row.symm.trans hrow)
    rw [← hb] at hk
    exact (keepsFailing_of h).symm.trans hk
  · intro hk
    have hmem : (i, Agent.of cycle.companyId .active h) ∈ activeAgents cycle w :=
      mem_activeAgents.mpr ⟨hp.row, hp.company, hp.active⟩
    exact ⟨_, hmem, (keepsFailing_of h).trans hk⟩

/-- A company of one agent. -/
def soloCompany (h : History) : Company Unit :=
  ⟨[], [], [Agent.of 0 .active h], [], [], [], fun _ => none⟩

theorem PausesWhen.unique {h : History} {due due' : Prop} (hd : PausesWhen h due)
    (hd' : PausesWhen h due') : due ↔ due' := by
  have hp : Pausable ⟨0, 0, 0⟩ (soloCompany h) 0 (Agent.of 0 .active h) := ⟨rfl, rfl, rfl, rfl⟩
  exact (hd Unit ⟨0, 0, 0⟩ (soloCompany h) {} 0 hp).symm.trans
    (hd' Unit ⟨0, 0, 0⟩ (soloCompany h) {} 0 hp)

theorem pauses_when_exposed (h : History) :
    PausesWhen h (LastJudgedFailed h) ↔ (LastJudgedFailed h → Exposed h) := by
  constructor
  · intro hp hl
    have hiff := (pausesWhen_failsAgain h).unique hp
    exact (failsAgain_iff_exposed.mp (hiff.mpr hl)).2
  · intro he F cycle w done i hp
    rw [pausesWhen_failsAgain h F cycle w done i hp, failsAgain_iff_exposed]
    exact and_iff_left_of_imp he

/-- Three failures of the agent's own, with a run the task manager aborted after the first. -/
def abortedBetween : History :=
  [⟨.failed, some "ToolError"⟩, ⟨.failed, some "ToolError"⟩, ⟨.aborted, some "Aborted:timeout"⟩,
    ⟨.failed, some "ToolError"⟩]

theorem aborted_run_shields :
    ¬ ∀ h : History, PausesWhen h (LastJudgedFailed h) := by
  intro hall
  have hiff := (pausesWhen_failsAgain abortedBetween).unique (hall abortedBetween)
  have hcode : failsAgain abortedBetween = false := by decide +kernel
  have hdue : LastJudgedFailed abortedBetween := by
    have hj : abortedBetween.filter RunRow.judges =
        List.replicate 3 ⟨.failed, some "ToolError"⟩ := by decide +kernel
    rw [LastJudgedFailed, hj]
    exact ⟨rfl, by decide⟩
  rw [hiff.mpr hdue] at hcode
  cases hcode

end Autora.Governance
