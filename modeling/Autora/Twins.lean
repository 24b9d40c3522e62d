import Autora.Browser

/-! The two reducers side by side, over every run of events. -/

namespace Autora.Realtime

open Systems

variable {p q : RealtimeState} {s t : Browser.RealtimeState} {e : Event} {seq now : Nat} {id : Id}

theorem rtake_rtake {α : Type} {l : List α} {m n : Nat} (h : n ≤ m) :
    (l.rtake m).rtake n = l.rtake n := by
  unfold List.rtake
  rw [List.drop_drop, List.length_drop]
  congr 1
  omega

theorem rtake_snoc {α : Type} (l : List α) (x : α) (n : Nat) :
    (l.rtake n ++ [x]).rtake n = (l ++ [x]).rtake n := by
  unfold List.rtake
  rw [← List.drop_append_of_le_length (by omega), List.drop_drop]
  congr 1
  simp only [List.length_append, List.length_drop, List.length_singleton]
  omega

/-! Event kind by event kind. -/

theorem activity_agrees (payload : Payload) :
    Browser.activityByType.lookup payload.eventType = activityByClass payload := by
  cases payload <;> rfl

theorem taskState_agrees (payload : Payload) :
    Browser.taskStateByType.lookup payload.eventType = taskStateByClass payload := by
  cases payload <;> rfl

theorem lookup_other {β : Type} {eventType : String} (h : eventType ∉ reducedTypes)
    {table : List (String × β)} (hsub : ∀ row ∈ table, row.1 ∈ reducedTypes) :
    table.lookup eventType = none := by
  induction table with
  | nil => rfl
  | cons row rows ih =>
    have hne : ¬ eventType = row.1 := fun heq => h (heq ▸ hsub row List.mem_cons_self)
    rw [List.lookup_cons, show (eventType == row.1) = false from beq_eq_false_iff_ne.mpr hne]
    exact ih fun r hr => hsub r (List.mem_cons_of_mem _ hr)

theorem taskEvent_agrees (task : TaskView) (e : Event) (seq : Nat) :
    Browser.withTaskEvent task e seq = task.record e seq := by
  unfold Browser.withTaskEvent TaskView.record
  cases hb : e.body with
  | other eventType unnamed =>
    have hnone : Browser.taskStateByType.lookup (Body.other eventType unnamed).eventType = none :=
      lookup_other unnamed (by decide)
    simp only [hnone]
  | runtime payload =>
    cases payload <;> rfl

theorem finished_agrees (task : TaskView) :
    Browser.finished.contains task.state = task.finished := rfl

theorem trace_agrees (payload : Payload) : Browser.traceOnly payload = payload.isNonFinalEnd := by
  cases payload with
  | agentRunFailed a b c final => cases final <;> rfl
  | agentRunAborted a b final => cases final <;> rfl
  | _ => rfl

/-- What the office draws of an agent. -/
def Browser.AgentState.drawn (agent : Browser.AgentState) : Agent :=
  ⟨agent.id, agent.role, agent.displayName, agent.avatarKey, agent.place, agent.activity⟩

/-- The browser has dropped this task, which the backend's reducer still has. -/
def Dropped (p : RealtimeState) (s : Browser.RealtimeState) (id : Id) : Prop :=
  s.tasks id = none ∧ p.tasks id ≠ none

/-- The two states agree up to finished tasks the browser has dropped. -/
structure Twins (p : RealtimeState) (s : Browser.RealtimeState) : Prop where
  company : s.companyId = p.companyId
  seq : s.lastSeq = p.lastSeq
  cycle : s.cycle = p.cycle
  agents : ∀ id, (s.agents id).map Browser.AgentState.drawn = p.agents id
  tasks : ∀ id, s.tasks id = p.tasks id ∨
    (s.tasks id = none ∧ ∃ task, p.tasks id = some task ∧ task.finished = true)
  recent : s.recentEvents.rtake recentEvents = p.recent

/-- The event is one whose reduction looks a task up by its `task_id`. -/
def Event.looksUp (e : Event) (p : RealtimeState) (task : TaskView) : Bool :=
  match e.body with
  | .runtime (.taskCreated ..) => false
  | .runtime payload =>
    match activityByClass payload with
    | some state =>
      !payload.isNonFinalEnd && !runless state && (e.agentId.bind p.agents).isSome
        && task.displayName != ""
    | none => e.body.isTask
  | .other _ _ => e.body.isTask

/-- Not a duplicate, not ephemeral and of this company. -/
def Event.counts (e : Event) (p : RealtimeState) : Bool :=
  match e.seq with
  | none => false
  | some seq => decide (p.lastSeq < seq) && e.companyId == p.companyId

/-- What a reducer is handed: an event, a live message, or one that does not parse. -/
inductive Incoming where
  | event (e : Event)
  | ephemeral (m : Browser.EphemeralMessage)
  | unparsed

/-- A message without a `seq` is ignored by the backend's reducer. -/
def RealtimeState.receive (p : RealtimeState) : Incoming → RealtimeState
  | .event e => p.apply e
  | _ => p

def Browser.RealtimeState.receive (s : Browser.RealtimeState) : Incoming → Browser.RealtimeState
  | .event e => Browser.applyEvent s e
  | .ephemeral m => Browser.applyEphemeral s m
  | .unparsed => s

/-- Both reducers from one snapshot, handed the same messages. -/
def reducers : System (RealtimeState × Browser.RealtimeState) Incoming where
  init := fun r => ∃ snapshot, r = (.fromSnapshot snapshot, Browser.hydrate snapshot)
  step := fun r m u => u = (r.1.receive m, r.2.receive m)

/-- No event that counts looks up a task the browser has dropped. -/
def LooksUpNoneDropped (r : RealtimeState × Browser.RealtimeState) (m : Incoming) : Prop :=
  ∀ e, m = .event e → e.counts r.1 = true → ∀ id task, e.taskId = some id →
    r.1.tasks id = some task → e.looksUp r.1 task = true → r.2.tasks id ≠ none

/-- The moment has not come, but lies in the millisecond that is now. -/
def Straddles (moment now : Nat) : Prop := moment / 1000 = now ∧ now * 1000 < moment

instance : Decidable (Straddles id now) := inferInstanceAs (Decidable (_ ∧ _))

/-- Nothing the view shows was dropped, and no boundary of the view lies in the
millisecond that is now. -/
structure Settled (p : RealtimeState) (s : Browser.RealtimeState) (now : Nat) : Prop where
  dropped : ∀ id task, p.tasks id = some task → s.tasks id = none →
    task.since + finishedTaskWindow ≤ now * 1000
  kept : ∀ id task, p.tasks id = some task → s.tasks id ≠ none → task.finished = true →
    ¬ Straddles (task.since + finishedTaskWindow) now
  displayed : ∀ id agent activity displayUntil, p.agents id = some agent →
    agent.activity = some activity → activity.storedState = .completed →
    activity.detail.payload.displayUntil = some displayUntil → ¬ Straddles displayUntil now

/-! The step. -/

theorem amend_map {β γ : Type} {m : Id → Option β} {n : Id → Option γ} {f : β → β} {g : γ → γ}
    {d : β → γ} {k : Option Id} (hm : ∀ i, (m i).map d = n i)
    (hfg : ∀ i x, k = some i → m i = some x → d (f x) = g (d x)) (i : Id) :
    (amend m k f i).map d = amend n k g i := by
  unfold amend
  by_cases hk : k = some i
  · rw [if_pos hk, if_pos hk, ← hm i]
    cases hx : m i with
    | none => rfl
    | some x => exact congrArg some (hfg i x hk hx)
  · rw [if_neg hk, if_neg hk]
    exact hm i

theorem update_map {β γ : Type} {m : Id → Option β} {n : Id → Option γ} {d : β → γ} {k : Id}
    {v : Option β} (hm : ∀ i, (m i).map d = n i) (i : Id) :
    (Function.update m k v i).map d = Function.update n k (v.map d) i := by
  by_cases hk : i = k
  · subst hk
    rw [Function.update_self, Function.update_self]
  · rw [Function.update_of_ne hk, Function.update_of_ne hk]
    exact hm i

theorem runless_agrees (state : ActivityState) :
    Browser.runlessStates.contains state = runless state := by
  cases state <;> rfl

theorem taskName_agrees (h : Twins p s)
    (hlook : ∀ id task, e.taskId = some id → p.tasks id = some task →
      (task.displayName != "") = true → s.tasks id ≠ none) :
    (e.taskId.bind fun id => (s.tasks id).map TaskView.displayName).filter (· != "") =
      ((e.taskId.bind p.tasks).map TaskView.displayName).filter (· != "") := by
  cases ht : e.taskId with
  | none => rfl
  | some id =>
    show ((s.tasks id).map TaskView.displayName).filter (· != "") =
      ((p.tasks id).map TaskView.displayName).filter (· != "")
    rcases h.tasks id with heq | ⟨hs, task, hp, _⟩
    · rw [heq]
    · rw [hs, hp]
      cases hname : task.displayName != "" with
      | true => exact absurd hs (hlook id task ht hp hname)
      | false => simp only [Option.map_none, Option.map_some, Option.filter_none,
          Option.filter_some, hname, Bool.false_eq_true, if_false]

theorem activity_twins {state : ActivityState} {payload : Payload} (h : Twins p s)
    (hlook : runless state = false → (e.agentId.bind p.agents).isSome = true →
      ∀ id task, e.taskId = some id → p.tasks id = some task →
      (task.displayName != "") = true → s.tasks id ≠ none) :
    Twins
      { p with
        agents := amend p.agents e.agentId fun agent => agent.record state payload e seq p.tasks }
      { s with
        agents := amend s.agents e.agentId fun agent =>
          Browser.withActivity agent state payload e seq s } := by
  refine ⟨h.company, h.seq, h.cycle, amend_map h.agents fun id agent hid hagent => ?_, h.tasks,
    h.recent⟩
  have hknown : (e.agentId.bind p.agents).isSome = true := by
    rw [hid, Option.bind_some, ← h.agents id, hagent]
    rfl
  unfold Browser.withActivity Agent.record
  rw [runless_agrees]
  cases hrun : runless state with
  | true => rfl
  | false =>
    have hname := taskName_agrees h (hlook hrun hknown)
    simp only [Bool.false_eq_true, if_false]
    rw [hname]
    rfl

theorem task_twins (h : Twins p s)
    (hlook : ∀ id task, e.taskId = some id → p.tasks id = some task → s.tasks id ≠ none) :
    Twins { p with tasks := amend p.tasks e.taskId fun task => task.record e seq }
      { s with tasks := amend s.tasks e.taskId fun task => Browser.withTaskEvent task e seq } := by
  refine ⟨h.company, h.seq, h.cycle, h.agents, fun id => ?_, h.recent⟩
  dsimp only [amend]
  by_cases hid : e.taskId = some id
  · rw [if_pos hid, if_pos hid]
    rcases h.tasks id with heq | ⟨hs, task, hp, _⟩
    · refine .inl ?_
      rw [heq]
      exact congrArg (fun f => Option.map f (p.tasks id))
        (funext fun task => taskEvent_agrees task e seq)
    · exact absurd hs (hlook id task hid hp)
  · rw [if_neg hid, if_neg hid]
    exact h.tasks id

theorem prune_twins (h : Twins p s) (at_ : Nat) : Twins p (Browser.pruneFinishedTasks s at_) := by
  refine ⟨h.company, h.seq, h.cycle, h.agents, fun id => ?_, h.recent⟩
  show (s.tasks id).filter _ = p.tasks id ∨ _
  rcases h.tasks id with heq | ⟨hs, hdropped⟩
  · rw [heq]
    cases hp : p.tasks id with
    | none => exact .inl rfl
    | some task =>
      cases hstale : Browser.stale task at_ with
      | false => exact .inl (by rw [Option.filter_some, hstale]; rfl)
      | true =>
        refine .inr ⟨?_, task, rfl, (Bool.and_eq_true_iff.mp hstale).1⟩
        show (s.tasks id).filter _ = none
        rw [heq, hp, Option.filter_some, hstale]
        rfl
  · exact .inr ⟨by show (s.tasks id).filter _ = none; rw [hs]; rfl, hdropped⟩

theorem reduce_twins (h : Twins p s)
    (hlook : ∀ id task, e.taskId = some id → p.tasks id = some task →
      e.looksUp p task = true → s.tasks id ≠ none) :
    Twins (p.reduce e seq) (Browser.applyKnown s e seq) := by
  have hactivity : ∀ payload state, e.body = .runtime payload →
      activityByClass payload = some state →
      Twins
        (if payload.isNonFinalEnd then p
        else { p with
          agents := amend p.agents e.agentId fun agent =>
            agent.record state payload e seq p.tasks })
        (Browser.applyRest s e seq) := by
    intro payload state hb hstate
    have hrest : Browser.applyRest s e seq = if Browser.traceOnly payload then s
        else { s with
          agents := amend s.agents e.agentId fun agent =>
            Browser.withActivity agent state payload e seq s } := by
      have hlookup : Browser.activityByType.lookup e.body.eventType = some state := by
        rw [hb, ← hstate]
        exact activity_agrees payload
      rw [Browser.applyRest, hlookup, hb]
    rw [hrest, trace_agrees]
    cases htrace : payload.isNonFinalEnd with
    | true => exact h
    | false =>
      refine activity_twins h fun hrun hknown id task hid htask hname => ?_
      refine hlook id task hid htask ?_
      rw [Event.looksUp, hb]
      cases payload <;> simp_all [activityByClass]
  have htask : (∀ task, e.looksUp p task = e.body.isTask) →
      Browser.activityByType.lookup e.body.eventType = none →
      Twins
        (if e.body.isTask then
          { p with tasks := amend p.tasks e.taskId fun task => task.record e seq } else p)
        (Browser.applyRest s e seq) := by
    intro hlooks hnone
    have hrest : Browser.applyRest s e seq = if e.body.isTask then
        { s with tasks := amend s.tasks e.taskId fun task => Browser.withTaskEvent task e seq }
      else s := by
      rw [Browser.applyRest, hnone]
      cases e.body <;> rfl
    rw [hrest]
    cases hkind : e.body.isTask with
    | true => exact task_twins h fun id task hid ht => hlook id task hid ht (by rw [hlooks, hkind])
    | false => exact h
  obtain ⟨_, _, _, agentId, taskId, _, _, cycleId, body⟩ := e
  cases body with
  | other eventType unnamed =>
    exact htask (fun _ => rfl) (lookup_other unnamed (by decide))
  | runtime payload =>
    cases payload with
    | agentCreated role displayName capabilities avatarKey place =>
      cases agentId with
      | none => exact h
      | some id => exact ⟨h.company, h.seq, h.cycle, update_map h.agents, h.tasks, h.recent⟩
    | agentAssigned role roleId place =>
      exact ⟨h.company, h.seq, h.cycle, amend_map h.agents fun _ _ _ _ => rfl, h.tasks, h.recent⟩
    | agentRetired role displayName reason =>
      cases agentId with
      | none => exact h
      | some id => exact ⟨h.company, h.seq, h.cycle, update_map h.agents, h.tasks, h.recent⟩
    | cycleStarted number stage deadline =>
      cases cycleId with
      | none => exact h
      | some id => exact ⟨h.company, h.seq, rfl, h.agents, h.tasks, h.recent⟩
    | cycleStageChanged fromStage toStage deadline =>
      exact ⟨h.company, h.seq, congrArg (Option.map _) h.cycle, h.agents, h.tasks, h.recent⟩
    | taskCreated name displayName requiredRole dependsOn workflowRunId budgetUsd =>
      cases taskId with
      | none => exact h
      | some id =>
        refine ⟨h.company, h.seq, h.cycle, h.agents, fun i => ?_, h.recent⟩
        by_cases hi : i = id
        · subst hi
          exact .inl (by simp only [Browser.applyKnown, RealtimeState.reduce, Function.update_self])
        · simpa only [Browser.applyKnown, RealtimeState.reduce, Function.update_of_ne hi]
            using h.tasks i
    | agentIdle | agentResumed | agentPaused | agentThinking | agentWorking | agentWaiting
    | agentReviewing | agentRunCompleted | agentRunFailed | agentRunAborted =>
      exact hactivity _ _ rfl rfl
    | _ => exact htask (fun _ => rfl) rfl

theorem apply_twins (h : Twins p s) (hok : LooksUpNoneDropped (p, s) (.event e)) :
    Twins (p.apply e) (Browser.applyEvent s e) := by
  unfold RealtimeState.apply Browser.applyEvent Browser.applyOne
  cases hseq : e.seq with
  | none => exact h
  | some seq =>
    dsimp only
    have hsame : (seq ≤ s.lastSeq ∨ e.companyId ≠ s.companyId) ↔
        (seq ≤ p.lastSeq ∨ e.companyId ≠ p.companyId) := by
      rw [h.seq, h.company]
    by_cases hskip : seq ≤ p.lastSeq ∨ e.companyId ≠ p.companyId
    · rw [if_pos hskip, if_pos (hsame.mpr hskip)]
      exact h
    · rw [if_neg hskip, if_neg fun hs => hskip (hsame.mp hs)]
      have hcounts : e.counts p = true := by
        obtain ⟨hnew, hmine⟩ := not_or.mp hskip
        simp only [Event.counts, hseq, Bool.and_eq_true, decide_eq_true_eq, beq_iff_eq]
        exact ⟨by omega, not_not.mp hmine⟩
      have hrecent : ((s.recentEvents ++ [e]).rtake Browser.recentEventsKept).rtake recentEvents =
          (p.recent ++ [e]).rtake recentEvents := by
        rw [rtake_rtake (by decide), ← h.recent, rtake_snoc]
      have hnext : Twins
          { p with lastSeq := seq, recent := (p.recent ++ [e]).rtake recentEvents }
          { s with
            lastSeq := seq
            recentEvents := (s.recentEvents ++ [e]).rtake Browser.recentEventsKept } :=
        ⟨h.company, rfl, h.cycle, h.agents, h.tasks, by dsimp only; exact hrecent⟩
      exact prune_twins (reduce_twins hnext
        fun id task hid htask hlooks => hok e rfl hcounts id task hid htask hlooks) _

theorem ephemeral_twins (h : Twins p s) (m : Browser.EphemeralMessage) :
    Twins p (Browser.applyEphemeral s m) := by
  unfold Browser.applyEphemeral
  split
  · exact h
  · refine ⟨h.company, h.seq, h.cycle, fun id => ?_, h.tasks, h.recent⟩
    dsimp only [amend]
    by_cases hid : m.agentId = some id
    · rw [if_pos hid, ← h.agents id, Option.map_map]
      rfl
    · rw [if_neg hid]
      exact h.agents id

theorem keyedBy_map {α β γ : Type} (key : α → Id) (f : α → β) (g : α → γ) (d : β → γ)
    (hfg : ∀ row, d (f row) = g row) (rows : List α) (id : Id) :
    (keyedBy key f rows id).map d = keyedBy key g rows id := by
  suffices ∀ (m : Id → Option β) (n : Id → Option γ), (∀ i, (m i).map d = n i) → ∀ i,
      (rows.foldl (fun m row => Function.update m (key row) (some (f row))) m i).map d =
        rows.foldl (fun m row => Function.update m (key row) (some (g row))) n i from
    this _ _ (fun _ => rfl) id
  induction rows with
  | nil => exact fun m n h => h
  | cons row rows ih =>
    intro m n h
    refine ih _ _ fun i => ?_
    rw [update_map h i, Option.map_some, hfg]

theorem hydrate_twins (snapshot : RealtimeSnapshot) :
    Twins (.fromSnapshot snapshot) (Browser.hydrate snapshot) :=
  ⟨rfl, rfl, rfl, keyedBy_map _ _ _ _ (fun _ => rfl) snapshot.agents, fun _ => .inl rfl, rfl⟩

theorem twins_of_reach (h : reducers.Reach LooksUpNoneDropped (p, s)) : Twins p s := by
  refine h.invariant (I := fun r => Twins r.1 r.2) ?_ ?_
  · rintro r ⟨snapshot, rfl⟩
    exact hydrate_twins snapshot
  · rintro r m u hr hok rfl
    cases m with
    | event e => exact apply_twins hr hok
    | ephemeral m => exact ephemeral_twins hr m
    | unparsed => exact hr

/-! The views. -/

theorem before_iff (moment now : Nat) :
    (moment / 1000 ≤ now ↔ moment ≤ now * 1000) ↔ ¬ Straddles moment now := by
  unfold Straddles
  omega

theorem effective_agrees (activity : ActivityView) (now : Nat) :
    Browser.effectiveState activity now = effective activity (now * 1000) ↔
      ∀ displayUntil, activity.storedState = .completed →
        activity.detail.payload.displayUntil = some displayUntil →
        ¬ Straddles displayUntil now := by
  unfold Browser.effectiveState effective Browser.parseDate
  by_cases hstate : activity.storedState = .completed
  · rw [if_pos hstate, if_pos hstate]
    cases hdetail : activity.detail.payload.displayUntil with
    | none => simp only [reduceCtorEq, false_implies, implies_true]
    | some moment =>
      simp only [hstate, Option.some.injEq, forall_const, forall_eq', ← before_iff]
      by_cases h1 : moment / 1000 ≤ now <;> by_cases h2 : moment ≤ now * 1000 <;>
        simp only [h1, h2, if_true, if_false, reduceCtorEq, iff_true, iff_false, not_true]
  · rw [if_neg hstate, if_neg hstate]
    simp only [hstate, false_implies, implies_true]

theorem window_ms (since : Nat) : (since + finishedTaskWindow) / 1000 =
    since / 1000 + Browser.finishedTaskWindowMs := by
  show (since + 600000000) / 1000 = since / 1000 + 600000
  omega

theorem visible_agrees (task : TaskView) (now : Nat) :
    Browser.isTaskVisible task now =
        (!task.finished || decide (now * 1000 < task.since + finishedTaskWindow)) ↔
      (task.finished = true → ¬ Straddles (task.since + finishedTaskWindow) now) := by
  rw [← before_iff, window_ms]
  unfold Browser.isTaskVisible Browser.parseDate
  rw [finished_agrees]
  cases task.finished with
  | false => simp only [Bool.not_false, Bool.true_or, Bool.false_eq_true, false_implies]
  | true =>
    simp only [Bool.not_true, Bool.false_or, forall_const, decide_eq_decide]
    exact Iff.trans (by rw [← not_le, ← not_le]) not_iff_not

theorem agents_agree (h : Twins p s) (now : Nat) (id : Id) :
    (s.view now).agents id = (p.view (now * 1000)).agents id ↔
      ∀ agent activity displayUntil, p.agents id = some agent →
        agent.activity = some activity → activity.storedState = .completed →
        activity.detail.payload.displayUntil = some displayUntil → ¬ Straddles displayUntil now := by
  show (s.agents id).bind (·.view now) = (p.agents id).bind (·.view (now * 1000)) ↔ _
  rw [← h.agents id]
  cases hs : s.agents id with
  | none => exact ⟨fun _ _ _ _ hnone => by simp at hnone, fun _ => rfl⟩
  | some agent =>
    cases hactivity : agent.activity with
    | none =>
      refine ⟨fun _ a activity until_ ha hact => ?_, fun _ => ?_⟩
      · obtain rfl := Option.some.inj ha
        exact absurd (hactivity.symm.trans hact) (by simp)
      · show agent.view now = agent.drawn.view (now * 1000)
        unfold Browser.AgentState.view Agent.view
        rw [hactivity, show agent.drawn.activity = none from hactivity]
        rfl
    | some activity =>
      have hview : agent.view now = agent.drawn.view (now * 1000) ↔
          Browser.effectiveState activity now = effective activity (now * 1000) := by
        unfold Browser.AgentState.view Agent.view
        rw [hactivity, show agent.drawn.activity = some activity from hactivity]
        simp only [Option.map_some, Option.some.injEq, AgentView.mk.injEq, ActivityView.mk.injEq,
          Browser.AgentState.drawn, true_and, and_true]
      refine hview.trans ((effective_agrees activity now).trans ⟨?_, ?_⟩)
      · intro hall a act until_ ha hact hdone hdisplay
        obtain rfl := Option.some.inj ha
        obtain rfl := Option.some.inj (hactivity.symm.trans hact)
        exact hall until_ hdone hdisplay
      · intro hall until_ hdone hdisplay
        exact hall _ activity until_ rfl hactivity hdone hdisplay

theorem tasks_agree (h : Twins p s) (now : Nat) (id : Id) :
    (s.view now).tasks id = (p.view (now * 1000)).tasks id ↔
      ∀ task, p.tasks id = some task →
        (s.tasks id = none → task.since + finishedTaskWindow ≤ now * 1000) ∧
        (s.tasks id ≠ none → task.finished = true →
          ¬ Straddles (task.since + finishedTaskWindow) now) := by
  show (s.tasks id).filter (Browser.isTaskVisible · now) = (p.tasks id).filter _ ↔ _
  cases hp : p.tasks id with
  | none =>
    have hs : s.tasks id = none := by
      rcases h.tasks id with heq | ⟨hs, _⟩
      · exact heq.trans hp
      · exact hs
    rw [hs, Option.filter_none, Option.filter_none]
    exact ⟨fun _ _ hnone => (nomatch hnone), fun _ => rfl⟩
  | some task =>
    simp only [Option.some.injEq, forall_eq']
    cases hs : s.tasks id with
    | none =>
      obtain ⟨_, done, hdone, hfinished⟩ : s.tasks id = none ∧
          ∃ task, p.tasks id = some task ∧ task.finished = true := by
        rcases h.tasks id with heq | hdropped
        · rw [hs, hp] at heq
          cases heq
        · exact hdropped
      obtain rfl := Option.some.inj (hp.symm.trans hdone)
      simp only [Option.filter_none, Option.filter_some, hfinished, Bool.not_true, Bool.false_or,
        decide_eq_true_eq, ne_eq, not_true, false_implies, and_true, forall_const]
      split
      · next hshown => exact ⟨fun heq => (nomatch heq), fun hold => absurd hshown (Nat.not_lt.mpr hold)⟩
      · next hhidden => exact ⟨fun _ => Nat.le_of_not_lt hhidden, fun _ => rfl⟩
    | some kept =>
      have hsame : kept = task := by
        rcases h.tasks id with heq | ⟨hnone, _⟩
        · exact Option.some.inj (hs.symm.trans (heq.trans hp))
        · rw [hs] at hnone
          cases hnone
      subst hsame
      have hshown : ∀ a b : Bool,
          (if a then some kept else none) = (if b then some kept else none) ↔ a = b := by
        intro a b
        cases a <;> cases b <;> simp
      rw [Option.filter_some, Option.filter_some, hshown]
      exact (visible_agrees kept now).trans
        ⟨fun hold => ⟨nofun, fun _ => hold⟩, fun hold => hold.2 nofun⟩

/-- Along every run in which no event looks a dropped task up, the views agree at
exactly the moments that are settled. -/
theorem views_agree (h : reducers.Reach LooksUpNoneDropped (p, s)) (now : Nat) :
    s.view now = p.view (now * 1000) ↔ Settled p s now := by
  have hs := twins_of_reach h
  constructor
  · intro hview
    have htasks := fun id => (tasks_agree hs now id).mp (congrFun (congrArg View.tasks hview) id)
    have hagents := fun id =>
      (agents_agree hs now id).mp (congrFun (congrArg View.agents hview) id)
    exact ⟨fun id task ht hn => (htasks id task ht).1 hn,
      fun id task ht hn => (htasks id task ht).2 hn, hagents⟩
  · intro hsettled
    have hagents : (s.view now).agents = (p.view (now * 1000)).agents :=
      funext fun id => (agents_agree hs now id).mpr (hsettled.displayed id)
    have htasks : (s.view now).tasks = (p.view (now * 1000)).tasks :=
      funext fun id => (tasks_agree hs now id).mpr fun task ht =>
        ⟨hsettled.dropped id task ht, hsettled.kept id task ht⟩
    show View.mk s.companyId s.lastSeq (s.view now).agents (s.view now).tasks
      (s.recentEvents.rtake recentEvents) s.cycle = _
    rw [hs.company, hs.seq, hagents, htasks, hs.recent, hs.cycle]
    rfl

def Event.of (seq : Nat) (occurredAt : Time) (agentId taskId : Option Id) (payload : Payload) :
    Event :=
  ⟨some seq, 1, occurredAt, agentId, taskId, none, none, none, .runtime payload⟩

/-- A company with one task under way and one agent that has just completed a run. -/
def morning : RealtimeSnapshot where
  companyId := 1
  lastSeq := 4
  agents := [⟨3, "writer", "Ada", "default", ⟨none, none, none, none⟩,
    ⟨.completed, .completed, ⟨.agentRunCompleted none 0 1 1 [] (some 5000000) [], some 9, some 7,
      none, none, none⟩, 0, some 9, some 7, 4⟩⟩]
  tasks := [⟨7, "draft", "Draft", "writer", .running, [], none, 1, some 9, some 3, 0, 3⟩]
  recentEvents := []
  cycle := none

def finishing : List Event :=
  [.of 5 1000000 none (some 7) (.taskSucceeded none none []),
    .of 6 700000000 none none (.workflowRunCompleted 1)]

theorem finishing_reach : reducers.Reach LooksUpNoneDropped
    (finishing.foldl RealtimeState.apply (.fromSnapshot morning),
      finishing.foldl Browser.applyEvent (Browser.hydrate morning)) := by
  refine .step (a := .event (.of 6 700000000 none none (.workflowRunCompleted 1)))
    (.step (a := .event (.of 5 1000000 none (some 7) (.taskSucceeded none none [])))
      (.init ⟨morning, rfl⟩) ?_ rfl) ?_ rfl
  · intro e he _ id task hid _ _
    cases he
    cases hid
    decide
  · intro e he _ id task hid _ _
    cases he
    cases hid

theorem finishing_tasks {task : TaskView} (hid : id ≠ 7) :
    (finishing.foldl RealtimeState.apply (.fromSnapshot morning)).tasks id ≠ some task := by
  have h7 : ¬ some 7 = some id := fun h => hid (Option.some.inj h).symm
  show (if some 7 = some id then _ else Function.update (fun _ => none) 7 _ id) ≠ some task
  rw [if_neg h7, Function.update_of_ne hid]
  nofun

theorem finishing_agents {agent : Agent} (hid : id ≠ 3) :
    (finishing.foldl RealtimeState.apply (.fromSnapshot morning)).agents id ≠ some agent := by
  show Function.update (fun _ => none) 3 _ id ≠ some agent
  rw [Function.update_of_ne hid]
  nofun

theorem views_agree_finishing :
    (finishing.foldl Browser.applyEvent (Browser.hydrate morning)).view 700000 =
      (finishing.foldl RealtimeState.apply (.fromSnapshot morning)).view 700000000 := by
  refine (views_agree finishing_reach 700000).mpr ⟨?_, ?_, ?_⟩
  · intro id task htask _
    by_cases hid : id = 7
    · subst hid
      cases htask
      decide
    · exact absurd htask (finishing_tasks hid)
  · intro id task htask hkept
    by_cases hid : id = 7
    · subst hid
      exact absurd (by decide) hkept
    · exact absurd htask (finishing_tasks hid)
  · intro id agent activity displayUntil hagent hactivity _ hdisplay
    by_cases hid : id = 3
    · subst hid
      cases hagent
      cases hactivity
      cases hdisplay
      decide
    · exact absurd hagent (finishing_agents hid)

/-- A task that finished ten minutes ago and is made ready again: the browser has
dropped it, the backend's reducer shows it. -/
def reopening : List Event :=
  [.of 5 1000000 none (some 7) (.taskSucceeded none none []),
    .of 6 700000000 none none (.workflowRunCompleted 1),
    .of 7 700000000 none (some 7) (.taskReady "writer")]

theorem reopened_task_missing : ¬ ∀ (snapshot : RealtimeSnapshot) (messages : List Incoming)
    (now : Nat),
    (messages.foldl Browser.RealtimeState.receive (Browser.hydrate snapshot)).view now =
      (messages.foldl RealtimeState.receive (.fromSnapshot snapshot)).view (now * 1000) := by
  intro hall
  have htasks := congrArg (fun v : View => (v.tasks 7).isSome)
    (hall morning (reopening.map .event) 700000)
  revert htasks
  decide

end Autora.Realtime
