import Autora.Leases

/-! The runs of a task: one for each attempt, and at most one of them unfinished,
which the task's state accounts for. -/

namespace Autora

open Transactions Systems

variable {w w₁ w' : World} {i : Id} {t t' : Task} {runs : List AgentRun}

def World.runsOf (w : World) (task : Id) : List AgentRun :=
  w.agentRuns.filter (·.taskId = task)

def openRuns (runs : List AgentRun) : List AgentRun := runs.filter (·.state.isOpen)

/-- What the queue reads of a task. -/
def Task.counts (t : Task) : TaskState × Nat × Nat := (t.state, t.attempt, t.maxAttempts)

-- a task that can be claimed, now or after it was unlocked or approved
def TaskState.waits (s : TaskState) : Bool := s = .pending || s = .ready || s = .waitingApproval

/-- The unfinished runs of a task go with its state: none, with an attempt left if the
task waits; a suspended one; or the one its worker is on. -/
inductive Staffed (t : Task) (unfinished : List AgentRun) : Prop
  | idle (none : unfinished = []) (state : t.state ≠ .running)
    (left : t.state.waits = true → t.attempt < t.maxAttempts)
  | suspended (r : AgentRun) (one : unfinished = [r]) (run : r.state = .waitingApproval)
    (state : t.state = .ready ∨ t.state = .waitingApproval)
  | working (r : AgentRun) (one : unfinished = [r]) (state : t.state = .running)

structure Attempted (t : Task) (runs : List AgentRun) : Prop where
  numbered : runs.map (·.attempt) = List.range' 1 t.attempt
  bounded : t.attempt ≤ t.maxAttempts
  staffed : Staffed t (openRuns runs)

theorem Attempted.of_counts (h : Attempted t runs) (ht : t'.counts = t.counts) :
    Attempted t' runs := by
  simp only [Task.counts, Prod.mk.injEq] at ht
  obtain ⟨hs, ha, hm⟩ := ht
  refine ⟨?_, ?_, ?_⟩
  · rw [ha]
    exact h.numbered
  · rw [ha, hm]
    exact h.bounded
  · rcases h.staffed with ⟨hn, hne, hl⟩ | ⟨r, ho, hr, hst⟩ | ⟨r, ho, hst⟩
    · exact .idle hn (hs ▸ hne) (by rw [hs, ha, hm]; exact hl)
    · exact .suspended r ho hr (hs ▸ hst)
    · exact .working r ho (hs.trans hst)

/-- The runs and tasks of the queue. One task may be left out: it has ended, and its run
is about to end. -/
structure QueueSound (x : Option Id) (w : World) : Prop where
  unique : w.UniqueTasks
  runIds : (w.agentRuns.map (·.id)).Nodup
  runNext : ∀ r ∈ w.agentRuns, r.id < w.nextId
  known : ∀ r ∈ w.agentRuns, ∃ t, w.task? r.taskId = some t
  agents : ∀ a, w.agentRuns.countP (fun r => r.agentId = a && r.state.isOpen) ≤ 1
  tasks : ∀ i t, w.task? i = some t → some i ≠ x → Attempted t (w.runsOf i)

/-! Writing one task and its runs. -/

/-- Only the row of task `i` and its runs were written, and no run was opened. -/
structure Touches (i : Id) (w w' : World) : Prop where
  next : w.nextId ≤ w'.nextId
  ids : w'.tasks.map (·.id) = w.tasks.map (·.id)
  rows : ∀ j, j ≠ i → w'.task? j = w.task? j
  runs : ∃ g : AgentRun → AgentRun, w'.agentRuns = w.agentRuns.map g ∧ ∀ r ∈ w.agentRuns,
    (g r).key = r.key ∧ (r.taskId ≠ i → g r = r) ∧
      ((g r).state.isOpen = true → r.state.isOpen = true)

theorem Touches.trans (h : Touches i w w₁) (h' : Touches i w₁ w') : Touches i w w' := by
  obtain ⟨g, hg, hk⟩ := h.runs
  obtain ⟨g', hg', hk'⟩ := h'.runs
  refine ⟨Nat.le_trans h.next h'.next, h'.ids.trans h.ids,
    fun j hj => (h'.rows j hj).trans (h.rows j hj), g' ∘ g, ?_, fun r hr => ?_⟩
  · rw [hg', hg, List.map_map]
  · have hmem : g r ∈ w₁.agentRuns := hg ▸ List.mem_map_of_mem hr
    obtain ⟨h₁, h₂, h₃⟩ := hk r hr
    obtain ⟨h₁', h₂', h₃'⟩ := hk' _ hmem
    refine ⟨h₁'.trans h₁, fun hne => ?_, fun ho => h₃ (h₃' ho)⟩
    have hgr := h₂ hne
    have hne' : (g r).taskId ≠ i := by rw [hgr]; exact hne
    exact (h₂' hne').trans hgr

theorem Touches.of_same (hn : w.nextId ≤ w'.nextId) (ht : w'.tasks = w.tasks)
    (hr : w'.agentRuns = w.agentRuns) : Touches i w w' := by
  refine ⟨hn, by rw [ht], fun j _ => by rw [World.task?, World.task?, ht], id, ?_, fun r _ => ?_⟩
  · rw [hr, List.map_id]
  · exact ⟨rfl, fun _ => rfl, fun h => h⟩

theorem setTask_touches {f : Task → Task} (hf : ∀ t, (f t).id = t.id) :
    Touches i w (w.setTask i f) := by
  refine ⟨Nat.le_refl _, ?_, fun j hj => World.setTask_other hf hj, id, (List.map_id _).symm,
    fun r _ => ⟨rfl, fun _ => rfl, fun h => h⟩⟩
  simp only [World.setTask, List.map_map]
  refine List.map_congr_left fun t _ => ?_
  by_cases he : t.id = i <;> simp [he, hf]

/-- The write of a run, as a write of every run. -/
def onRun (id : Id) (g : AgentRun → AgentRun) (r : AgentRun) : AgentRun :=
  if r.id = id then g r else r

theorem onRun_key {id : Id} {g : AgentRun → AgentRun} (hg : ∀ r, (g r).key = r.key)
    (r : AgentRun) : (onRun id g r).key = r.key := by
  unfold onRun
  split
  · exact hg r
  · rfl

theorem setRun_touches {id : Id} {g : AgentRun → AgentRun} (hg : ∀ r, (g r).key = r.key)
    (hi : ∀ r ∈ w.agentRuns, r.id = id → r.taskId = i)
    (ho : ∀ r ∈ w.agentRuns, r.id = id → (g r).state.isOpen = true → r.state.isOpen = true) :
    Touches i w (w.setRun id g) := by
  refine ⟨Nat.le_refl _, rfl, fun _ _ => rfl, onRun id g, rfl, fun r hr => ⟨onRun_key hg r, ?_, ?_⟩⟩
  · intro hne
    exact if_neg fun hid => hne (hi r hr hid)
  · unfold onRun
    by_cases hid : r.id = id
    · rw [if_pos hid]
      exact ho r hr hid
    · rw [if_neg hid]
      exact fun h => h

theorem runsOf_setRun {id : Id} {g : AgentRun → AgentRun} (hg : ∀ r, (g r).key = r.key) :
    (w.setRun id g).runsOf i = (w.runsOf i).map (onRun id g) := by
  unfold World.runsOf
  show (w.agentRuns.map (onRun id g)).filter _ = _
  rw [List.filter_map]
  congr 1
  refine List.filter_congr fun r _ => ?_
  have hk : (onRun id g r).key = r.key := onRun_key hg r
  simp only [AgentRun.key, Prod.mk.injEq] at hk
  simp only [Function.comp_apply, hk.2.1]

theorem Touches.runsOf {j : Id} (h : Touches i w w') (hj : j ≠ i) :
    w'.runsOf j = w.runsOf j := by
  obtain ⟨g, hg, hk⟩ := h.runs
  unfold World.runsOf
  rw [hg, List.filter_map]
  have hfilter : w.agentRuns.filter ((fun r => decide (r.taskId = j)) ∘ g) =
      w.agentRuns.filter (·.taskId = j) := by
    refine List.filter_congr fun r hr => ?_
    have hkey := (hk r hr).1
    simp only [AgentRun.key, Prod.mk.injEq] at hkey
    simp only [Function.comp_apply, hkey.2.1]
  rw [hfilter]
  refine (List.map_congr_left fun r hr => ?_).trans (List.map_id _)
  obtain ⟨hr, hrj⟩ := List.mem_filter.mp hr
  exact (hk r hr).2.1 (by rw [of_decide_eq_true hrj]; exact hj)

theorem Touches.unique (h : Touches i w w') (hu : w.UniqueTasks) : w'.UniqueTasks := by
  unfold World.UniqueTasks
  rw [h.ids]
  exact hu

theorem Touches.task? (h : Touches i w w') (hu : w.UniqueTasks) {j : Id}
    (hj : w.task? j = some t) : ∃ t', w'.task? j = some t' := by
  obtain ⟨hmem, hid⟩ := w.mem_of_task? j hj
  have hin : j ∈ w'.tasks.map (·.id) := by
    rw [h.ids, ← hid]
    exact List.mem_map_of_mem hmem
  obtain ⟨t', ht', rfl⟩ := List.mem_map.mp hin
  exact ⟨t', (h.unique hu).task? ht'⟩

/-- The rest of the queue is as it was; the task that was written has to be sound. -/
theorem QueueSound.touched {x y : Option Id} (hs : QueueSound x w) (h : Touches i w w')
    (hxy : ∀ j, j ≠ i → some j ≠ y → some j ≠ x)
    (hi : some i ≠ y → ∀ t, w'.task? i = some t → Attempted t (w'.runsOf i)) :
    QueueSound y w' := by
  obtain ⟨g, hg, hk⟩ := h.runs
  have hkey : ∀ r ∈ w.agentRuns, (g r).id = r.id ∧ (g r).taskId = r.taskId ∧
      (g r).agentId = r.agentId := by
    intro r hr
    have hh := (hk r hr).1
    simp only [AgentRun.key, Prod.mk.injEq] at hh
    exact ⟨hh.1, hh.2.1, hh.2.2.1⟩
  refine ⟨h.unique hs.unique, ?_, ?_, ?_, ?_, ?_⟩
  · rw [hg, List.map_map]
    have he : w.agentRuns.map ((·.id) ∘ g) = w.agentRuns.map (·.id) :=
      List.map_congr_left fun r hr => (hkey r hr).1
    rw [he]
    exact hs.runIds
  · intro r' hr'
    rw [hg] at hr'
    obtain ⟨r, hr, rfl⟩ := List.mem_map.mp hr'
    rw [(hkey r hr).1]
    exact Nat.lt_of_lt_of_le (hs.runNext r hr) h.next
  · intro r' hr'
    rw [hg] at hr'
    obtain ⟨r, hr, rfl⟩ := List.mem_map.mp hr'
    obtain ⟨t, ht⟩ := hs.known r hr
    rw [(hkey r hr).2.1]
    exact h.task? hs.unique ht
  · intro a
    rw [hg, List.countP_map]
    refine Nat.le_trans (List.countP_mono_left fun r hr hc => ?_) (hs.agents a)
    simp only [Function.comp_apply, Bool.and_eq_true, decide_eq_true_eq] at hc ⊢
    exact ⟨(hkey r hr).2.2 ▸ hc.1, (hk r hr).2.2 hc.2⟩
  · intro j t hj hne
    by_cases he : j = i
    · subst he
      exact hi hne t hj
    · rw [h.rows j he] at hj
      rw [h.runsOf he]
      exact hs.tasks j t hj (hxy j he hne)

/-! Ending and moving the unfinished run. -/

theorem mem_openRuns {r : AgentRun} :
    r ∈ openRuns (w.runsOf i) ↔ r ∈ w.agentRuns ∧ r.taskId = i ∧ r.state.isOpen = true := by
  simp only [openRuns, World.runsOf, List.mem_filter, decide_eq_true_eq, and_assoc]

theorem Staffed.eq_of_mem {r : AgentRun} (h : Staffed t runs) (hr : r ∈ runs) : runs = [r] := by
  rcases h with ⟨hn, _, _⟩ | ⟨r', ho, _, _⟩ | ⟨r', ho, _⟩
  · rw [hn] at hr
    cases hr
  · rw [ho] at hr ⊢
    rw [List.mem_singleton.mp hr]
  · rw [ho] at hr ⊢
    rw [List.mem_singleton.mp hr]

/-- The unfinished run is ended. -/
theorem openRuns_ended {r : AgentRun} {g : AgentRun → AgentRun} (hg : EndsRun g)
    (h : openRuns runs = [r]) : openRuns (runs.map (onRun r.id g)) = [] := by
  refine List.filter_eq_nil_iff.mpr fun x hx ho => ?_
  obtain ⟨y, hy, rfl⟩ := List.mem_map.mp hx
  unfold onRun at ho
  by_cases hid : y.id = r.id
  · rw [if_pos hid, hg.closed] at ho
    cases ho
  · rw [if_neg hid] at ho
    have hin : y ∈ openRuns runs := List.mem_filter.mpr ⟨hy, ho⟩
    rw [h] at hin
    exact hid (by rw [List.mem_singleton.mp hin])

/-- The unfinished run moves on, unfinished. -/
theorem openRuns_moved {r : AgentRun} {g : AgentRun → AgentRun}
    (hn : (runs.map (·.id)).Nodup) (h : openRuns runs = [r]) (ho : (g r).state.isOpen = true) :
    openRuns (runs.map (onRun r.id g)) = [g r] := by
  have hr : r ∈ openRuns runs := by
    rw [h]
    exact List.mem_singleton.mpr rfl
  obtain ⟨hmem, hopen⟩ := List.mem_filter.mp hr
  have hfilter : runs.filter ((·.state.isOpen) ∘ onRun r.id g) = openRuns runs := by
    refine List.filter_congr fun y hy => ?_
    unfold onRun
    by_cases hid : y.id = r.id
    · have he : y = r := List.inj_on_of_nodup_map hn hy hmem hid
      subst he
      simp only [Function.comp_apply, if_true, ho, hopen]
    · simp only [Function.comp_apply, if_neg hid]
  unfold openRuns
  rw [List.filter_map, hfilter, h]
  simp [onRun]

theorem map_attempt_onRun {id : Id} {g : AgentRun → AgentRun} (hg : ∀ r, (g r).key = r.key) :
    (runs.map (onRun id g)).map (·.attempt) = runs.map (·.attempt) := by
  rw [List.map_map]
  refine List.map_congr_left fun r _ => ?_
  have hk : (onRun id g r).key = r.key := onRun_key hg r
  simp only [AgentRun.key, Prod.mk.injEq] at hk
  exact hk.2.2.2

/-- The task after its unfinished run was ended. -/
theorem Attempted.ended {r : AgentRun} {g : AgentRun → AgentRun} {s : TaskState}
    (h : Attempted t runs) (hr : r ∈ openRuns runs) (hg : EndsRun g)
    (ha : t'.attempt = t.attempt) (hm : t'.maxAttempts = t.maxAttempts) (hst : t'.state = s)
    (hs : s ≠ .running) (hl : s.waits = true → t.attempt < t.maxAttempts) :
    Attempted t' (runs.map (onRun r.id g)) := by
  subst hst
  refine ⟨?_, ?_, .idle (openRuns_ended hg (h.staffed.eq_of_mem hr)) hs ?_⟩
  · rw [map_attempt_onRun hg.key, ha]
    exact h.numbered
  · rw [ha, hm]
    exact h.bounded
  · rw [ha, hm]
    exact hl

theorem World.openRunOf?_spec : match w.openRunOf? i with
    | some r => r ∈ openRuns (w.runsOf i)
    | none => openRuns (w.runsOf i) = [] := by
  cases hf : w.openRunOf? i with
  | some r =>
    have hp := List.find?_some hf
    simp only [Bool.and_eq_true, decide_eq_true_eq] at hp
    exact mem_openRuns.mpr ⟨List.mem_of_find?_eq_some hf, hp.1, hp.2⟩
  | none =>
    refine List.eq_nil_iff_forall_not_mem.mpr fun r hr => ?_
    obtain ⟨hmem, hid, ho⟩ := mem_openRuns.mp hr
    have hno := List.find?_eq_none.mp hf r hmem
    simp [hid, ho] at hno

end Autora
