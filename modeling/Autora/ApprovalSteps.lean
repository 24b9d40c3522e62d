import Autora.Approvals

/-! What the requests, decisions and passes keep true of approvals and tasks. -/

namespace Autora.Approvals

open Systems

variable {cfg : ApprovalService} {s u v : Desk} {a b n : Approval} {t : Nat}

/-- An approval and a later one. -/
structure Before (a b : Approval) : Prop where
  ids : a.id < b.id
  task : ∀ t, a.taskId = some t → b.taskId = some t → a.state ≠ .pending
  chain : a.chain = b.chain → a.state ≠ .pending
  ref : a.refType = b.refType → a.refId = b.refId → a.state = .pending → b.state ≠ .pending
  delegation : a.chain = b.chain → a.delegated ≠ none ∨ a.delegatedBefore = true →
    b.delegated = none ∧ b.delegatedBefore = true

structure Sound (s : Desk) : Prop where
  order : s.approvals.Pairwise Before
  ids : ∀ a ∈ s.approvals, a.id < s.approvals.length ∧ a.chain < s.approvals.length
  threads : ∀ a ∈ s.approvals, ∀ b ∈ s.approvals, a.chain = b.chain → a.taskId = b.taskId
  blocks : ∀ a ∈ s.approvals, ∀ t, a.state = .pending → a.taskId = some t →
    ∃ state, s.stateOf t = some state ∧ (state = .waitingApproval ∨ state.final = true)
  asked : ∀ t, s.stateOf t = some .waitingApproval →
    ∃ a, s.latest t = some a ∧ (a.state = .pending ∨ a.state = .expired)
  delegates : ∀ a ∈ s.approvals, ∀ t, a.delegated = some t → ∃ state, s.stateOf t = some state ∧
    (a.state ≠ .pending → (∃ agent, a.decidedBy = some (.agent agent)) ∨ state.final = true)
  late : ∀ a ∈ s.approvals, a.delegated ≠ none → a.askedUntil ≤ s.now
  dates : ∀ a ∈ s.approvals, a.delegated = none → a.askedUntil = a.expiresAt
  undecided : ∀ a ∈ s.approvals, a.state = .pending → a.decidedBy = none

theorem related {R : Approval → Approval → Prop} {l : List Approval} (h : l.Pairwise R)
    (ha : a ∈ l) (hb : b ∈ l) : a = b ∨ R a b ∨ R b a := by
  induction l with
  | nil => cases ha
  | cons x l ih =>
    obtain ⟨hx, hl⟩ := List.pairwise_cons.mp h
    rcases List.mem_cons.mp ha with rfl | hal
    · rcases List.mem_cons.mp hb with rfl | hbl
      · exact .inl rfl
      · exact .inr (.inl (hx b hbl))
    · rcases List.mem_cons.mp hb with rfl | hbl
      · exact .inr (.inr (hx a hal))
      · exact ih hl hal hbl

theorem Sound.unique (h : Sound s) (ha : a ∈ s.approvals) (hb : b ∈ s.approvals)
    (hid : a.id = b.id) : a = b := by
  rcases related h.order ha hb with heq | hab | hba
  · exact heq
  · have := hab.ids
    omega
  · have := hba.ids
    omega

theorem Sound.one_per_task (h : Sound s) (ha : a ∈ s.approvals) (hb : b ∈ s.approvals)
    (hta : a.taskId = some t) (htb : b.taskId = some t) (hpa : a.state = .pending)
    (hpb : b.state = .pending) : a = b := by
  rcases related h.order ha hb with heq | hab | hba
  · exact heq
  · exact absurd hpa (hab.task t hta htb)
  · exact absurd hpb (hba.task t htb hta)

theorem get_some {i : Nat} (h : s.get i = some a) : a ∈ s.approvals ∧ a.id = i :=
  ⟨List.mem_of_find?_eq_some h, by simpa using List.find?_some h⟩

/-! Tasks. -/

theorem stateOf_modify {f : Task → Task} (hs : u.tasks = s.tasks.modify t f)
    (i : Nat) : u.stateOf i = (s.tasks[i]?.map fun task =>
      (if t = i then f task else task).state) := by
  unfold Desk.stateOf
  rw [hs, List.getElem?_modify]
  cases s.tasks[i]? <;> by_cases hi : t = i <;> simp [hi]

theorem stateOf_setTask {current : TaskState} (h : s.stateOf t = some current)
    (state : TaskState) (i : Nat) :
    (s.setTask t state).stateOf i = if t = i then some state else s.stateOf i := by
  rw [stateOf_modify (s := s) rfl]
  by_cases hi : t = i
  · subst hi
    obtain ⟨task, htask, _⟩ := Option.map_eq_some_iff.mp h
    rw [if_pos rfl, htask]
    show some _ = some _
    dsimp only
    rw [if_pos rfl]
  · simp only [if_neg hi]
    rfl

/-- No row of the approvals changes, and no task starts to wait or leaves its end. -/
structure Eases (s u : Desk) : Prop where
  approvals : u.approvals = s.approvals
  now : u.now = s.now
  kept : ∀ t state, s.stateOf t = some state → ∃ state', u.stateOf t = some state' ∧
    (state.final = true → state' = state) ∧
    (state = .waitingApproval → state' = .waitingApproval ∨ state'.final = true)
  waiting : ∀ t, u.stateOf t = some .waitingApproval → s.stateOf t = some .waitingApproval

theorem Eases.refl (s : Desk) : Eases s s :=
  ⟨rfl, rfl, fun _ state h => ⟨state, h, fun _ => rfl, .inl⟩, fun _ h => h⟩

theorem Eases.trans (h : Eases s u) (h' : Eases u v) : Eases s v := by
  refine ⟨h'.approvals.trans h.approvals, h'.now.trans h.now, fun t state hs => ?_,
    fun t hv => h.waiting t (h'.waiting t hv)⟩
  obtain ⟨state', hu, hfinal, hwait⟩ := h.kept t state hs
  obtain ⟨state'', hv, hfinal', hwait'⟩ := h'.kept t state' hu
  refine ⟨state'', hv, fun hf => ?_, fun hw => ?_⟩
  · have heq := hfinal hf
    exact (hfinal' (heq ▸ hf)).trans heq
  · rcases hwait hw with hw | hf
    · exact hwait' hw
    · exact .inr (hfinal' hf ▸ hf)

theorem eases_modify {f : Task → Task}
    (hf : ∀ task, s.tasks[t]? = some task →
      (task.state.final = true → (f task).state = task.state) ∧
      (task.state = .waitingApproval →
        (f task).state = .waitingApproval ∨ (f task).state.final = true) ∧
      ((f task).state = .waitingApproval → task.state = .waitingApproval)) :
    Eases s { s with tasks := s.tasks.modify t f } := by
  have hstate := fun i => stateOf_modify (s := s) (t := t) (f := f)
    (u := { s with tasks := s.tasks.modify t f }) rfl i
  refine ⟨rfl, rfl, fun i state hi => ?_, fun i hi => ?_⟩
  · obtain ⟨task, htask, rfl⟩ := Option.map_eq_some_iff.mp hi
    refine ⟨_, by rw [hstate, htask]; rfl, ?_⟩
    split
    · next heq => exact ⟨(hf task (heq ▸ htask)).1, (hf task (heq ▸ htask)).2.1⟩
    · exact ⟨fun _ => rfl, .inl⟩
  · rw [hstate] at hi
    obtain ⟨task, htask, heq⟩ := Option.map_eq_some_iff.mp hi
    refine Option.map_eq_some_iff.mpr ⟨task, htask, ?_⟩
    split at heq
    · next hti => exact (hf task (hti ▸ htask)).2.2 heq
    · exact heq

theorem cancel_eases (s : Desk) (t : Nat) : Eases s (s.cancel t) := by
  refine eases_modify fun task _ => ?_
  cases hf : task.state.final with
  | true => exact ⟨fun _ => rfl, .inl, fun h => h⟩
  | false => exact ⟨nofun, fun _ => .inr rfl, nofun⟩

theorem cancel_final (h : s.stateOf t ≠ none) :
    ∃ state, (s.cancel t).stateOf t = some state ∧ state.final = true := by
  cases hs : s.tasks[t]? with
  | none => exact absurd (by rw [Desk.stateOf, hs]; rfl) h
  | some task =>
    refine ⟨_, by rw [stateOf_modify (s := s) rfl t, hs]; rfl, ?_⟩
    dsimp only
    rw [if_pos rfl]
    split
    · next hf => exact hf
    · rfl

theorem cancelAll_eases (s : Desk) (ts : List Nat) : Eases s (s.cancelAll ts) := by
  induction ts generalizing s with
  | nil => exact .refl s
  | cons t ts ih => exact (cancel_eases s t).trans (ih (s.cancel t))

theorem releaseDelegate_eases (s : Desk) (a : Approval) (by_ : Option Actor) (fallen : List Nat) :
    Eases s (s.releaseDelegate a by_ fallen) := by
  unfold Desk.releaseDelegate
  split
  · exact .refl s
  · split
    · exact .refl s
    · exact .refl s
    · split
      · exact .refl s
      · exact (cancel_eases s _).trans (cancelAll_eases _ fallen)

/-- Released by a person or the clock, the delegate's task has ended. -/
theorem releaseDelegate_final (by_ : Option Actor) (fallen : List Nat) {state : TaskState}
    (ht : a.delegated = some t) (hs : s.stateOf t = some state) :
    (∃ agent, by_ = some (.agent agent)) ∨
      ∃ state', (s.releaseDelegate a by_ fallen).stateOf t = some state' ∧ state'.final = true := by
  by_cases hby : ∃ agent, by_ = some (.agent agent)
  · exact .inl hby
  · refine .inr ?_
    have hrelease : s.releaseDelegate a by_ fallen =
        if state.final then s else (s.cancel t).cancelAll fallen := by
      unfold Desk.releaseDelegate
      rw [ht]
      dsimp only
      rw [hs]
      rcases by_ with _ | (_ | agent | _)
      · rfl
      · rfl
      · exact absurd ⟨agent, rfl⟩ hby
      · rfl
    rw [hrelease]
    cases hf : state.final with
    | true => exact ⟨state, hs, hf⟩
    | false =>
      obtain ⟨ended, hended, hfinal⟩ := cancel_final (s := s) (t := t) (by rw [hs]; nofun)
      obtain ⟨state', hstate', hsame, _⟩ := (cancelAll_eases (s.cancel t) fallen).kept t ended hended
      exact ⟨state', hstate', by rw [hsame hfinal]; exact hfinal⟩

theorem Sound.eases (h : Sound s) (he : Eases s u) : Sound u := by
  have happ := he.approvals
  refine ⟨happ ▸ h.order, happ ▸ h.ids, happ ▸ h.threads, fun a ha t hp ht => ?_,
    fun t ht => ?_, fun a ha t ht => ?_, he.now ▸ happ ▸ h.late, happ ▸ h.dates,
    happ ▸ h.undecided⟩
  · obtain ⟨state, hs, hw | hf⟩ := h.blocks a (happ ▸ ha) t hp ht
    · obtain ⟨state', hu, _, hwait⟩ := he.kept t state hs
      exact ⟨state', hu, hwait hw⟩
    · obtain ⟨state', hu, hsame, _⟩ := he.kept t state hs
      exact ⟨state', hu, .inr (hsame hf ▸ hf)⟩
  · obtain ⟨a, ha, hstate⟩ := h.asked t (he.waiting t ht)
    exact ⟨a, by rw [Desk.latest, happ]; exact ha, hstate⟩
  · obtain ⟨state, hs, hend⟩ := h.delegates a (happ ▸ ha) t ht
    obtain ⟨state', hu, hsame, _⟩ := he.kept t state hs
    exact ⟨state', hu, fun hp => (hend hp).imp_right fun hf => hsame hf ▸ hf⟩

/-! A row that changes. -/

theorem mem_amend {i : Nat} {f : Approval → Approval} (hb : b ∈ (s.amend i f).approvals) :
    ∃ a ∈ s.approvals, b = if a.id = i then f a else a := by
  obtain ⟨a, ha, rfl⟩ := List.mem_map.mp hb
  exact ⟨a, ha, rfl⟩

theorem Sound.amend_order {f : Approval → Approval} (h : Sound s) (ha : a ∈ s.approvals)
    (hl : ∀ x ∈ s.approvals, Before x a → Before x (f a))
    (hr : ∀ x ∈ s.approvals, Before a x → Before (f a) x) :
    (s.amend a.id f).approvals.Pairwise Before := by
  refine List.pairwise_map.mpr (h.order.imp_of_mem fun {x y} hx hy hxy => ?_)
  by_cases hxa : x.id = a.id
  · obtain rfl := h.unique hx ha hxa
    have hya : y.id ≠ x.id := Nat.ne_of_gt hxy.ids
    rw [if_pos rfl, if_neg hya]
    exact hr y hy hxy
  · rw [if_neg hxa]
    by_cases hya : y.id = a.id
    · obtain rfl := h.unique hy ha hya
      rw [if_pos rfl]
      exact hl x hx hxy
    · rw [if_neg hya]
      exact hxy

theorem latest_amend {i : Nat} {f : Approval → Approval} (hf : ∀ x, (f x).taskId = x.taskId)
    (t : Nat) : (s.amend i f).latest t =
      (s.latest t).map fun a => if a.id = i then f a else a := by
  unfold Desk.latest Desk.amend
  dsimp only
  rw [List.filter_map, List.getLast?_map]
  congr 2
  refine List.filter_congr fun x _ => ?_
  dsimp only [Function.comp]
  split
  · rw [hf]
  · rfl

theorem latest_mem (h : s.latest t = some a) : a ∈ s.approvals ∧ a.taskId = some t := by
  obtain ⟨hmem, htask⟩ := List.mem_filter.mp (List.mem_of_getLast? h)
  exact ⟨hmem, by simpa using htask⟩

/-- What settles, expires or delegates a row leaves its identity. -/
structure Keeps (f : Approval → Approval) : Prop where
  id : ∀ a, (f a).id = a.id
  refType : ∀ a, (f a).refType = a.refType
  refId : ∀ a, (f a).refId = a.refId
  taskId : ∀ a, (f a).taskId = a.taskId
  chain : ∀ a, (f a).chain = a.chain
  delegatedBefore : ∀ a, (f a).delegatedBefore = a.delegatedBefore
  askedUntil : ∀ a, (f a).askedUntil = a.askedUntil

theorem amend_ids {f : Approval → Approval} (h : Sound s) (hf : Keeps f) {i : Nat} :
    ∀ b ∈ (s.amend i f).approvals, b.id < (s.amend i f).approvals.length ∧
      b.chain < (s.amend i f).approvals.length := by
  intro b hb
  obtain ⟨a, ha, rfl⟩ := mem_amend hb
  have hlen : (s.amend i f).approvals.length = s.approvals.length := List.length_map _
  rw [hlen]
  split
  · rw [hf.id, hf.chain]
    exact h.ids a ha
  · exact h.ids a ha

theorem amend_threads {f : Approval → Approval} (h : Sound s) (hf : Keeps f) {i : Nat} :
    ∀ a ∈ (s.amend i f).approvals, ∀ b ∈ (s.amend i f).approvals,
      a.chain = b.chain → a.taskId = b.taskId := by
  intro a ha b hb hchain
  obtain ⟨a', ha', rfl⟩ := mem_amend ha
  obtain ⟨b', hb', rfl⟩ := mem_amend hb
  have hsame : ∀ x : Approval, (if x.id = i then f x else x).chain = x.chain ∧
      (if x.id = i then f x else x).taskId = x.taskId := by
    intro x
    split
    · exact ⟨hf.chain x, hf.taskId x⟩
    · exact ⟨rfl, rfl⟩
  rw [(hsame a').1, (hsame b').1] at hchain
  rw [(hsame a').2, (hsame b').2]
  exact h.threads a' ha' b' hb' hchain

/-- A pending row that leaves PENDING: its task may leave WAITING_APPROVAL with it. -/
theorem Sound.settled {f : Approval → Approval} (h : Sound s) (hf : Keeps f)
    (hdel : ∀ a, (f a).delegated = a.delegated) (hexp : ∀ a, (f a).expiresAt = a.expiresAt)
    (ha : a ∈ s.approvals) (hp : a.state = .pending) (hend : (f a).state ≠ .pending)
    (happ : v.approvals = (s.amend a.id f).approvals) (hnow : v.now = s.now)
    (hkept : ∀ t state, s.stateOf t = some state → ∃ state', v.stateOf t = some state' ∧
      (state.final = true → state' = state) ∧
      (state = .waitingApproval → state' = .waitingApproval ∨ state'.final = true ∨
        a.taskId = some t))
    (hwait : ∀ t, v.stateOf t = some .waitingApproval → s.stateOf t = some .waitingApproval ∧
      (a.taskId = some t → (f a).state = .expired))
    (hdone : ∀ t, a.delegated = some t → (∃ agent, (f a).decidedBy = some (.agent agent)) ∨
      ∃ state, v.stateOf t = some state ∧ state.final = true) : Sound v := by
  have horder : (s.amend a.id f).approvals.Pairwise Before := by
    refine h.amend_order ha (fun x _ hx => ⟨?_, ?_, ?_, ?_, ?_⟩) fun x _ hx => ⟨?_, ?_, ?_, ?_, ?_⟩
    · rw [hf.id]
      exact hx.ids
    · rw [hf.taskId]
      exact hx.task
    · rw [hf.chain]
      exact hx.chain
    · exact fun _ _ _ => hend
    · rw [hf.chain, hdel, hf.delegatedBefore]
      exact hx.delegation
    · rw [hf.id]
      exact hx.ids
    · exact fun _ _ _ => hend
    · exact fun _ => hend
    · exact fun _ _ hpend => absurd hpend hend
    · rw [hf.chain, hdel, hf.delegatedBefore]
      exact hx.delegation
  have hrow : ∀ b ∈ v.approvals, b = f a ∨ (b ∈ s.approvals ∧ b.id ≠ a.id) := by
    intro b hb
    obtain ⟨x, hx, rfl⟩ := mem_amend (happ ▸ hb)
    split
    · next hid =>
      obtain rfl := h.unique hx ha hid
      exact .inl rfl
    · next hid => exact .inr ⟨hx, hid⟩
  refine ⟨happ ▸ horder, happ ▸ amend_ids h hf, happ ▸ amend_threads h hf, fun b hb t hpb ht => ?_,
    fun t ht => ?_, fun b hb t ht => ?_, fun b hb hdb => ?_, fun b hb hdb => ?_, fun b hb hpb => ?_⟩
  · rcases hrow b hb with rfl | ⟨hb, hid⟩
    · exact absurd hpb hend
    · obtain ⟨state, hs, hst⟩ := h.blocks b hb t hpb ht
      obtain ⟨state', hv, hsame, hmove⟩ := hkept t state hs
      rcases hst with hw | hfin
      · rcases hmove hw with hw' | hf' | htask
        · exact ⟨state', hv, .inl hw'⟩
        · exact ⟨state', hv, .inr hf'⟩
        · exact absurd (congrArg Approval.id (h.one_per_task hb ha ht htask hpb hp)) hid
      · exact ⟨state', hv, .inr (hsame hfin ▸ hfin)⟩
  · obtain ⟨hs, hexpired⟩ := hwait t ht
    obtain ⟨b, hlatest, hstate⟩ := h.asked t hs
    have hvl : v.latest t = some (if b.id = a.id then f b else b) := by
      rw [Desk.latest, happ]
      exact (latest_amend hf.taskId t).trans (by rw [hlatest]; rfl)
    refine ⟨_, hvl, ?_⟩
    split
    · next hid =>
      obtain rfl := h.unique (latest_mem hlatest).1 ha hid
      exact .inr (hexpired (latest_mem hlatest).2)
    · exact hstate
  · rcases hrow b hb with rfl | ⟨hb, _⟩
    · rw [hdel] at ht
      obtain ⟨state, hs, _⟩ := h.delegates a ha t ht
      obtain ⟨state', hv, _⟩ := hkept t state hs
      refine ⟨state', hv, fun _ => (hdone t ht).imp_right fun ⟨ended, hended, hfin⟩ => ?_⟩
      obtain rfl := Option.some.inj (hv.symm.trans hended)
      exact hfin
    · obtain ⟨state, hs, hold⟩ := h.delegates b hb t ht
      obtain ⟨state', hv, hsame, _⟩ := hkept t state hs
      exact ⟨state', hv, fun hpb => (hold hpb).imp_right fun hfin => hsame hfin ▸ hfin⟩
  · rw [hnow]
    rcases hrow b hb with rfl | ⟨hb, _⟩
    · rw [hf.askedUntil]
      exact h.late a ha (hdel a ▸ hdb)
    · exact h.late b hb hdb
  · rcases hrow b hb with rfl | ⟨hb, _⟩
    · rw [hf.askedUntil, hexp]
      exact h.dates a ha (hdel a ▸ hdb)
    · exact h.dates b hb hdb
  · rcases hrow b hb with rfl | ⟨hb, _⟩
    · exact absurd hpb hend
    · exact h.undecided b hb hpb

theorem stateOf_append {s' : Desk} {task : Task} (hs : s'.tasks = s.tasks ++ [task]) :
    s'.stateOf t = if t = s.tasks.length then some task.state else s.stateOf t := by
  unfold Desk.stateOf
  rw [hs]
  split
  · next heq => rw [heq, List.getElem?_concat_length]; rfl
  · next hne =>
    by_cases hlt : t < s.tasks.length
    · rw [List.getElem?_append_left hlt]
    · rw [List.getElem?_eq_none (by rw [List.length_append, List.length_singleton]; omega),
        List.getElem?_eq_none (by omega)]

theorem stateOf_lt {state : TaskState} (h : s.stateOf t = some state) : t < s.tasks.length := by
  obtain ⟨task, htask, _⟩ := Option.map_eq_some_iff.mp h
  exact (List.getElem?_eq_some_iff.mp htask).1

theorem stateOf_append_some {s' : Desk} {task : Task} {state : TaskState}
    (hs : s'.tasks = s.tasks ++ [task]) (h : s.stateOf t = some state) :
    s'.stateOf t = some state := by
  have := stateOf_lt h
  rw [stateOf_append hs, if_neg (by omega)]
  exact h

/-- An overdue row handed to its delegate, whose task is new. -/
theorem Sound.handed (h : Sound s) (ha : a ∈ s.approvals) (hp : a.state = .pending)
    (hnone : a.delegated = none) (hbefore : a.delegatedBefore = false)
    (hlate : a.askedUntil ≤ s.now) :
    Sound (s.handed a.id) := by
  let f : Approval → Approval := fun a =>
    { a with delegated := some s.tasks.length, expiresAt := s.now + delegateWindow }
  have hf : Keeps f := ⟨fun _ => rfl, fun _ => rfl, fun _ => rfl, fun _ => rfl, fun _ => rfl,
    fun _ => rfl, fun _ => rfl⟩
  have horder : (s.amend a.id f).approvals.Pairwise Before := by
    refine h.amend_order ha (fun x _ hx => ⟨hx.ids, hx.task, hx.chain, hx.ref, ?_⟩)
      fun x _ hx => ⟨hx.ids, hx.task, hx.chain, hx.ref, ?_⟩
    · intro hchain hasked
      exact absurd ((hx.delegation hchain hasked).2) (by rw [hbefore]; nofun)
    · intro hchain _
      exact absurd hp (hx.chain hchain)
  have hrow : ∀ b ∈ (s.amend a.id f).approvals, b = f a ∨ b ∈ s.approvals := by
    intro b hb
    obtain ⟨x, hx, rfl⟩ := mem_amend hb
    split
    · next hid =>
      obtain rfl := h.unique hx ha hid
      exact .inl rfl
    · exact .inr hx
  refine ⟨horder, amend_ids h hf, amend_threads h hf, fun b hb t hpb ht => ?_, fun t ht => ?_,
    fun b hb t ht => ?_, fun b hb hdb => ?_, fun b hb hdb => ?_, fun b hb hpb => ?_⟩
  · obtain ⟨state, hs, hst⟩ : ∃ state, s.stateOf t = some state ∧
        (state = .waitingApproval ∨ state.final = true) := by
      rcases hrow b hb with rfl | hb
      · exact h.blocks a ha t hp ht
      · exact h.blocks b hb t hpb ht
    exact ⟨state, stateOf_append_some (s := s) rfl hs, hst⟩
  · rw [stateOf_append (s := s) rfl] at ht
    split at ht
    · cases ht
    · obtain ⟨b, hlatest, hstate⟩ := h.asked t ht
      refine ⟨_, (latest_amend hf.taskId t).trans (by rw [hlatest]; rfl), ?_⟩
      dsimp only
      split
      · exact hstate
      · exact hstate
  · rcases hrow b hb with rfl | hb
    · obtain rfl := Option.some.inj ht
      refine ⟨.ready, ?_, fun hne => absurd hp hne⟩
      rw [stateOf_append (s := s) rfl, if_pos rfl]
    · obtain ⟨state, hs, hold⟩ := h.delegates b hb t ht
      exact ⟨state, stateOf_append_some (s := s) rfl hs, hold⟩
  · rcases hrow b hb with rfl | hb
    · exact hlate
    · exact h.late b hb hdb
  · rcases hrow b hb with rfl | hb
    · cases hdb
    · exact h.dates b hb hdb
  · rcases hrow b hb with rfl | hb
    · exact h.undecided a ha hp
    · exact h.undecided b hb hpb

theorem latest_filed (happ : v.approvals = s.approvals ++ [n]) (t : Nat) :
    v.latest t = if n.taskId = some t then some n else s.latest t := by
  unfold Desk.latest
  rw [happ, List.filter_append]
  split
  · next ht =>
    rw [List.filter_singleton, ht, beq_self_eq_true, cond_true, List.getLast?_concat]
  · next ht =>
    rw [List.filter_singleton, beq_eq_false_iff_ne.mpr ht, cond_false, List.append_nil]

/-- A new row, and its task waits. -/
theorem Sound.filed (h : Sound s) (happ : v.approvals = s.approvals ++ [n]) (hnow : v.now = s.now)
    (hid : n.id = s.approvals.length) (hchain : n.chain ≤ s.approvals.length)
    (hbefore : ∀ a ∈ s.approvals, Before a n)
    (hthread : ∀ a ∈ s.approvals, a.chain = n.chain → a.taskId = n.taskId)
    (hdel : n.delegated = none) (hby : n.decidedBy = none) (hdate : n.askedUntil = n.expiresAt)
    (hp : n.state = .pending)
    (hkept : ∀ t state, s.stateOf t = some state → ∃ state', v.stateOf t = some state' ∧
      (state.final = true → state' = state) ∧ (state = .waitingApproval → state' = state))
    (henter : ∀ t, v.stateOf t = some .waitingApproval →
      s.stateOf t = some .waitingApproval ∨ n.taskId = some t)
    (hown : ∀ t, n.taskId = some t → v.stateOf t = some .waitingApproval) : Sound v := by
  have hrow : ∀ b ∈ v.approvals, b ∈ s.approvals ∨ b = n := by
    intro b hb
    rw [happ] at hb
    exact (List.mem_append.mp hb).imp_right List.mem_singleton.mp
  have hlen : v.approvals.length = s.approvals.length + 1 := by
    rw [happ, List.length_append, List.length_singleton]
  refine ⟨?_, fun b hb => ?_, fun b hb c hc => ?_, fun b hb t hpb ht => ?_, fun t ht => ?_,
    fun b hb t ht => ?_, fun b hb hdb => ?_, fun b hb hdb => ?_, fun b hb hpb => ?_⟩
  · rw [happ]
    refine List.pairwise_append.mpr ⟨h.order, List.pairwise_singleton _ _, fun b hb c hc => ?_⟩
    rw [List.mem_singleton.mp hc]
    exact hbefore b hb
  · rw [hlen]
    rcases hrow b hb with hb | rfl
    · have := h.ids b hb
      omega
    · omega
  · rcases hrow b hb with hb | rfl
    · rcases hrow c hc with hc | rfl
      · exact h.threads b hb c hc
      · exact hthread b hb
    · rcases hrow c hc with hc | rfl
      · exact fun heq => (hthread c hc heq.symm).symm
      · exact fun _ => rfl
  · rcases hrow b hb with hb | rfl
    · obtain ⟨state, hs, hst⟩ := h.blocks b hb t hpb ht
      obtain ⟨state', hv, hsame, hwait⟩ := hkept t state hs
      rcases hst with hw | hfin
      · exact ⟨state', hv, .inl ((hwait hw).trans hw)⟩
      · exact ⟨state', hv, .inr (hsame hfin ▸ hfin)⟩
    · exact ⟨_, hown t ht, .inl rfl⟩
  · rw [latest_filed happ]
    split
    · exact ⟨n, rfl, .inl hp⟩
    · next hne => exact h.asked t ((henter t ht).resolve_right hne)
  · rcases hrow b hb with hb | rfl
    · obtain ⟨state, hs, hold⟩ := h.delegates b hb t ht
      obtain ⟨state', hv, hsame, _⟩ := hkept t state hs
      exact ⟨state', hv, fun hpb => (hold hpb).imp_right fun hfin => hsame hfin ▸ hfin⟩
    · rw [hdel] at ht
      cases ht
  · rw [hnow]
    rcases hrow b hb with hb | rfl
    · exact h.late b hb hdb
    · exact absurd hdel hdb
  · rcases hrow b hb with hb | rfl
    · exact h.dates b hb hdb
    · exact hdate
  · rcases hrow b hb with hb | rfl
    · exact h.undecided b hb hpb
    · exact hby

theorem create_some {r : Request} {before : Bool} {chain : Nat}
    (h : s.create cfg r before chain = some u) :
    (∀ a ∈ s.approvals, a.refType = r.refType → a.refId = r.refId → a.state ≠ .pending) ∧
      u = { s with approvals := s.approvals ++ [s.filing cfg r before chain] } := by
  unfold Desk.create at h
  split at h
  · cases h
  · next hnone =>
    refine ⟨fun a ha htype href hp => hnone (List.any_eq_true.mpr ⟨a, ha, ?_⟩),
      (Option.some.inj h).symm⟩
    simp [Approval.sameRef, Approval.isPending, htype, href, hp]

/-- A request for something whose task has no open approval. -/
theorem Sound.requested {r : Request} (h : Sound s)
    (hc : s.create cfg r false s.approvals.length = some u)
    (hfree : ∀ a ∈ s.approvals, ∀ t, r.taskId = some t → a.taskId = some t → a.state ≠ .pending)
    (happ : v.approvals = u.approvals) (hnow : v.now = s.now)
    (hkept : ∀ t state, s.stateOf t = some state → ∃ state', v.stateOf t = some state' ∧
      (state.final = true → state' = state) ∧ (state = .waitingApproval → state' = state))
    (henter : ∀ t, v.stateOf t = some .waitingApproval →
      s.stateOf t = some .waitingApproval ∨ r.taskId = some t)
    (hown : ∀ t, r.taskId = some t → v.stateOf t = some .waitingApproval) : Sound v := by
  obtain ⟨href, rfl⟩ := create_some hc
  have hnew : ∀ a ∈ s.approvals, a.chain ≠ s.approvals.length := fun a ha =>
    Nat.ne_of_lt (h.ids a ha).2
  refine h.filed happ hnow rfl (Nat.le_refl _) (fun a ha => ⟨(h.ids a ha).1, ?_, ?_, ?_, ?_⟩)
    (fun a ha heq => absurd heq (hnew a ha)) rfl rfl rfl rfl hkept henter hown
  · exact fun t ht hr => hfree a ha t hr ht
  · exact fun heq => absurd heq (hnew a ha)
  · exact fun htype hid hp => absurd hp (href a ha htype hid)
  · exact fun heq => absurd heq (hnew a ha)

/-- Every earlier row of the task, and so of the chain, is settled when the latest is. -/
theorem Sound.earlier (h : Sound s) (hlatest : s.latest t = some a) (hb : b ∈ s.approvals)
    (ht : b.taskId = some t) : b = a ∨ Before b a := by
  unfold Desk.latest at hlatest
  obtain ⟨l, hl⟩ := List.getLast?_eq_some_iff.mp hlatest
  have hmem : b ∈ s.approvals.filter fun a => a.taskId == some t :=
    List.mem_filter.mpr ⟨hb, by simp [ht]⟩
  have horder := h.order.filter fun a => a.taskId == some t
  rw [hl] at hmem horder
  rcases List.mem_append.mp hmem with hmem | hmem
  · exact .inr ((List.pairwise_append.mp horder).2.2 b hmem a (List.mem_singleton.mpr rfl))
  · exact .inl (List.mem_singleton.mp hmem)

/-- A waiting task is asked for again. -/
theorem Sound.renewed (h : Sound s) (hwait : s.stateOf t = some .waitingApproval)
    (hlatest : s.latest t = some a) (hexp : a.state = .expired)
    (hc : s.create cfg ⟨a.refType, a.refId, a.taskId, a.runId, a.action, none⟩
      (a.delegated.isSome || a.delegatedBefore) a.chain = some u) : Sound u := by
  obtain ⟨ha, hta⟩ := latest_mem hlatest
  obtain ⟨href, rfl⟩ := create_some hc
  have hsettled : ∀ b ∈ s.approvals, b.taskId = some t → b.state ≠ .pending := by
    intro b hb ht
    rcases h.earlier hlatest hb ht with rfl | hba
    · rw [hexp]
      nofun
    · exact hba.task t ht hta
  have hthread : ∀ b ∈ s.approvals, b.chain = a.chain → b.taskId = some t := fun b hb heq =>
    (h.threads b hb a ha heq).trans hta
  refine h.filed rfl rfl rfl (Nat.le_of_lt (h.ids a ha).2)
    (fun b hb => ⟨(h.ids b hb).1, ?_, ?_, ?_, ?_⟩) (fun b hb => h.threads b hb a ha)
    rfl rfl rfl rfl (fun t state hs => ⟨state, hs, fun _ => rfl, fun _ => rfl⟩)
    (fun t ht => .inl ht) (fun t' ht' => ?_)
  · intro t' htb hta'
    obtain rfl := Option.some.inj (hta.symm.trans hta')
    exact hsettled b hb htb
  · exact fun heq => hsettled b hb (hthread b hb heq)
  · exact fun htype hid hp => absurd hp (href b hb htype hid)
  · intro heq hasked
    refine ⟨rfl, ?_⟩
    show (a.delegated.isSome || a.delegatedBefore) = true
    rcases h.earlier hlatest hb (hthread b hb heq) with rfl | hba
    · rcases hasked with hd | hd
      · rw [Option.isSome_iff_ne_none.mpr hd, Bool.true_or]
      · rw [hd, Bool.or_true]
    · rw [(hba.delegation heq hasked).2, Bool.or_true]
  · obtain rfl := Option.some.inj (hta.symm.trans ht')
    exact hwait

end Autora.Approvals
