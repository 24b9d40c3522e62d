import Autora.Scheduler

/-! Each slot of a schedule is fired once, as long as no handler commits the
session of its firing. -/

namespace Autora.Schedules

open Systems

variable {W : Type} {s t : Database W} {c : Croniter} {pool : WorkerId → Scheduler}
  {sch : Scheduler} {v w : WorkerId}

theorem nextFireTime_later {cron zone : String} {after next : Int}
    (h : nextFireTime c cron zone after = .ok next) : after < next := by
  simp only [nextFireTime] at h
  split at h
  · cases h
  · split at h
    · cases h
    · exact c.later cron zone after next h

theorem Chained.snoc {a b : Int} {fs : List (Fired W)} {f : Fired W} (h : Chained a fs b)
    (hslot : f.scheduledFor = b) (hpast : f.scheduledFor < f.movedTo)
    (htime : f.time < f.movedTo) : Chained a (fs ++ [f]) f.movedTo := by
  induction fs generalizing a with
  | nil =>
    have hab : a = b := h
    exact ⟨hslot.trans hab.symm, hpast, htime, rfl⟩
  | cons g gs ih => exact ⟨h.1, h.2.1, h.2.2.1, ih h.2.2.2⟩

theorem Chained.from_le {a b : Int} {fs : List (Fired W)} (h : Chained a fs b) :
    ∀ f ∈ fs, a ≤ f.scheduledFor := by
  induction fs generalizing a with
  | nil => intro f hf; cases hf
  | cons g gs ih =>
    intro f hf
    have hg : a ≤ g.scheduledFor := by
      have := h.1
      omega
    rcases List.mem_cons.mp hf with rfl | hf
    · exact hg
    · have := ih h.2.2.2 f hf
      have := h.2.1
      omega

theorem Chained.apart {a b : Int} {fs : List (Fired W)} (h : Chained a fs b) :
    fs.Pairwise fun f g => f.movedTo ≤ g.scheduledFor := by
  induction fs generalizing a with
  | nil => exact .nil
  | cons g gs ih => exact .cons h.2.2.2.from_le (ih h.2.2.2)

def Phase.entries : Phase W → List (ScheduleId × Int)
  | .idle => []
  | .ticking claimed => claimed
  | .firing run rest => (run.id, run.scheduledFor) :: rest
  | .failing _ _ rest => rest

/-- What a worker may rely on while it works through what it claimed. -/
structure Faithful (s : Database W) (v : WorkerId) : Prop where
  owned : ∀ e ∈ (s.phase v).entries, ∀ row, s.rows e.1 = some row → row.owned v = true →
    row.nextRunAt = e.2
  claimed : ∀ e ∈ (s.phase v).entries, ⟨v, e.1, e.2⟩ ∈ s.claims
  held : ∀ run rest, s.phase v = .firing run rest → run.expired = false →
    s.locks run.id = some v ∧ s.rows run.id = some run.row ∧ run.row.owned v = true ∧
      run.pending = run.made

structure Recorded (s : Database W) : Prop where
  chained : ∀ id row, s.rows id = some row → ∃ t, Chained t (firedOf id s.fired) row.nextRunAt
  unborn : ∀ id, s.rows id = none → firedOf id s.fired = []
  claimed : ∀ f ∈ s.fired, ⟨f.worker, f.schedule, f.scheduledFor⟩ ∈ s.claims
  writes : s.written = writtenBy s.fired

structure Sound (s : Database W) : Prop where
  workers : ∀ v, Faithful s v
  recorded : Recorded s

/-- A worker does not notice a step of another one that leaves its locked rows alone and
gives it no row. -/
theorem Faithful.frame (h : Faithful s v) (hphase : t.phase v = s.phase v)
    (hlocks : ∀ id, s.locks id = some v → t.locks id = some v)
    (hclaims : ∀ x ∈ s.claims, x ∈ t.claims)
    (hkept : ∀ id row, s.locks id = some v → s.rows id = some row → t.rows id = some row)
    (hrows : ∀ id row, t.rows id = some row → row.owned v = true →
      ∃ r, s.rows id = some r ∧ r.owned v = true ∧ r.nextRunAt = row.nextRunAt) :
    Faithful t v where
  owned e he row hrow hown := by
    obtain ⟨r, hr, hrown, hnext⟩ := hrows e.1 row hrow hown
    rw [hphase] at he
    exact hnext.symm.trans (h.owned e he r hr hrown)
  claimed e he := hclaims _ (h.claimed e (hphase ▸ he))
  held run rest hrun hexp := by
    obtain ⟨hlock, hrow, hown, hmade⟩ := h.held run rest (hphase ▸ hrun) hexp
    exact ⟨hlocks _ hlock, hkept _ _ hlock hrow, hown, hmade⟩

theorem Recorded.frame (h : Recorded s) (hfired : t.fired = s.fired)
    (hwritten : t.written = s.written) (hclaims : ∀ x ∈ s.claims, x ∈ t.claims)
    (hrows : ∀ id row, t.rows id = some row →
      ∃ r, s.rows id = some r ∧ r.nextRunAt = row.nextRunAt)
    (hnone : ∀ id, t.rows id = none → s.rows id = none) : Recorded t where
  chained id row hrow := by
    obtain ⟨r, hr, hnext⟩ := hrows id row hrow
    rw [hfired, ← hnext]
    exact h.chained id r hr
  unborn id hid := by
    rw [hfired]
    exact h.unborn id (hnone id hid)
  claimed f hf := hclaims _ (h.claimed f (hfired ▸ hf))
  writes := by rw [hwritten, hfired, h.writes]

theorem Database.unlock_locks_of_ne {id : ScheduleId} (h : v ≠ w) (hl : s.locks id = some v) :
    (s.unlock w).locks id = some v := by
  show (if s.locks id = some w then none else s.locks id) = some v
  rw [if_neg (by simp [hl, h]), hl]

/-- A step of one worker that changes no row. -/
theorem Sound.turn (h : Sound s) {p : Phase W} (hphase : t.phase = Function.update s.phase w p)
    (hrows : t.rows = s.rows) (hclaims : t.claims = s.claims) (hfired : t.fired = s.fired)
    (hwritten : t.written = s.written)
    (hlocks : ∀ v, v ≠ w → ∀ id, s.locks id = some v → t.locks id = some v)
    (hentries : ∀ e ∈ p.entries, e ∈ (s.phase w).entries)
    (hheld : ∀ run rest, p = .firing run rest → run.expired = false →
      t.locks run.id = some w ∧ s.rows run.id = some run.row ∧ run.row.owned w = true ∧
        run.pending = run.made) : Sound t where
  workers v := by
    by_cases hv : v = w
    · subst hv
      have hp : t.phase v = p := by rw [hphase, Function.update_self]
      refine ⟨?_, ?_, ?_⟩
      · intro e he row hrow hown
        rw [hp] at he
        rw [hrows] at hrow
        exact (h.workers v).owned e (hentries e he) row hrow hown
      · intro e he
        rw [hp] at he
        rw [hclaims]
        exact (h.workers v).claimed e (hentries e he)
      · intro run rest hrun hexp
        rw [hrows]
        exact hheld run rest (hp.symm.trans hrun) hexp
    · have hp : t.phase v = s.phase v := by rw [hphase, Function.update_of_ne hv]
      apply (h.workers v).frame hp (hlocks v hv)
      · intro x hx
        rwa [hclaims]
      · intro id row _ hrow
        rwa [hrows]
      · intro id row hrow hown
        exact ⟨row, hrows ▸ hrow, hown, rfl⟩
  recorded := h.recorded.frame hfired hwritten (by rw [hclaims]; exact fun _ hx => hx)
    (fun _ row hrow => ⟨row, hrows ▸ hrow, rfl⟩) fun _ hid => hrows ▸ hid

theorem Sound.put (h : Sound s) {p : Phase W} (hentries : ∀ e ∈ p.entries, e ∈ (s.phase w).entries)
    (hp : ∀ run rest, p ≠ .firing run rest) : Sound (s.put w p) :=
  h.turn rfl rfl rfl rfl rfl (fun _ _ _ hl => hl) hentries
    fun run rest hrun => absurd hrun (hp run rest)

theorem Sound.leave (h : Sound s) {p : Phase W}
    (hentries : ∀ e ∈ p.entries, e ∈ (s.phase w).entries)
    (hp : ∀ run rest, p = .firing run rest → run.expired = true) :
    Sound ((s.unlock w).put w p) :=
  h.turn rfl rfl rfl rfl rfl (fun _ hv _ hl => Database.unlock_locks_of_ne hv hl) hentries
    fun run rest hrun hexp => by rw [hp run rest hrun] at hexp; cases hexp

theorem Sound.fails (h : Sound s) {id : ScheduleId} {exc : Raised}
    {rest : List (ScheduleId × Int)} (hrest : ∀ e ∈ rest, e ∈ (s.phase w).entries) :
    Sound (s.fails w id exc rest) :=
  h.leave hrest (by intro run rest h; cases h)

theorem Database.free_locks {id : ScheduleId} (hfree : s.free w id = true) (hv : v ≠ w)
    (hl : s.locks id = some v) : False := by
  simp only [Database.free, hl, Bool.or_eq_true, decide_eq_true_eq, reduceCtorEq, false_or,
    Option.some.injEq] at hfree
  exact hv hfree

theorem Database.store_rows {id id' : ScheduleId} {r row : Schedule}
    (h : (s.store id r).rows id' = some row) :
    id' = id ∧ row = r ∨ id' ≠ id ∧ s.rows id' = some row := by
  have h : Function.update s.rows id (some r) id' = some row := h
  by_cases hid : id' = id
  · subst hid
    rw [Function.update_self] at h
    exact .inl ⟨rfl, (Option.some.inj h).symm⟩
  · rw [Function.update_of_ne hid] at h
    exact .inr ⟨hid, h⟩

theorem Database.store_none {id id' : ScheduleId} {r : Schedule}
    (h : (s.store id r).rows id' = none) : id' ≠ id ∧ s.rows id' = none := by
  have h : Function.update s.rows id (some r) id' = none := h
  by_cases hid : id' = id
  · subst hid
    rw [Function.update_self] at h
    cases h
  · rw [Function.update_of_ne hid] at h
    exact ⟨hid, h⟩

theorem Database.store_of_ne {id id' : ScheduleId} {r : Schedule} (h : id' ≠ id) :
    (s.store id r).rows id' = s.rows id' :=
  Function.update_of_ne h ..

theorem Database.store_kept {id id' : ScheduleId} {r row : Schedule} (hfree : s.free w id = true)
    (hv : v ≠ w) (hl : s.locks id' = some v) (hrow : s.rows id' = some row) :
    (s.store id r).rows id' = some row := by
  have hid : id' ≠ id := fun h => Database.free_locks hfree hv (h ▸ hl)
  rw [Database.store_of_ne hid, hrow]

/-- The end of a transaction of `w` that wrote rows no other worker had locked. -/
theorem Sound.writes (h : Sound s) {p : Phase W} (hphase : t.phase = Function.update s.phase w p)
    (hlocks : ∀ v, v ≠ w → ∀ id, s.locks id = some v → t.locks id = some v)
    (hclaims : ∀ x ∈ s.claims, x ∈ t.claims)
    (hkept : ∀ v, v ≠ w → ∀ id row, s.locks id = some v → s.rows id = some row →
      t.rows id = some row)
    (hrows : ∀ v, v ≠ w → ∀ id row, t.rows id = some row → row.owned v = true →
      s.rows id = some row)
    (howned : ∀ e ∈ p.entries, ∀ row, t.rows e.1 = some row → row.owned w = true →
      row.nextRunAt = e.2)
    (hclaimed : ∀ e ∈ p.entries, ⟨w, e.1, e.2⟩ ∈ t.claims)
    (hp : ∀ run rest, p ≠ .firing run rest) (hrec : Recorded t) : Sound t where
  workers v := by
    by_cases hv : v = w
    · subst hv
      have hself : t.phase v = p := by rw [hphase, Function.update_self]
      refine ⟨?_, ?_, ?_⟩
      · intro e he
        exact howned e (hself ▸ he)
      · intro e he
        exact hclaimed e (hself ▸ he)
      · intro run rest hrun _
        exact absurd (hself.symm.trans hrun) (hp run rest)
    · apply (h.workers v).frame (by rw [hphase, Function.update_of_ne hv]) (hlocks v hv) hclaims
        (hkept v hv)
      intro id row hrow hown
      exact ⟨row, hrows v hv id row hrow hown, hown, rfl⟩
  recorded := hrec

theorem owned_lease {row : Schedule} {expires : Int} :
    Schedule.owned { row with lease := some ⟨w, expires⟩ } v = decide (w = v) := rfl

theorem create_sound {id : ScheduleId} {name cron timezone handler : String} {now : Int}
    (h : Sound s) (hs : s.create c id name cron timezone handler now = some t) : Sound t := by
  simp only [Database.create] at hs
  split at hs
  · next next hnone _ =>
    cases hs
    have hne : ∀ id' row, s.rows id' = some row → id' ≠ id := by
      intro id' row hrow hid
      rw [hid, hnone] at hrow
      cases hrow
    constructor
    · intro v
      apply (h.workers v).frame (t := s.store id _) rfl (fun _ hl => hl) (fun _ hx => hx)
      · intro id' row _ hrow
        rw [Database.store_of_ne (hne id' row hrow), hrow]
      · intro id' row hrow hown
        rcases Database.store_rows hrow with ⟨_, rfl⟩ | ⟨_, hrow⟩
        · cases hown
        · exact ⟨row, hrow, hown, rfl⟩
    · refine ⟨?_, ?_, h.recorded.claimed, h.recorded.writes⟩
      · intro id' row hrow
        rcases Database.store_rows hrow with ⟨rfl, rfl⟩ | ⟨_, hrow⟩
        · refine ⟨next, ?_⟩
          show Chained next (firedOf id' s.fired) next
          rw [h.recorded.unborn id' hnone]
          rfl
        · exact h.recorded.chained id' row hrow
      · intro id' hid
        exact h.recorded.unborn id' (Database.store_none hid).2
  · cases hs

theorem begin_sound (h : Sound s) (hs : s.begin sch w = some t) : Sound t := by
  simp only [Database.begin] at hs
  split at hs
  · next id slot rest hph =>
    have hrest : ∀ e ∈ rest, e ∈ (s.phase w).entries := by
      intro e he
      rw [hph]
      exact List.mem_cons_of_mem _ he
    have hput : Sound (s.put w (.ticking rest)) := h.put hrest (by intro _ _ h; cases h)
    split at hs
    · next hfree =>
      split at hs
      · cases hs
        exact hput
      · next row hrow =>
        split at hs
        · cases hs
          exact hput
        · next hown =>
          split at hs
          · cases hs
            exact h.fails hrest
          · cases hs
            apply h.turn (t := (s.lock w id).put w _) rfl rfl rfl rfl rfl
            · intro v hv id' hl
              have hid : id' ≠ id := fun e => Database.free_locks hfree hv (e ▸ hl)
              show Function.update s.locks id (some w) id' = some v
              rw [Function.update_of_ne hid, hl]
            · intro e he
              rw [hph]
              exact he
            · intro run rest' hrun _
              cases hrun
              refine ⟨Function.update_self .., hrow, ?_, rfl⟩
              exact eq_true_of_ne_false hown
    · cases hs
  · cases hs

theorem write_sound {x : W} (h : Sound s) (hs : s.write w x = some t) : Sound t := by
  simp only [Database.write] at hs
  split at hs
  · next run rest hph =>
    cases hs
    apply h.turn (t := s.put w _) rfl rfl rfl rfl rfl (fun _ _ _ hl => hl)
    · intro e he
      rw [hph]
      exact he
    · intro run' rest' hrun hexp
      cases hrun
      obtain ⟨hlock, hrow, hown, hmade⟩ := (h.workers w).held run rest hph hexp
      exact ⟨hlock, hrow, hown, by rw [hmade]⟩
  · cases hs

theorem rest_entries {run : Run W} {rest : List (ScheduleId × Int)}
    (hph : s.phase w = .firing run rest) : ∀ e ∈ rest, e ∈ (s.phase w).entries := by
  intro e he
  rw [hph]
  exact List.mem_cons_of_mem _ he

theorem handlerRollback_sound (h : Sound s) (hs : s.handlerRollback w = some t) : Sound t := by
  simp only [Database.handlerRollback] at hs
  split at hs
  · next run rest hph =>
    cases hs
    apply h.leave
    · intro e he
      rw [hph]
      exact he
    · intro run' rest' hrun
      cases hrun
      rfl
  · cases hs

theorem handlerRaise_sound {exc : Raised} (h : Sound s) (hs : s.handlerRaise w exc = some t) :
    Sound t := by
  simp only [Database.handlerRaise] at hs
  split at hs
  · next run rest hph =>
    cases hs
    exact h.fails (rest_entries hph)
  · cases hs

theorem finish_sound (h : Sound s) (hs : s.finish w = some t) : Sound t := by
  simp only [Database.finish] at hs
  split at hs
  · cases hs
    exact h.put (fun _ he => absurd he List.not_mem_nil) (by intro _ _ h; cases h)
  · cases hs

theorem crash_sound (h : Sound s) : Sound (s.crash w) :=
  h.leave (fun _ he => absurd he List.not_mem_nil) (by intro _ _ h; cases h)

theorem record_sound {now : Int} (h : Sound s) (hs : s.record sch w now = some t) : Sound t := by
  simp only [Database.record] at hs
  split at hs
  · next id exc rest hph =>
    have hrest : ∀ e ∈ rest, e ∈ (s.phase w).entries := by
      intro e he
      rwa [hph]
    have hput : Sound (s.put w (.ticking rest)) := h.put hrest (by intro _ _ h; cases h)
    split at hs
    · next hfree =>
      split at hs
      · cases hs
        exact hput
      · next row hrow =>
        split at hs
        · cases hs
          exact hput
        · next hown =>
          cases hs
          have hmine : row.owned w = true := eq_true_of_ne_false hown
          apply h.writes (t := (s.store id _).put w _) (p := .ticking rest) rfl
            (fun _ _ _ hl => hl) (fun _ hx => hx)
          · intro v hv id' row' hl hrow'
            exact Database.store_kept hfree hv hl hrow'
          · intro v hv id' row' hrow' hown'
            rcases Database.store_rows hrow' with ⟨_, rfl⟩ | ⟨_, hrow'⟩
            · simp only [Database.failedRow, Schedule.owned, Option.any_some,
                decide_eq_true_eq] at hown'
              exact absurd hown'.symm hv
            · exact hrow'
          · intro e he row' hrow' hown'
            rcases Database.store_rows hrow' with ⟨hid, rfl⟩ | ⟨_, hrow'⟩
            · exact (h.workers w).owned e (hrest e he) row (hid ▸ hrow) hmine
            · exact (h.workers w).owned e (hrest e he) row' hrow' hown'
          · intro e he
            exact (h.workers w).claimed e (hrest e he)
          · intro run rest' hrun
            cases hrun
          · apply h.recorded.frame (t := (s.store id _).put w _) rfl rfl (fun _ hx => hx)
            · intro id' row' hrow'
              rcases Database.store_rows hrow' with ⟨rfl, rfl⟩ | ⟨_, hrow'⟩
              · exact ⟨row, hrow, rfl⟩
              · exact ⟨row', hrow', rfl⟩
            · intro id' hid
              exact (Database.store_none hid).2
    · cases hs
  · cases hs

/-- What a claim does to the rows: those it leased were not locked, and keep their slot. -/
structure Leased (s t : Database W) (w : WorkerId) (entries : List (ScheduleId × Int)) : Prop where
  locks : t.locks = s.locks
  phase : t.phase = s.phase
  fired : t.fired = s.fired
  written : t.written = s.written
  claims : ∀ x ∈ s.claims, x ∈ t.claims
  rows : ∀ id, t.rows id = s.rows id ∨ s.locks id = none ∧ ∃ row expires,
    s.rows id = some row ∧ t.rows id = some { row with lease := some ⟨w, expires⟩ }
  entries : ∀ e ∈ entries, ⟨w, e.1, e.2⟩ ∈ t.claims ∧
    ∀ row, t.rows e.1 = some row → row.nextRunAt = e.2

theorem Leased.cons {id : ScheduleId} {row : Schedule} {expires : Int} {r : Database W}
    {entries : List (ScheduleId × Int)} (hrow : s.rows id = some row) (hlock : s.locks id = none)
    (h : Leased { s.store id { row with lease := some ⟨w, expires⟩ } with
      claims := s.claims ++ [⟨w, id, row.nextRunAt⟩] } r w entries) :
    Leased s r w ((id, row.nextRunAt) :: entries) where
  locks := h.locks
  phase := h.phase
  fired := h.fired
  written := h.written
  claims x hx := h.claims x (List.mem_append_left _ hx)
  rows id' := by
    by_cases hid : id' = id
    · subst hid
      have hstored : (s.store id' { row with lease := some ⟨w, expires⟩ }).rows id' =
          some { row with lease := some ⟨w, expires⟩ } := Function.update_self ..
      rcases h.rows id' with heq | ⟨_, row', expires', hrow', hnew⟩
      · exact .inr ⟨hlock, row, expires, hrow, heq.trans hstored⟩
      · have : some row' = some { row with lease := some ⟨w, expires⟩ } :=
          hrow'.symm.trans hstored
        cases this
        exact .inr ⟨hlock, row, expires', hrow, hnew⟩
    · have hkept := Database.store_of_ne (s := s) (r := { row with lease := some ⟨w, expires⟩ }) hid
      rcases h.rows id' with heq | ⟨hl, row', expires', hrow', hnew⟩
      · exact .inl (heq.trans hkept)
      · exact .inr ⟨hl, row', expires', hkept.symm.trans hrow', hnew⟩
  entries e he := by
    rcases List.mem_cons.mp he with rfl | he
    · refine ⟨h.claims _ (List.mem_append_right _ (List.mem_singleton.mpr rfl)), ?_⟩
      intro row' hrow'
      have hstored : (s.store id { row with lease := some ⟨w, expires⟩ }).rows id =
          some { row with lease := some ⟨w, expires⟩ } := Function.update_self ..
      rcases h.rows id with heq | ⟨_, row'', expires', hrow'', hnew⟩
      · have : some row' = some { row with lease := some ⟨w, expires⟩ } :=
          hrow'.symm.trans (heq.trans hstored)
        cases this
        rfl
      · have : some row'' = some { row with lease := some ⟨w, expires⟩ } :=
          hrow''.symm.trans hstored
        cases this
        cases hrow'.symm.trans hnew
        rfl
    · exact h.entries e he

theorem claimRows_leased {now expires : Int} {ids : List ScheduleId}
    {r : List (ScheduleId × Int) × Database W}
    (h : s.claimRows w now expires ids = some r) : Leased s r.2 w r.1 := by
  induction ids generalizing s r with
  | nil =>
    cases h
    exact ⟨rfl, rfl, rfl, rfl, fun _ hx => hx, fun _ => .inl rfl,
      fun _ he => absurd he List.not_mem_nil⟩
  | cons id ids ih =>
    simp only [Database.claimRows] at h
    split at h
    · cases h
    · next row hrow =>
      split at h
      · next hdue =>
        obtain ⟨q, hq, rfl⟩ := Option.map_eq_some_iff.mp h
        exact (ih hq).cons hrow hdue.2
      · cases h

theorem claim_sound {now : Int} {ids : List ScheduleId} (h : Sound s)
    (hs : s.claim sch w now ids = some t) : Sound t := by
  simp only [Database.claim] at hs
  split at hs
  · split at hs
    · obtain ⟨r, hr, rfl⟩ := Option.map_eq_some_iff.mp hs
      have hl := claimRows_leased hr
      apply h.writes (t := r.2.put w _) (p := .ticking r.1)
      · show Function.update r.2.phase w _ = _
        rw [hl.phase]
      · intro v _ id hlock
        show r.2.locks id = _
        rw [hl.locks, hlock]
      · exact hl.claims
      · intro v hv id row hlock hrow
        rcases hl.rows id with heq | ⟨hnone, _⟩
        · exact heq.trans hrow
        · rw [hlock] at hnone
          cases hnone
      · intro v hv id row hrow hown
        rcases hl.rows id with heq | ⟨_, row', expires, _, hnew⟩
        · exact heq.symm.trans hrow
        · cases hrow.symm.trans hnew
          rw [owned_lease] at hown
          exact absurd (of_decide_eq_true hown).symm hv
      · intro e he row hrow _
        exact (hl.entries e he).2 row hrow
      · intro e he
        exact (hl.entries e he).1
      · intro run rest hrun
        cases hrun
      · apply h.recorded.frame (t := r.2.put w _) hl.fired hl.written hl.claims
        · intro id row hrow
          rcases hl.rows id with heq | ⟨_, row', expires, hrow', hnew⟩
          · exact ⟨row, heq.symm.trans hrow, rfl⟩
          · cases hrow.symm.trans hnew
            exact ⟨row', hrow', rfl⟩
        · intro id hid
          rcases hl.rows id with heq | ⟨_, row', expires, hrow', hnew⟩
          · exact heq.symm.trans hid
          · cases hid.symm.trans hnew
    · cases hs
  · cases hs

theorem firedOf_snoc_self {fs : List (Fired W)} {f : Fired W} :
    firedOf f.schedule (fs ++ [f]) = firedOf f.schedule fs ++ [f] := by
  simp only [firedOf, List.filter_append, List.filter_cons, decide_true, if_true, List.filter_nil]

theorem firedOf_snoc_of_ne {id : ScheduleId} {fs : List (Fired W)} {f : Fired W}
    (h : id ≠ f.schedule) : firedOf id (fs ++ [f]) = firedOf id fs := by
  simp only [firedOf, List.filter_append, List.filter_cons, decide_eq_false h.symm,
    Bool.false_eq_true, if_false, List.filter_nil, List.append_nil]

/-- A firing that commits has its row locked, and the slot it claimed is still the row's. -/
theorem fire_sound {now next : Int} {run : Run W} {row : Schedule}
    {rest : List (ScheduleId × Int)} (h : Sound s) (hph : s.phase w = .firing run rest)
    (hexp : run.expired = false) (hnext : max now run.scheduledFor < next)
    (hfree : s.free w run.id = true) (hrow : s.rows run.id = some row) :
    Sound (s.fire w now next run row rest) := by
  obtain ⟨-, hloaded, hown, hmade⟩ := (h.workers w).held run rest hph hexp
  obtain rfl : row = run.row := Option.some.inj (hrow.symm.trans hloaded)
  have hentry : (run.id, run.scheduledFor) ∈ (s.phase w).entries := by
    rw [hph]
    exact List.mem_cons_self
  have hslot : run.row.nextRunAt = run.scheduledFor := (h.workers w).owned _ hentry _ hrow hown
  have hunowned : ∀ v, (Database.firedRow run.row run.row now next).owned v = false := fun _ => rfl
  have hrec := h.recorded
  apply h.writes (t := s.fire w now next run run.row rest) (p := .ticking rest) rfl
    (fun v hv _ hl => Database.unlock_locks_of_ne hv hl) (fun _ hx => hx)
  · intro v hv id row hl hrow'
    exact Database.store_kept hfree hv hl hrow'
  · intro v hv id row hrow' hown'
    rcases Database.store_rows hrow' with ⟨_, rfl⟩ | ⟨_, hrow'⟩
    · rw [hunowned] at hown'
      cases hown'
    · exact hrow'
  · intro e he row hrow' hown'
    rcases Database.store_rows hrow' with ⟨_, rfl⟩ | ⟨_, hrow'⟩
    · rw [hunowned] at hown'
      cases hown'
    · exact (h.workers w).owned e (rest_entries hph e he) row hrow' hown'
  · intro e he
    exact (h.workers w).claimed e (rest_entries hph e he)
  · intro run' rest' hrun
    cases hrun
  · let f : Fired W := ⟨run.id, run.row.name, run.scheduledFor, w, now, next, run.made⟩
    have hfired : (s.fire w now next run run.row rest).fired = s.fired ++ [f] := rfl
    refine ⟨?_, ?_, ?_, ?_⟩
    · intro id row hrow'
      rw [hfired]
      rcases Database.store_rows hrow' with ⟨rfl, rfl⟩ | ⟨hid, hrow'⟩
      · obtain ⟨t₀, hchain⟩ := hrec.chained run.id run.row hrow
        have hpast : run.scheduledFor < next := Int.lt_of_le_of_lt (Int.le_max_right ..) hnext
        have htime : now < next := Int.lt_of_le_of_lt (Int.le_max_left ..) hnext
        exact ⟨t₀, (firedOf_snoc_self (f := f)).symm ▸ hchain.snoc hslot.symm hpast htime⟩
      · rw [firedOf_snoc_of_ne hid]
        exact hrec.chained id row hrow'
    · intro id hid
      obtain ⟨hne, hnone⟩ := Database.store_none hid
      rw [hfired, firedOf_snoc_of_ne hne]
      exact hrec.unborn id hnone
    · intro g hg
      rw [hfired] at hg
      rcases List.mem_append.mp hg with hg | hg
      · exact hrec.claimed g hg
      · rw [List.mem_singleton.mp hg]
        exact (h.workers w).claimed _ hentry
    · rw [hfired]
      show s.written ++ run.pending.map _ = _
      rw [hrec.writes, hmade, writtenBy, writtenBy, List.flatMap_append, List.flatMap_singleton]

theorem commit_sound {now : Int} (h : Sound s) (hs : s.commit c w now = some t) : Sound t := by
  simp only [Database.commit] at hs
  split at hs
  · next run rest hph =>
    have hfails : ∀ exc, Sound (s.fails w run.id exc rest) := fun _ => h.fails (rest_entries hph)
    split at hs
    · cases hs
      exact hfails _
    · next hexp =>
      split at hs
      · cases hs
        exact hfails _
      · next next hnext =>
        split at hs
        · next hfree =>
          split at hs
          · cases hs
            exact hfails _
          · next row hrow =>
            cases hs
            exact fire_sound h hph (eq_false_of_ne_true hexp) (nextFireTime_later hnext) hfree hrow
        · cases hs
  · cases hs

theorem step_sound {a : Act W} (h : Sound s) (ha : keepsSession s a)
    (hs : (workers c pool).step s a t) : Sound t := by
  cases a with
  | create => exact create_sound h hs
  | claim => exact claim_sound h hs
  | begin => exact begin_sound h hs
  | write => exact write_sound h hs
  | handlerCommit => exact absurd ha id
  | handlerRollback => exact handlerRollback_sound h hs
  | handlerRaise => exact handlerRaise_sound h hs
  | commit => exact commit_sound h hs
  | record => exact record_sound h hs
  | finish => exact finish_sound h hs
  | crash w =>
    obtain rfl : s.crash w = t := Option.some.inj hs
    exact crash_sound h

theorem Database.Fresh.sound (h : s.Fresh) : Sound s where
  workers v := by
    refine ⟨?_, ?_, ?_⟩ <;> rw [h.phase v]
    · exact fun e he => absurd he List.not_mem_nil
    · exact fun e he => absurd he List.not_mem_nil
    · exact fun run rest hrun => by cases hrun
  recorded := by
    refine ⟨?_, ?_, ?_, ?_⟩
    · intro id row _
      exact ⟨row.nextRunAt, by rw [h.fired]; rfl⟩
    · intro id _
      rw [h.fired]
      rfl
    · rw [h.fired]
      exact fun f hf => absurd hf List.not_mem_nil
    · rw [h.written, h.fired]
      rfl

theorem reach_sound (h : (workers c pool).Reach keepsSession s) : Sound s :=
  h.invariant (I := Sound) (fun _ hi => Database.Fresh.sound hi) fun _ _ _ => step_sound

theorem Recorded.apart (h : Recorded s) :
    s.fired.Pairwise fun f g => f.schedule = g.schedule → f.movedTo ≤ g.scheduledFor := by
  have hof : ∀ id, (firedOf id s.fired).Pairwise fun f g => f.movedTo ≤ g.scheduledFor := by
    intro id
    cases hrow : s.rows id with
    | none =>
      rw [h.unborn id hrow]
      exact .nil
    | some row =>
      obtain ⟨t, ht⟩ := h.chained id row hrow
      exact ht.apart
  rw [List.pairwise_iff_forall_sublist]
  intro f g hfg heq
  have hsub : [f, g].Sublist (firedOf g.schedule s.fired) := by
    have := hfg.filter fun x => decide (x.schedule = g.schedule)
    simpa only [firedOf, List.filter_cons, heq, decide_true, if_true, List.filter_nil] using this
  exact List.pairwise_iff_forall_sublist.mp (hof g.schedule) hsub

/-- In every run in which the handlers leave the session to the scheduler, no slot of a
schedule is fired twice, and what a handler wrote is committed with the move of its schedule. -/
theorem fires_exactly_once (c : Croniter) (pool : WorkerId → Scheduler) (s : Database W)
    (h : (workers c pool).Reach keepsSession s) : ExactlyOnce s :=
  have hs := (reach_sound h).recorded
  ⟨hs.apart, hs.claimed, hs.chained, hs.writes⟩

/-! Two workers and the prices of one schedule, whose first fill outlasts the lease. -/

/-- `* * * * *`, on a clock in seconds. -/
def everyMinute : Croniter where
  isValid cron := cron = "* * * * *"
  knows zone := zone = "UTC"
  getNext _ _ after := .ok ((after / 60 + 1) * 60)
  later cron zone after t h := by
    have ht : (after / 60 + 1) * 60 = t := Except.ok.inj h
    omega

def standing : WorkerId → Scheduler := fun _ => ⟨300, 60, 20, fun _ => true⟩

def unstarted : Database String := ⟨fun _ => none, fun _ => none, fun _ => .idle, [], [], []⟩

theorem unstarted_fresh : unstarted.Fresh := ⟨fun _ => rfl, fun _ => rfl, rfl, rfl, rfl⟩

def opening : List (Act String) :=
  [.create 0 "newsroom.refresh_prices" "* * * * *" "UTC" "newsroom.refresh_prices" 0,
    .claim 1 60 [0], .begin 1, .write 1 "2330"]

theorem slot_fired_twice : ¬ ∀ (c : Croniter) (pool : WorkerId → Scheduler) (s : Database String),
    (workers c pool).Reach anyStep s → ExactlyOnce s := by
  intro h
  let acts : List (Act String) := opening ++
    [.handlerCommit 1, .claim 2 401 [0], .begin 2, .commit 2 402, .write 1 "2317", .commit 1 403]
  have hrun : (System.follow anyStep (fun s => s.step everyMinute standing) unstarted acts).map
      Database.fired = some
        [⟨0, "newsroom.refresh_prices", 60, 2, 402, 420, []⟩,
          ⟨0, "newsroom.refresh_prices", 60, 1, 403, 420, ["2330", "2317"]⟩] := by decide +kernel
  obtain ⟨s, hs, hfired⟩ := Option.map_eq_some_iff.mp hrun
  have hreach : (workers everyMinute standing).Reach anyStep s :=
    ⟨unstarted, unstarted_fresh, System.follow_path (fun _ _ _ h => h) hs⟩
  have hapart := (h everyMinute standing s hreach).apart
  rw [hfired] at hapart
  have hle : (420 : Int) ≤ 60 := List.rel_of_pairwise_cons hapart (List.mem_singleton.mpr rfl) rfl
  exact absurd hle (by decide)

theorem fires_exactly_once_taken_over :
    ∃ s : Database String, s.fired.length = 1 ∧ s.claims.length = 2 ∧ ExactlyOnce s := by
  let acts : List (Act String) := opening ++
    [.handlerRaise 1 ⟨"TimeoutError", ""⟩, .record 1 70, .crash 1, .claim 2 131 [0], .begin 2,
      .write 2 "2330", .commit 2 140]
  have hrun : (System.follow keepsSession (fun s => s.step everyMinute standing) unstarted acts).map
      (fun s => (s.fired.length, s.claims.length)) = some (1, 2) := by decide +kernel
  obtain ⟨s, hs, hlen⟩ := Option.map_eq_some_iff.mp hrun
  exact ⟨s, congrArg Prod.fst hlen, congrArg Prod.snd hlen,
    fires_exactly_once everyMinute standing s
      ⟨unstarted, unstarted_fresh, System.follow_path (fun _ _ _ h => h) hs⟩⟩

end Autora.Schedules
