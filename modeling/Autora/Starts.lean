import Mathlib.Logic.Function.Basic
import Mathlib.Data.List.Sort
import Autora.Cycles

/-! Starts and ticks of one company whose transactions overlap. A statement reads
what is committed when it begins, and a locking read waits for the row and looks at
it again. -/

namespace Autora.Company

open Systems

structure CycleRow where
  seq : Nat
  stage : CycleStage
  deriving DecidableEq, Repr

def CycleRow.isOpen (c : CycleRow) : Bool := c.stage ≠ .done

inductive Runner where
  | start
  | tick
  deriving DecidableEq, Repr

/-- How far a transaction has come. A locking read holds the rows of its snapshot. -/
inductive Turn where
  | begun (runner : Runner)
  | seeking (runner : Runner) (found : List Nat)
  | clear
  | numbered (last : Nat)
  | inserted (seq : Nat)
  | moving (seq : Nat) (stage : CycleStage)
  deriving DecidableEq, Repr

/-- The committed cycles in the order of their commits, the row locks, the entries of the
unique index that are not committed yet, and the open transactions. -/
structure Office where
  cycles : List CycleRow
  locks : Nat → Option Nat
  keys : Nat → Option Nat
  turns : Nat → Option Turn

inductive Statement where
  | begin (t : Nat) (runner : Runner)
  | openCycle (t : Nat)
  | lock (t : Nat)
  | lastSeq (t : Nat)
  | insert (t : Nat)
  | advance (t : Nat) (overdue finished : Bool)
  | commit (t : Nat)
  | abort (t : Nat)
  deriving DecidableEq, Repr

namespace Office

variable (s : Office)

def put (t : Nat) (w : Turn) : Office := { s with turns := Function.update s.turns t (some w) }

/-- What a transaction holds goes when it ends. -/
def release (t : Nat) : Office :=
  { s with
    locks := fun q => if s.locks q = some t then none else s.locks q
    keys := fun q => if s.keys q = some t then none else s.keys q
    turns := Function.update s.turns t none }

/-- The open cycles, the last one first. -/
def openSeqs : List Nat :=
  ((s.cycles.filter CycleRow.isOpen).map CycleRow.seq).mergeSort fun q q' => q' ≤ q

def lastSeq : Nat := (s.cycles.map CycleRow.seq).foldr max 0

def setStage (q : Nat) (stage : CycleStage) : Office :=
  { s with cycles := s.cycles.map fun c => if c.seq = q then { c with stage := stage } else c }

/-- The locking read of `open_cycle`, one row of its snapshot after the other: a row that is
done by the time it is locked is passed over. -/
def lock (t : Nat) : Option Office :=
  match s.turns t with
  | some (.seeking .start []) => some (s.put t .clear)
  | some (.seeking .tick []) => some (s.release t)
  | some (.seeking runner (q :: rest)) =>
    if s.locks q = none then
      match s.cycles.find? fun c => c.seq = q with
      | none => some (s.put t (.seeking runner rest))
      | some c =>
        if c.isOpen = false then some (s.put t (.seeking runner rest))
        else match runner with
          -- `CycleAlreadyOpen`
          | .start => some (s.release t)
          | .tick => some { s.put t (.moving q c.stage) with
              locks := Function.update s.locks q (some t) }
    else none
  | _ => none

/-- The unique constraint on the company and the number: the insert waits for an entry that
is not committed, and fails on one that is. -/
def insert (t : Nat) : Option Office :=
  match s.turns t with
  | some (.numbered last) =>
    if s.keys (last + 1) = none then
      if s.cycles.any fun c => c.seq = last + 1 then some (s.release t)
      else some { s.put t (.inserted (last + 1)) with
        keys := Function.update s.keys (last + 1) (some t) }
    else none
  | _ => none

def commit (t : Nat) : Option Office :=
  match s.turns t with
  | some (.inserted seq) =>
    some { s.release t with cycles := s.cycles ++ [⟨seq, .planning⟩] }
  | some (.moving seq stage) => some ((s.release t).setStage seq stage)
  | _ => none

def step : Statement → Option Office
  | .begin t runner => if s.turns t = none then some (s.put t (.begun runner)) else none
  | .openCycle t =>
    match s.turns t with
    | some (.begun runner) => some (s.put t (.seeking runner s.openSeqs))
    | _ => none
  | .lock t => s.lock t
  | .lastSeq t =>
    match s.turns t with
    | some .clear => some (s.put t (.numbered s.lastSeq))
    | _ => none
  | .insert t => s.insert t
  | .advance t overdue finished =>
    match s.turns t with
    | some (.moving seq stage) =>
      if stage ≠ .done ∧ (overdue || finished) = true then
        some (s.put t (.moving seq (nextStage stage)))
      else none
    | _ => none
  | .commit t => s.commit t
  | .abort t => some (s.release t)

structure Empty : Prop where
  cycles : s.cycles = []
  locks : ∀ q, s.locks q = none
  keys : ∀ q, s.keys q = none
  turns : ∀ t, s.turns t = none

/-- At most one cycle is open, and the cycles are numbered in the order they were opened. -/
structure OneAtATime : Prop where
  one : (s.cycles.filter CycleRow.isOpen).length ≤ 1
  seqs : s.cycles.map CycleRow.seq = List.range' 1 s.cycles.length

/-- No start reads the last number while a cycle is open. -/
def numbersQuiet : Statement → Prop
  | .lastSeq _ => ∀ c ∈ s.cycles, c.stage = .done
  | _ => True

instance : DecidablePred s.numbersQuiet := fun a =>
  match a with
  | .lastSeq _ => inferInstanceAs (Decidable (∀ c ∈ s.cycles, c.stage = .done))
  | .begin .. | .openCycle _ | .lock _ | .insert _ | .advance .. | .commit _ | .abort _ =>
    isTrue trivial

end Office

/-- Any number of starts and ticks of one company, statement by statement. -/
def cycleSessions : System Office Statement where
  init := Office.Empty
  step s a t := s.step a = some t

variable {s s' : Office} {t : Nat}

/-- What a transaction knows that others cannot take from it. -/
def Office.Holds (s : Office) (t : Nat) : Turn → Prop
  | .numbered last => last ≤ s.cycles.length ∧ ∀ c ∈ s.cycles, c.seq ≤ last → c.stage = .done
  | .inserted seq => s.keys seq = some t ∧ seq = s.cycles.length + 1 ∧
      ∀ c ∈ s.cycles, c.stage = .done
  | .moving seq _ => s.locks seq = some t ∧ ∃ c ∈ s.cycles, c.seq = seq ∧ c.stage ≠ .done
  | .begun _ | .seeking .. | .clear => True

structure Office.Orderly (s : Office) : Prop where
  holds : ∀ t w, s.turns t = some w → s.Holds t w
  one : s.OneAtATime

theorem Office.OneAtATime.seq_mem (h : s.OneAtATime) {q : Nat} :
    q ∈ s.cycles.map CycleRow.seq ↔ 1 ≤ q ∧ q ≤ s.cycles.length := by
  rw [h.seqs, List.mem_range'_1]
  omega

theorem Office.OneAtATime.seq_le (h : s.OneAtATime) {c : CycleRow} (hc : c ∈ s.cycles) :
    c.seq ≤ s.cycles.length :=
  (h.seq_mem.mp (List.mem_map_of_mem hc)).2

theorem Office.OneAtATime.eq_of_seq (h : s.OneAtATime) {c c' : CycleRow} (hc : c ∈ s.cycles)
    (hc' : c' ∈ s.cycles) (hseq : c.seq = c'.seq) : c = c' := by
  have hnodup : (s.cycles.map CycleRow.seq).Nodup := by
    rw [h.seqs]
    exact List.nodup_range'
  exact List.inj_on_of_nodup_map hnodup hc hc' hseq

theorem foldr_max_le {l : List Nat} {n : Nat} (h : ∀ q ∈ l, q ≤ n) : l.foldr max 0 ≤ n := by
  induction l with
  | nil => exact Nat.zero_le n
  | cons q l ih =>
    have hq := h q List.mem_cons_self
    have hl := ih fun x hx => h x (List.mem_cons_of_mem q hx)
    show max q (l.foldr max 0) ≤ n
    omega

theorem Office.OneAtATime.lastSeq_le (h : s.OneAtATime) : s.lastSeq ≤ s.cycles.length :=
  foldr_max_le fun _ hq => (h.seq_mem.mp hq).2

/-- A statement of one transaction that commits nothing. -/
theorem Office.Orderly.put (h : s.Orderly) (hcycles : s'.cycles = s.cycles)
    (hlocks : ∀ u, u ≠ t → ∀ q, s.locks q = some u → s'.locks q = some u)
    (hkeys : ∀ u, u ≠ t → ∀ q, s.keys q = some u → s'.keys q = some u) {w : Option Turn}
    (hturns : s'.turns = Function.update s.turns t w) (hw : ∀ x, w = some x → s'.Holds t x) :
    s'.Orderly where
  holds u x hx := by
    by_cases hu : u = t
    · subst hu
      rw [hturns, Function.update_self] at hx
      exact hw x hx
    · rw [hturns, Function.update_of_ne hu] at hx
      have hold := h.holds u x hx
      cases x with
      | begun => trivial
      | seeking => trivial
      | clear => trivial
      | numbered last =>
        show _ ≤ s'.cycles.length ∧ _
        rw [hcycles]
        exact hold
      | inserted seq =>
        refine ⟨hkeys u hu seq hold.1, ?_⟩
        rw [hcycles]
        exact hold.2
      | moving seq stage =>
        refine ⟨hlocks u hu seq hold.1, ?_⟩
        rw [hcycles]
        exact hold.2
  one := by
    constructor
    · rw [hcycles]
      exact h.one.one
    · rw [hcycles]
      exact h.one.seqs

theorem Office.release_locks {u q : Nat} (hu : u ≠ t) (h : s.locks q = some u) :
    (s.release t).locks q = some u := by
  show (if s.locks q = some t then none else s.locks q) = some u
  rw [h, if_neg fun he => hu (Option.some.inj he)]

theorem Office.release_keys {u q : Nat} (hu : u ≠ t) (h : s.keys q = some u) :
    (s.release t).keys q = some u := by
  show (if s.keys q = some t then none else s.keys q) = some u
  rw [h, if_neg fun he => hu (Option.some.inj he)]

theorem Office.Orderly.release (h : s.Orderly) : (s.release t).Orderly :=
  @Office.Orderly.put _ (s.release t) t h rfl (fun _ hu _ hl => Office.release_locks hu hl)
    (fun _ hu _ hk => Office.release_keys hu hk) _ rfl (by intro x hx; cases hx)

theorem Office.Orderly.turn (h : s.Orderly) {w : Turn} (hw : (s.put t w).Holds t w) :
    (s.put t w).Orderly :=
  @Office.Orderly.put _ (s.put t w) t h rfl (fun _ _ _ hl => hl) (fun _ _ _ hk => hk) _ rfl
    (by intro x hx; cases hx; exact hw)

theorem lock_orderly (h : s.Orderly) (hs : s.lock t = some s') : s'.Orderly := by
  simp only [Office.lock] at hs
  split at hs
  · cases hs
    exact h.turn trivial
  · cases hs
    exact h.release
  · next runner q rest hturn =>
    split at hs
    · next hfree =>
      split at hs
      · cases hs
        exact h.turn trivial
      · next c hfind =>
        have hc := List.mem_of_find?_eq_some hfind
        have hq : c.seq = q := by simpa only [decide_eq_true_eq] using List.find?_some hfind
        split at hs
        · cases hs
          exact h.turn trivial
        · next hopen =>
          split at hs
          · cases hs
            exact h.release
          · cases hs
            apply @Office.Orderly.put _ { s.put t (.moving q c.stage) with
              locks := Function.update s.locks q (some t) } t h rfl ?_ (fun _ _ _ hk => hk) _ rfl
            · intro x hx
              cases hx
              refine ⟨Function.update_self .., c, hc, hq, ?_⟩
              simpa only [CycleRow.isOpen, ne_eq, decide_not, Bool.not_eq_eq_eq_not,
                Bool.not_false, decide_eq_true_eq] using hopen
            · intro u hu q' hl
              have hne : q' ≠ q := by
                rintro rfl
                rw [hfree] at hl
                cases hl
              show Function.update s.locks q (some t) q' = some u
              rw [Function.update_of_ne hne, hl]
    · cases hs
  · cases hs

theorem insert_orderly (h : s.Orderly) (hs : s.insert t = some s') : s'.Orderly := by
  simp only [Office.insert] at hs
  split at hs
  · next last hturn =>
    split at hs
    · next hkey =>
      split at hs
      · cases hs
        exact h.release
      · next hany =>
        cases hs
        obtain ⟨hle, hdone⟩ : last ≤ s.cycles.length ∧ _ := h.holds t _ hturn
        -- no committed cycle has the next number, so there is none past the last one read
        have hlast : last = s.cycles.length := by
          by_contra hne
          have hmem : last + 1 ∈ s.cycles.map CycleRow.seq := h.one.seq_mem.mpr (by omega)
          obtain ⟨c, hc, hseq⟩ := List.mem_map.mp hmem
          exact hany (List.any_eq_true.mpr ⟨c, hc, decide_eq_true hseq⟩)
        apply @Office.Orderly.put _ { s.put t (.inserted (last + 1)) with
          keys := Function.update s.keys (last + 1) (some t) } t h rfl (fun _ _ _ hl => hl) ?_ _ rfl
        · intro x hx
          cases hx
          refine ⟨Function.update_self .., by rw [hlast]; rfl, ?_⟩
          intro c hc
          have := h.one.seq_le hc
          exact hdone c hc (by omega)
        · intro u hu q hq
          have hne : q ≠ last + 1 := by
            rintro rfl
            rw [hkey] at hq
            cases hq
          show Function.update s.keys (last + 1) (some t) q = some u
          rw [Function.update_of_ne hne, hq]
    · cases hs
  · cases hs

theorem isOpen_eq_false {c : CycleRow} : c.isOpen = false ↔ c.stage = .done := by
  simp only [CycleRow.isOpen, ne_eq, decide_not, Bool.not_eq_false', decide_eq_true_eq]

theorem isOpen_eq_true {c : CycleRow} : c.isOpen = true ↔ c.stage ≠ .done := by
  simp only [CycleRow.isOpen, decide_eq_true_eq]

/-- The commit of a start: what it knows since its insert makes the new cycle the only open
one, and no other transaction holds the next number. -/
theorem opened_orderly {seq : Nat} (h : s.Orderly) (hturn : s.turns t = some (.inserted seq)) :
    Office.Orderly { s.release t with cycles := s.cycles ++ [⟨seq, .planning⟩] } := by
  obtain ⟨hkey, hseq, hdone⟩ : _ ∧ seq = s.cycles.length + 1 ∧ _ := h.holds t _ hturn
  constructor
  · intro u x hx
    have hx : Function.update s.turns t none u = some x := hx
    have hu : u ≠ t := by
      rintro rfl
      rw [Function.update_self] at hx
      cases hx
    rw [Function.update_of_ne hu] at hx
    have hold := h.holds u x hx
    cases x with
    | begun => trivial
    | seeking => trivial
    | clear => trivial
    | numbered last =>
      obtain ⟨hle, hold⟩ : last ≤ s.cycles.length ∧ _ := hold
      refine ⟨by rw [List.length_append]; exact Nat.le_add_right_of_le hle, ?_⟩
      intro c hc hcl
      rcases List.mem_append.mp hc with hc | hc
      · exact hold c hc hcl
      · rw [List.mem_singleton.mp hc] at hcl
        have hcl : seq ≤ last := hcl
        omega
    | inserted seq' =>
      obtain ⟨hkey', hseq', -⟩ : s.keys seq' = some u ∧ seq' = s.cycles.length + 1 ∧ _ := hold
      rw [hseq', ← hseq, hkey] at hkey'
      exact absurd (Option.some.inj hkey').symm hu
    | moving seq' stage =>
      obtain ⟨hlock, c, hc, hcs, hopen⟩ : s.locks seq' = some u ∧ ∃ c ∈ s.cycles, _ := hold
      exact ⟨Office.release_locks hu hlock, c, List.mem_append_left _ hc, hcs, hopen⟩
  · constructor
    · have hnone : s.cycles.filter CycleRow.isOpen = [] := by
        rw [List.filter_eq_nil_iff]
        intro c hc
        rw [Bool.not_eq_true, isOpen_eq_false]
        exact hdone c hc
      show ((s.cycles ++ [(⟨seq, .planning⟩ : CycleRow)]).filter CycleRow.isOpen).length ≤ 1
      rw [List.filter_append, hnone]
      exact Nat.le_refl 1
    · show (s.cycles ++ [(⟨seq, .planning⟩ : CycleRow)]).map CycleRow.seq = _
      rw [List.map_append, h.one.seqs, List.length_append, List.length_singleton,
        List.range'_1_concat, List.map_singleton, hseq, Nat.add_comm 1]

theorem setStage_seqs {q : Nat} {stage : CycleStage} :
    (s.setStage q stage).cycles.map CycleRow.seq = s.cycles.map CycleRow.seq := by
  show (s.cycles.map _).map _ = _
  rw [List.map_map]
  apply List.map_congr_left
  intro c _
  show CycleRow.seq (if c.seq = q then { c with stage := stage } else c) = c.seq
  split <;> rfl

theorem mem_setStage {q : Nat} {stage : CycleStage} {c : CycleRow}
    (hc : c ∈ (s.setStage q stage).cycles) : c.seq = q ∨ c ∈ s.cycles := by
  obtain ⟨c', hc', rfl⟩ := List.mem_map.mp hc
  by_cases hq : c'.seq = q
  · rw [if_pos hq]
    exact .inl hq
  · rw [if_neg hq]
    exact .inr hc'

theorem setStage_length {q : Nat} {stage : CycleStage} :
    (s.setStage q stage).cycles.length = s.cycles.length := List.length_map _

/-- The commit of a tick: the row it holds is still open, so no more rows are open after. -/
theorem moved_orderly {seq : Nat} {stage : CycleStage} (h : s.Orderly)
    (hturn : s.turns t = some (.moving seq stage)) : ((s.release t).setStage seq stage).Orderly := by
  obtain ⟨hlock, c, hc, hcs, hopen⟩ : s.locks seq = some t ∧ ∃ c ∈ s.cycles, _ :=
    h.holds t _ hturn
  have hlen : ((s.release t).setStage seq stage).cycles.length = s.cycles.length := setStage_length
  constructor
  · intro u x hx
    have hx : Function.update s.turns t none u = some x := hx
    have hu : u ≠ t := by
      rintro rfl
      rw [Function.update_self] at hx
      cases hx
    rw [Function.update_of_ne hu] at hx
    have hold := h.holds u x hx
    cases x with
    | begun => trivial
    | seeking => trivial
    | clear => trivial
    | numbered last =>
      obtain ⟨hlast, hdone⟩ : last ≤ s.cycles.length ∧ _ := hold
      refine ⟨hlen ▸ hlast, ?_⟩
      intro c' hc' hcl
      rcases mem_setStage hc' with hcs' | hc'
      · exact absurd (hdone c hc (by omega)) hopen
      · exact hdone c' hc' hcl
    | inserted seq' => exact absurd (hold.2.2 c hc) hopen
    | moving seq' stage' =>
      obtain ⟨hlock', c', hc', hcs', hopen'⟩ : s.locks seq' = some u ∧ ∃ c ∈ s.cycles, _ := hold
      have hne : c'.seq ≠ seq := by
        intro he
        rw [← hcs', he, hlock] at hlock'
        exact hu (Option.some.inj hlock').symm
      refine ⟨Office.release_locks hu hlock', c', ?_, hcs', hopen'⟩
      exact List.mem_map.mpr ⟨c', hc', if_neg hne⟩
  · constructor
    · have hle : (s.cycles.map fun c => if c.seq = seq then { c with stage := stage } else c).countP
          CycleRow.isOpen ≤ s.cycles.countP CycleRow.isOpen := by
        rw [List.countP_map]
        apply List.countP_mono_left
        intro c' hc' hnow
        simp only [Function.comp_apply] at hnow
        by_cases hcs' : c'.seq = seq
        · obtain rfl := h.one.eq_of_seq hc hc' (hcs.trans hcs'.symm)
          exact isOpen_eq_true.mpr hopen
        · rwa [if_neg hcs'] at hnow
      have hone := h.one.one
      rw [← List.countP_eq_length_filter] at hone ⊢
      exact Nat.le_trans hle hone
    · rw [setStage_seqs, hlen]
      exact h.one.seqs

theorem commit_orderly (h : s.Orderly) (hs : s.commit t = some s') : s'.Orderly := by
  simp only [Office.commit] at hs
  split at hs
  · next seq hturn =>
    cases hs
    exact opened_orderly h hturn
  · next seq stage hturn =>
    cases hs
    exact moved_orderly h hturn
  · cases hs

theorem cycleStep_orderly {a : Statement} (h : s.Orderly) (ha : s.numbersQuiet a)
    (hs : cycleSessions.step s a s') : s'.Orderly := by
  replace hs : s.step a = some s' := hs
  cases a with
  | begin t runner =>
    simp only [Office.step] at hs
    split at hs
    · cases hs
      exact h.turn trivial
    · cases hs
  | openCycle t =>
    simp only [Office.step] at hs
    split at hs
    · cases hs
      exact h.turn trivial
    · cases hs
  | lock t => exact lock_orderly h hs
  | lastSeq t =>
    simp only [Office.step] at hs
    split at hs
    · cases hs
      exact h.turn ⟨h.one.lastSeq_le, fun c hc _ => ha c hc⟩
    · cases hs
  | insert t => exact insert_orderly h hs
  | advance t overdue finished =>
    simp only [Office.step] at hs
    split at hs
    · next seq stage hturn =>
      split at hs
      · cases hs
        have hold : s.Holds t (.moving seq stage) := h.holds t _ hturn
        exact h.turn hold
      · cases hs
    · cases hs
  | commit t => exact commit_orderly h hs
  | abort t =>
    cases hs
    exact h.release

theorem Office.Empty.orderly (h : s.Empty) : s.Orderly where
  holds t w hw := by
    rw [h.turns] at hw
    cases hw
  one := by
    constructor
    · rw [h.cycles]
      exact Nat.zero_le 1
    · rw [h.cycles]
      rfl

/-- In every run in which no start reads the last number while a cycle is open, the company
has one open cycle at most and its cycles are numbered as they were opened. -/
theorem one_cycle_at_a_time (s : Office)
    (h : cycleSessions.Reach Office.numbersQuiet s) : s.OneAtATime :=
  (h.invariant (I := Office.Orderly) (fun _ hi => Office.Empty.orderly hi)
    fun _ _ _ hi ha hs => cycleStep_orderly hi ha hs).one

/-! Two starts, the second of which looks for an open cycle before the first commits. -/

def vacant : Office := ⟨[], fun _ => none, fun _ => none, fun _ => none⟩

theorem vacant_empty : vacant.Empty := ⟨rfl, fun _ => rfl, fun _ => rfl, fun _ => rfl⟩

def looks (t : Nat) (runner : Runner) : List Statement := [.begin t runner, .openCycle t, .lock t]

def opens (t : Nat) : List Statement := [.lastSeq t, .insert t, .commit t]

theorem two_cycles_open : ¬ ∀ s : Office, cycleSessions.Reach anyStep s → s.OneAtATime := by
  intro h
  let run := looks 0 .start ++ looks 1 .start ++ opens 0 ++ opens 1
  have hrun : (System.follow anyStep Office.step vacant run).map Office.cycles =
      some [⟨1, .planning⟩, ⟨2, .planning⟩] := by decide +kernel
  obtain ⟨s, hs, hcycles⟩ := Option.map_eq_some_iff.mp hrun
  have hone := (h s ⟨vacant, vacant_empty, System.follow_path (fun _ _ _ h => h) hs⟩).one
  rw [hcycles] at hone
  exact absurd hone (by decide)

theorem one_cycle_at_a_time_lapped : ∃ s : Office,
    s.cycles = [⟨1, .done⟩, ⟨2, .planning⟩] ∧ s.OneAtATime := by
  -- the second tick waits for the row and finds it done, and the start after it goes on
  let run := looks 0 .start ++ opens 0 ++ [.begin 2 .tick, .openCycle 2] ++ looks 1 .tick ++
    [.advance 1 true false, .advance 1 false true, .advance 1 true true, .advance 1 false true,
      .commit 1, .lock 2, .lock 2] ++ looks 3 .start ++ opens 3
  have hrun : (System.follow Office.numbersQuiet Office.step vacant run).map Office.cycles =
      some [⟨1, .done⟩, ⟨2, .planning⟩] := by decide +kernel
  obtain ⟨s, hs, hcycles⟩ := Option.map_eq_some_iff.mp hrun
  exact ⟨s, hcycles,
    one_cycle_at_a_time s ⟨vacant, vacant_empty, System.follow_path (fun _ _ _ h => h) hs⟩⟩

end Autora.Company
