import Autora.StepTrace

/-! The rows of a run's trace have no gaps, and none points at a blob that is missing or is not
its own, whatever transactions run at once and whichever of them roll back. -/

namespace Autora.Steps

open Untyped Utf8 Systems Locks TopRows

variable {str : Id → Str} {δ : Type} {s t : State δ} {i j run : Id} {call : Recording δ}

/-! ## Keys -/

theorem padded_inj {m n : Nat} (h : padded m = padded n) : m = n := by
  have hvalue : ∀ n, Nat.ofDigits 10 ((padded n).map (· - 48)).reverse = n := by
    intro n
    have hdigits : (padded n).map (· - 48) =
        List.replicate (5 - (Nat.digits 10 n).length) 0 ++ (Nat.digits 10 n).reverse := by
      rw [padded, List.map_map]
      exact List.map_id _
    rw [hdigits, List.reverse_append, List.reverse_reverse, List.reverse_replicate,
      Nat.ofDigits_append_replicate_zero, Nat.ofDigits_digits]
  rw [← hvalue m, h, hvalue]

/-- Every step has a key of its own. -/
theorem stepBlobKey_inj (hstr : Function.Injective str) (hlen : ∀ id, (str id).length = 36)
    {c c' r r' : Id} {n n' : Nat} (h : stepBlobKey str c r n = stepBlobKey str c' r' n') :
    c = c' ∧ r = r' ∧ n = n' := by
  unfold stepBlobKey at h
  simp only [List.append_assoc] at h
  obtain ⟨hc, h⟩ := List.append_inj (List.append_cancel_left h) ((hlen c).trans (hlen c').symm)
  obtain ⟨hr, h⟩ := List.append_inj (List.append_cancel_left h) ((hlen r).trans (hlen r').symm)
  exact ⟨hstr hc, hstr hr, padded_inj (List.append_cancel_right (List.append_cancel_left h))⟩

/-! ## What is kept -/

section Invariants

variable (str)

/-- A step that kept what it was given, if anything, in its own blob. -/
def Stored (blobs : Str → Option Bytes) (x : AgentStep δ × Option Bytes) : Prop :=
  x.1.blobKey = x.2.map (fun _ => stepBlobKey str x.1.companyId x.1.runId x.1.seq) ∧
    ∀ bytes, x.2 = some bytes →
      blobs (stepBlobKey str x.1.companyId x.1.runId x.1.seq) = some bytes

/-- A transaction that has its run's row, as `row`: the steps it recorded come next in the run,
and so will the one it is at. -/
structure Begun (s : State δ) (i : Id) (call : Recording δ) (row : AgentRun) : Prop where
  held : s.locks call.run = some i
  found : s.runs call.run = some row
  runs : ∀ x ∈ call.pending, x.1.runId = call.run
  seqs : call.pending.map (fun x => x.1.seq) = List.range' row.stepsCount call.pending.length
  stored : ∀ x ∈ call.pending, Stored str s.blobs x
  stage : match call.stage with
    | .putting _ seq _ _ => seq = row.stepsCount + call.pending.length
    | .inserting step payload => step.runId = call.run ∧
        step.seq = row.stepsCount + call.pending.length ∧ Stored str s.blobs (step, payload)
    | _ => True

def Waiting (call : Recording δ) : Prop :=
  call.pending = [] ∧ ∃ columns payload, call.stage = .locking columns payload

def State.count (s : State δ) (run : Id) : Nat := ((s.runs run).map AgentRun.stepsCount).getD 0

structure Sound (s : State δ) (log : List (AgentStep δ × Option Bytes)) : Prop where
  steps : s.steps = log.map Prod.fst
  seqs : ∀ run, (log.filter fun x => x.1.runId = run).map (fun x => x.1.seq) =
    List.range (s.count run)
  stored : ∀ x ∈ log, Stored str s.blobs x
  calls : ∀ i call, s.calls i = some call → Waiting call ∨ ∃ row, Begun str s i call row

end Invariants

variable {log : List (AgentStep δ × Option Bytes)} {row : AgentRun}

theorem Stored.mono {blobs blobs' : Str → Option Bytes} {x : AgentStep δ × Option Bytes}
    (h : Stored str blobs x)
    (hkey : blobs' (stepBlobKey str x.1.companyId x.1.runId x.1.seq) =
      blobs (stepBlobKey str x.1.companyId x.1.runId x.1.seq)) : Stored str blobs' x :=
  ⟨h.1, fun bytes hbytes => hkey.trans (h.2 bytes hbytes)⟩

theorem Begun.mono (h : Begun str s i call row) (hlock : t.locks call.run = some i)
    {row' : AgentRun} (hrow : t.runs call.run = some row')
    (hcount : row'.stepsCount = row.stepsCount)
    (hstored : ∀ x : AgentStep δ × Option Bytes, x.1.runId = call.run → Stored str s.blobs x →
      Stored str t.blobs x) :
    Begun str t i call row' where
  held := hlock
  found := hrow
  runs := h.runs
  seqs := hcount ▸ h.seqs
  stored := fun x hx => hstored x (h.runs x hx) (h.stored x hx)
  stage := by
    have hstage := h.stage
    rw [hcount]
    split at hstage
    · exact hstage
    · next step payload hat =>
      exact ⟨hstage.1, hstage.2.1, hstored _ hstage.1 hstage.2.2⟩
    · trivial

/-- A recorded step is before the next one of its run. -/
theorem Sound.seq_lt (h : Sound str s log) {x : AgentStep δ × Option Bytes} (hx : x ∈ log)
    (hrow : s.runs x.1.runId = some row) : x.1.seq < row.stepsCount := by
  have hmem : x.1.seq ∈ (log.filter fun y => y.1.runId = x.1.runId).map fun y => y.1.seq :=
    List.mem_map_of_mem (List.mem_filter.mpr ⟨hx, decide_eq_true rfl⟩)
  rw [h.seqs, List.mem_range, State.count, hrow] at hmem
  exact hmem

theorem Begun.seq_lt (h : Begun str s i call row) {x : AgentStep δ × Option Bytes}
    (hx : x ∈ call.pending) : x.1.seq < row.stepsCount + call.pending.length := by
  have hmem : x.1.seq ∈ call.pending.map fun y => y.1.seq := List.mem_map_of_mem hx
  rw [h.seqs, List.mem_range'_1] at hmem
  exact hmem.2

/-! ## Each step -/

/-- A step of `i` that commits nothing, as the others see it. -/
theorem Sound.move {o : Option (Recording δ)} (h : Sound str s log) (hsteps : t.steps = s.steps)
    (hcalls : t.calls = Function.update s.calls i o) (hruns : t.runs = s.runs)
    (hlocks : ∀ k j, j ≠ i → s.locks k = some j → t.locks k = some j)
    (hlog : ∀ x ∈ log, Stored str s.blobs x → Stored str t.blobs x)
    (hothers : ∀ k j, j ≠ i → s.locks k = some j → ∀ x : AgentStep δ × Option Bytes,
      x.1.runId = k → Stored str s.blobs x → Stored str t.blobs x)
    (hown : ∀ call, o = some call → Waiting call ∨ ∃ row, Begun str t i call row) :
    Sound str t log where
  steps := hsteps.trans h.steps
  seqs := by
    intro run
    rw [h.seqs, State.count, State.count, hruns]
  stored := fun x hx => hlog x hx (h.stored x hx)
  calls := by
    intro j call hj
    rw [hcalls] at hj
    by_cases hji : j = i
    · subst hji
      rw [Function.update_self] at hj
      exact hown call hj
    · rw [Function.update_of_ne hji] at hj
      rcases h.calls j call hj with hwaiting | ⟨row, hbegun⟩
      · exact Or.inl hwaiting
      · exact Or.inr ⟨row, hbegun.mono (hlocks _ j hji hbegun.held) (hruns ▸ hbegun.found) rfl
          (hothers _ j hji hbegun.held)⟩

theorem Sound.close (h : Sound str s log) : Sound str (s.close i) log :=
  h.move rfl rfl rfl (fun _ _ hji hk => release_other hji hk) (fun _ _ hx => hx)
    (fun _ _ _ _ _ _ hx => hx) fun _ hcall => by cases hcall

theorem Sound.put (h : Sound str s log) (hown : Waiting call ∨ ∃ row, Begun str s i call row) :
    Sound str (s.put i call) log := by
  refine h.move rfl rfl rfl (fun _ _ _ hk => hk) (fun _ _ hx => hx) (fun _ _ _ _ _ _ hx => hx)
    fun call' hcall => ?_
  cases hcall
  rcases hown with hwaiting | ⟨row, hbegun⟩
  · exact Or.inl hwaiting
  · exact Or.inr ⟨row, hbegun.mono (t := s.put i call) hbegun.held hbegun.found rfl
      fun _ _ hx => hx⟩

/-- The lock: the next step of the run is this transaction's. -/
theorem Sound.lock {columns : δ} {payload : Option Bytes} (h : Sound str s log)
    (hi : s.calls i = some call) (hstage : call.stage = .locking columns payload)
    (hrow : s.runs call.run = some row) (hfree : Free s.locks call.run i) :
    Sound str ((s.lock i call.run).put i { call with
      stage := .locked row.companyId call.run (row.stepsCount + call.pending.length) columns
        payload }) log := by
  refine h.move rfl rfl rfl (fun k j _ hk => take_kept hfree hk) (fun _ _ hx => hx)
    (fun _ _ _ _ _ _ hx => hx) fun call' hcall' => Or.inr ⟨row, ?_⟩
  cases hcall'
  have hpending : (∀ x ∈ call.pending, x.1.runId = call.run) ∧
      call.pending.map (fun x => x.1.seq) = List.range' row.stepsCount call.pending.length ∧
      ∀ x ∈ call.pending, Stored str s.blobs x := by
    rcases h.calls i call hi with ⟨hnil, -⟩ | ⟨row', hbegun⟩
    · rw [hnil]
      exact ⟨List.forall_mem_nil _, rfl, List.forall_mem_nil _⟩
    · have hsame : row' = row := Option.some.inj (hbegun.found.symm.trans hrow)
      exact ⟨hbegun.runs, hsame ▸ hbegun.seqs, hbegun.stored⟩
  refine ⟨take_self, hrow, hpending.1, hpending.2.1, hpending.2.2, ?_⟩
  cases payload with
  | some payload => exact rfl
  | none => exact ⟨rfl, rfl, rfl, fun _ hbytes => by cases hbytes⟩

/-- The blob: under a key no recorded step has, of any run. -/
theorem Sound.putting {companyId : Id} {seq : Nat} {columns : δ} {payload : Bytes}
    (hstr : Function.Injective str) (hlen : ∀ id, (str id).length = 36) (h : Sound str s log)
    (hi : s.calls i = some call) (hstage : call.stage = .putting companyId seq columns payload) :
    Sound str ((s.store (stepBlobKey str companyId call.run seq) payload).put i { call with
      stage := .inserting ⟨companyId, call.run, seq, columns,
        some (stepBlobKey str companyId call.run seq)⟩ (some payload) }) log := by
  rcases h.calls i call hi with ⟨-, columns', payload', hat⟩ | ⟨row, hbegun⟩
  · rw [hstage] at hat
    cases hat
  · have hseq : seq = row.stepsCount + call.pending.length := by
      have hat := hbegun.stage
      rw [hstage] at hat
      exact hat
    have hkept : ∀ x : AgentStep δ × Option Bytes,
        (x.1.runId = call.run → x.1.seq < row.stepsCount + call.pending.length) →
        Stored str s.blobs x → Stored str (Function.update s.blobs
          (stepBlobKey str companyId call.run seq) (some payload)) x := by
      intro x hbefore hx
      refine hx.mono (Function.update_of_ne (fun hkey => ?_) _ _)
      obtain ⟨-, hrun, heq⟩ := stepBlobKey_inj hstr hlen hkey
      exact absurd (hbefore hrun) (by rw [heq, hseq]; exact lt_irrefl _)
    refine h.move rfl rfl rfl (fun _ _ _ hk => hk) (fun x hx => hkept x fun hrun => ?_)
      (fun k j hji hk x hrun => hkept x fun hrun' => ?_) fun call' hcall' => Or.inr ⟨row, ?_⟩
    · exact (h.seq_lt hx (hrun ▸ hbegun.found)).trans_le (Nat.le_add_right _ _)
    · rw [← hrun, hrun'] at hk
      exact absurd (holder_eq hk hbegun.held) hji
    · cases hcall'
      refine ⟨hbegun.held, hbegun.found, hbegun.runs, hbegun.seqs,
        fun x hx => hkept x (fun _ => hbegun.seq_lt hx) (hbegun.stored x hx), rfl, hseq, rfl, ?_⟩
      intro bytes hbytes
      cases hbytes
      exact Function.update_self _ _ _

theorem Sound.inserting {step : AgentStep δ} {payload : Option Bytes} (h : Sound str s log)
    (hi : s.calls i = some call) (hstage : call.stage = .inserting step payload) :
    Sound str (s.put i { call with
      pending := call.pending ++ [(step, payload)], stage := .ready }) log := by
  rcases h.calls i call hi with ⟨-, columns', payload', hat⟩ | ⟨row, hbegun⟩
  · rw [hstage] at hat
    cases hat
  · have hat := hbegun.stage
    rw [hstage] at hat
    obtain ⟨hrun, hseq, hstored⟩ := hat
    refine h.put (Or.inr ⟨row, hbegun.held, hbegun.found, fun x hx => ?_, ?_, fun x hx => ?_,
      trivial⟩)
    · rcases List.mem_append.mp hx with hx | hx
      · exact hbegun.runs x hx
      · rw [List.mem_singleton.mp hx]
        exact hrun
    · rw [List.map_append, hbegun.seqs, List.map_singleton, hseq, List.length_append,
        List.length_singleton, List.range'_concat, Nat.one_mul]
    · rcases List.mem_append.mp hx with hx | hx
      · exact hbegun.stored x hx
      · rw [List.mem_singleton.mp hx]
        exact hstored

theorem Sound.next (hstr : Function.Injective str) (hlen : ∀ id, (str id).length = 36)
    (h : Sound str s log) (hi : s.calls i = some call) (hstep : s.next str i call = some t) :
    Sound str t log := by
  cases hstage : call.stage with
  | locking columns payload =>
    simp only [State.next, hstage] at hstep
    split at hstep
    · cases hstep
      exact h.close
    · next row hrow =>
      split at hstep
      · next hfree =>
        split at hstep
        · cases hstep
          exact h.close
        · cases hstep
          exact h.lock hi hstage hrow hfree
      · cases hstep
  | putting companyId seq columns payload =>
    simp only [State.next, hstage] at hstep
    cases hstep
    exact h.putting hstr hlen hi hstage
  | inserting step payload =>
    simp only [State.next, hstage] at hstep
    cases hstep
    exact h.inserting hi hstage
  | ready =>
    simp only [State.next, hstage] at hstep
    cases hstep

theorem count_setRun {id : Id} : (s.setRun id row).count id = row.stepsCount := by
  rw [State.count, State.setRun]
  dsimp only
  rw [Function.update_self]
  rfl

theorem count_setRun_other {id : Id} (h : run ≠ id) :
    (s.setRun id row).count run = s.count run := by
  rw [State.count, State.count, State.setRun]
  dsimp only
  rw [Function.update_of_ne h]

theorem Sound.commit {state : AgentRunState} (h : Sound str s log) (hi : s.calls i = some call)
    (hstep : s.commit i call state = some t) : Sound str t (log ++ call.pending) := by
  unfold State.commit at hstep
  split at hstep
  · next found hready hfound =>
    cases hstep
    rcases h.calls i call hi with ⟨-, columns, payload, hat⟩ | ⟨row, hbegun⟩
    · rw [hready] at hat
      cases hat
    · obtain rfl : row = found := Option.some.inj (hbegun.found.symm.trans hfound)
      refine ⟨?_, fun run => ?_, fun x hx => ?_, fun j call' hj => ?_⟩
      · show s.steps ++ _ = _
        rw [h.steps, List.map_append]
      · rw [List.filter_append, List.map_append, h.seqs]
        by_cases hrun : run = call.run
        · subst hrun
          have hall : call.pending.filter (fun x => x.1.runId = call.run) = call.pending :=
            List.filter_eq_self.mpr fun x hx => decide_eq_true (hbegun.runs x hx)
          have hbefore : s.count call.run = row.stepsCount := by rw [State.count, hfound]; rfl
          have hafter : ((s.close i).setRun call.run { row with
              state, stepsCount := row.stepsCount + call.pending.length }).count call.run =
              row.stepsCount + call.pending.length := count_setRun
          rw [hall, hbegun.seqs, hbefore]
          refine Eq.trans ?_ (congrArg List.range hafter).symm
          rw [List.range_eq_range', List.range_eq_range', ← List.range'_append_1, Nat.zero_add]
        · have hnone : call.pending.filter (fun x => x.1.runId = run) = [] := by
            rw [List.filter_eq_nil_iff]
            intro x hx heq
            exact hrun ((of_decide_eq_true heq).symm.trans (hbegun.runs x hx))
          rw [hnone, List.map_nil, List.append_nil]
          exact congrArg List.range (count_setRun_other (s := s.close i) hrun).symm
      · rcases List.mem_append.mp hx with hx | hx
        · exact h.stored x hx
        · exact hbegun.stored x hx
      · by_cases hji : j = i
        · subst hji
          simp [State.close, State.setRun] at hj
        · have hj : s.calls j = some call' := (Function.update_of_ne hji _ _).symm.trans hj
          rcases h.calls j call' hj with hwaiting | ⟨row', hbegun'⟩
          · exact Or.inl hwaiting
          · -- the other has another run's row
            have hother : call'.run ≠ call.run := by
              intro heq
              have hheld := hbegun'.held
              rw [heq] at hheld
              exact hji (holder_eq hheld hbegun.held)
            exact Or.inr ⟨row', hbegun'.mono (release_other hji hbegun'.held)
              ((Function.update_of_ne hother _ _).trans hbegun'.found) rfl fun _ _ hx => hx⟩
  · cases hstep

/-- A run's row changes, but for its count, while no transaction has it. -/
theorem Sound.setRun {id : Id} (h : Sound str s log) (hcount : row.stepsCount = s.count id)
    (hfree : ∀ i call row, Begun str s i call row → call.run ≠ id) :
    Sound str (s.setRun id row) log where
  steps := h.steps
  seqs := by
    intro run
    rw [h.seqs]
    by_cases hrun : run = id
    · rw [hrun, count_setRun, hcount]
    · rw [count_setRun_other hrun]
  stored := h.stored
  calls := by
    intro j call hj
    rcases h.calls j call hj with hwaiting | ⟨row', hbegun⟩
    · exact Or.inl hwaiting
    · exact Or.inr ⟨row', hbegun.mono (t := s.setRun id row) hbegun.held
        ((Function.update_of_ne (hfree j call row' hbegun) _ _).trans hbegun.found) rfl
        fun _ _ hx => hx⟩

theorem Sound.step {a : Act δ} (hstr : Function.Injective str)
    (hlen : ∀ id, (str id).length = 36) (h : Sound str s log) (hstep : s.step str a = some t) :
    Sound str t (log ++ committed s a) := by
  cases a with
  | commit i state =>
    obtain ⟨call, hi, hcommit⟩ := Option.bind_eq_some_iff.mp hstep
    have hcommitted : committed s (.commit i state) = call.pending := by rw [committed, hi]; rfl
    rw [hcommitted]
    exact h.commit hi hcommit
  | begin_ i run columns payload =>
    show Sound str t (log ++ [])
    rw [List.append_nil]
    simp only [State.step] at hstep
    split at hstep
    · cases hstep
      exact h.put (Or.inl ⟨rfl, columns, payload, rfl⟩)
    · cases hstep
  | record i columns payload =>
    show Sound str t (log ++ [])
    rw [List.append_nil]
    obtain ⟨call, hi, hrecord⟩ := Option.bind_eq_some_iff.mp hstep
    split at hrecord
    · next hready =>
      cases hrecord
      refine h.put (Or.inr ?_)
      rcases h.calls i call hi with ⟨-, columns', payload', hat⟩ | ⟨row, hbegun⟩
      · rw [hready] at hat
        cases hat
      · exact ⟨row, hbegun.held, hbegun.found, hbegun.runs, hbegun.seqs, hbegun.stored, trivial⟩
    · cases hrecord
  | next i =>
    show Sound str t (log ++ [])
    rw [List.append_nil]
    obtain ⟨call, hi, hnext⟩ := Option.bind_eq_some_iff.mp hstep
    exact h.next hstr hlen hi hnext
  | rollback i =>
    show Sound str t (log ++ [])
    rw [List.append_nil]
    obtain ⟨call, -, rfl⟩ := Option.map_eq_some_iff.mp hstep
    exact h.close
  | create id companyId =>
    show Sound str t (log ++ [])
    rw [List.append_nil]
    simp only [State.step] at hstep
    split at hstep
    · next hnone =>
      cases hstep
      refine h.setRun ?_ fun i call row hbegun heq => ?_
      · rw [State.count, hnone]
        rfl
      · have hfound := hbegun.found
        rw [heq, hnone] at hfound
        cases hfound
    · cases hstep
  | move id state =>
    show Sound str t (log ++ [])
    rw [List.append_nil]
    simp only [State.step] at hstep
    split at hstep
    · next run hrun hlock =>
      cases hstep
      refine h.setRun ?_ fun i call row hbegun heq => ?_
      · rw [State.count, hrun]
        rfl
      · have hheld := hbegun.held
        rw [heq, hlock] at hheld
        cases hheld
    · cases hstep

/-! ## Going on from what is stored -/

/-- The last of rows in the order of their keys is the first in the other order. -/
theorem top_getLast {α : Type} {key tie : α → Nat} {xs : List α} {x : α}
    (h : (xs ++ [x]).Pairwise fun a b => key a < key b) : top key tie 1 (xs ++ [x]) = [x] := by
  obtain ⟨rest, hperm, -, hrest, hlength⟩ : IsTop key 1 (xs ++ [x]) (top key tie 1 (xs ++ [x])) :=
    top_isTop
  rw [List.length_append, List.length_singleton, Nat.min_eq_left (Nat.le_add_left 1 _),
    List.length_eq_one_iff] at hlength
  obtain ⟨y, hy⟩ := hlength
  rw [hy] at hperm hrest ⊢
  have hx : x ∈ [y] ++ rest := hperm.mem_iff.mpr (List.mem_append_right _ List.mem_cons_self)
  rcases List.mem_append.mp hx with hx | hx
  · rw [List.mem_singleton.mp hx]
  · rcases List.mem_append.mp (hperm.mem_iff.mp (List.mem_append_left _ List.mem_cons_self))
      with hmem | hmem
    · have hlt := (List.pairwise_append.mp h).2.2 y hmem x List.mem_cons_self
      exact absurd (hrest y List.mem_cons_self x hx) (not_le.mpr hlt)
    · rw [List.mem_singleton.mp hmem]

theorem Sound.resume (h : Sound str s log) (run : Id) :
    s.resume run =
      ((log.filter fun x => x.1.runId = run).filterMap Prod.snd).getLast?.map some := by
  have hkept : ∀ x ∈ log, x.1.blobKey.isSome = x.2.isSome := by
    intro x hx
    rw [(h.stored x hx).1, Option.isSome_map]
  have hrows : s.steps.filter (fun row => row.runId = run && row.blobKey.isSome) =
      ((log.filter fun x => x.1.runId = run).filter fun x => x.2.isSome).map Prod.fst := by
    rw [h.steps, List.filter_map, List.filter_filter]
    refine congrArg (List.map Prod.fst) (List.filter_congr fun x hx => ?_)
    rw [Function.comp, hkept x hx, Bool.and_comm]
  have hsorted : (((log.filter fun x => x.1.runId = run).filter fun x => x.2.isSome).map
      Prod.fst).Pairwise fun a b => a.seq < b.seq := by
    rw [List.pairwise_map]
    refine List.Pairwise.filter _ ?_
    rw [← List.pairwise_map (f := fun x : AgentStep δ × Option Bytes => x.1.seq), h.seqs]
    exact List.pairwise_lt_range
  have hpayloads : ((log.filter fun x => x.1.runId = run).filter fun x => x.2.isSome).filterMap
      Prod.snd = (log.filter fun x => x.1.runId = run).filterMap Prod.snd := by
    rw [List.filterMap_filter]
    refine List.filterMap_congr fun x _ => ?_
    cases x.2 <;> rfl
  rw [State.resume, hrows, ← hpayloads]
  cases hlast : (log.filter fun x => x.1.runId = run).filter (fun x => x.2.isSome) using
    List.reverseRecOn with
  | nil => rfl
  | append_singleton xs x =>
    have hx : x ∈ (log.filter fun x => x.1.runId = run).filter fun x => x.2.isSome := by
      rw [hlast]
      exact List.mem_append_right _ List.mem_cons_self
    obtain ⟨hlog, hsome⟩ := List.mem_filter.mp hx
    obtain ⟨hkey, hblob⟩ := h.stored x (List.mem_of_mem_filter hlog)
    obtain ⟨bytes, hbytes⟩ := Option.isSome_iff_exists.mp hsome
    rw [hlast, List.map_append, List.map_singleton] at hsorted
    rw [List.map_append, List.map_singleton, top_getLast hsorted, List.filterMap_append,
      List.filterMap_cons_some hbytes, List.filterMap_nil, List.getLast?_concat, List.head?_cons,
      Option.map_some, Option.map_some, hkey, hbytes, Option.map_some, Option.bind_some,
      hblob bytes hbytes]

theorem Sound.empty (hs : (trace (δ := δ) str).init s) : Sound str s [] := by
  obtain ⟨hruns, hsteps, -, hcalls, -⟩ := hs
  refine ⟨hsteps, fun run => ?_, List.forall_mem_nil _, fun i call hi => ?_⟩
  · rw [State.count, hruns]
    rfl
  · rw [hcalls] at hi
    cases hi

/-- However transactions interleave and roll back: the committed steps of every run are numbered
from zero without a gap, every one of them that was given something to keep has it in the blob its
row names, and a run goes on from what its last such step was given. -/
theorem steps_keep_payloads (hstr : Function.Injective str) (hlen : ∀ id, (str id).length = 36)
    (hs : (trace str).init s) {h : List (System.Taken (State δ) (Act δ))}
    (hh : (trace str).History s h t) :
    t.steps = (told h).map Prod.fst ∧
    (∀ run, ((t.steps.filter fun row => row.runId = run).map AgentStep.seq) =
      List.range (((t.runs run).map AgentRun.stepsCount).getD 0)) ∧
    (∀ x ∈ told h, ∀ bytes, x.2 = some bytes →
      ∃ key, x.1.blobKey = some key ∧ t.blobs key = some bytes) ∧
    ∀ run, t.resume run =
      (((told h).filter fun x => x.1.runId = run).filterMap Prod.snd).getLast?.map some := by
  have hsound : Sound str t (told h) := by
    induction hh with
    | nil => exact .empty hs
    | @snoc h t u a _ hstep ih =>
      rw [told, List.flatMap_append, List.flatMap_singleton]
      exact ih.step hstr hlen hstep
  refine ⟨hsound.steps, fun run => ?_, fun x hx bytes hbytes => ?_, hsound.resume⟩
  · rw [hsound.steps, List.filter_map, List.map_map]
    exact hsound.seqs run
  · obtain ⟨hkey, hblob⟩ := hsound.stored x hx
    rw [hbytes] at hkey
    exact ⟨_, hkey, hblob bytes hbytes⟩

-- two transactions at one run: the first leaves a blob behind and rolls back, the second records
def zeros (id : Id) : Str := lit "00000000-0000-0000-0000-00000000000" ++ [48 + id]

def unstarted : State Unit := ⟨fun _ => none, [], fun _ => none, fun _ => none, fun _ => none⟩

def firstStep : List (Act Unit) :=
  [.create 7 0, .begin_ 0 7 () (some [1]), .begin_ 1 7 () (some [2]), .next 0, .next 0, .rollback 0,
    .next 1, .next 1, .next 1, .commit 1 .running]

theorem steps_keep_payloads_first : ∃ t h, (trace zeros).History unstarted h t ∧
    h.map System.Taken.label = firstStep ∧ t.resume 7 = some (some [2]) ∧
    t.steps = (told h).map Prod.fst ∧
    (∀ run, ((t.steps.filter fun row => row.runId = run).map AgentStep.seq) =
      List.range (((t.runs run).map AgentRun.stepsCount).getD 0)) ∧
    (∀ x ∈ told h, ∀ bytes, x.2 = some bytes →
      ∃ key, x.1.blobKey = some key ∧ t.blobs key = some bytes) ∧
    ∀ run, t.resume run =
      (((told h).filter fun x => x.1.runId = run).filterMap Prod.snd).getLast?.map some := by
  have hstr : Function.Injective zeros := by
    intro a b hab
    exact Nat.add_left_cancel (List.cons.inj (List.append_cancel_left hab)).1
  have hrun : (System.follow anyStep (fun s a => s.step zeros a) unstarted firstStep).map
      (fun t => t.resume 7) = some (some (some [2])) := by decide +kernel
  obtain ⟨t, ht, hresume⟩ := Option.map_eq_some_iff.mp hrun
  obtain ⟨h, hh, hlabels⟩ :=
    System.follow_history (S := trace zeros) (fun _ _ _ hstep => hstep) ht
  exact ⟨t, h, hh, hlabels, hresume,
    steps_keep_payloads hstr (fun _ => rfl) ⟨rfl, rfl, rfl, rfl, rfl⟩ hh⟩

end Autora.Steps
