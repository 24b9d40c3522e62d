import Autora.Outbox

/-! Commits come in the order of their seqs, company by company, so a reader that goes on from
the last seq it saw has missed nothing. -/

namespace Autora.Outbox

open Logs Systems
open Realtime (EventRecord EventHub)

variable {key : Id → Nat} {s t : State} {i j : Id} {w : Writer} {log : List Row}

/-- In the order of the commits, one company's seqs go up. -/
def InOrder (log : List Row) : Prop :=
  log.Pairwise fun a b => a.companyId = b.companyId → a.seq < b.seq

/-- What a transaction has written: under the locks it holds, and after what is committed. -/
structure Writer.Sound (key : Id → Nat) (s : State) (i : Id) (w : Writer) : Prop where
  locked : ∀ r ∈ w.written, s.locks (key r.companyId) = some i
  fresh : ∀ r ∈ w.written, r.seq < s.nextSeq
  positive : ∀ r ∈ w.written, 0 < r.seq
  later : ∀ r ∈ w.written, ∀ r' ∈ s.log, r'.companyId = r.companyId → r'.seq < r.seq
  ascending : Ascending Row.seq w.written
  inserting : ∀ e, w.stage = .inserting e → s.locks (key e.companyId) = some i

/-- What a reader has read, up to where it stands. -/
structure Reader.Sound (log : List Row) (r : Reader) : Prop where
  read : r.read = readEnvelopes (window Row.seq (log.filter r.query.matches_) r.start r.after)
  stands : r.after = r.start ∨
    ∃ row ∈ log, row.companyId = r.query.companyId ∧ row.seq = r.after ∧ r.start ≤ r.after

structure Sound (key : Id → Nat) (s : State) : Prop where
  positive : 0 < s.nextSeq
  fresh : ∀ r ∈ s.log, r.seq < s.nextSeq
  inOrder : InOrder s.log
  writers : ∀ i w, s.writers i = some w → w.Sound key s i
  readers : ∀ k r, s.readers k = some r → r.Sound s.log

/-! ## Writing -/

-- others keep what they have: their locks, and what is before their rows
theorem Writer.Sound.mono (h : w.Sound key s i) (hlog : t.log = s.log)
    (hlocks : ∀ k, s.locks k = some i → t.locks k = some i) (hnext : s.nextSeq ≤ t.nextSeq) :
    w.Sound key t i where
  locked := fun r hr => hlocks _ (h.locked r hr)
  fresh := fun r hr => (h.fresh r hr).trans_le hnext
  positive := h.positive
  later := by
    rw [hlog]
    exact h.later
  ascending := h.ascending
  inserting := fun e he => hlocks _ (h.inserting e he)

theorem Sound.put {w' : Writer} (h : Sound key s) (hlog : t.log = s.log)
    (hreaders : t.readers = s.readers)
    (hwriters : t.writers = Function.update s.writers i (some w'))
    (hlocks : ∀ k j, s.locks k = some j → t.locks k = some j) (hnext : s.nextSeq ≤ t.nextSeq)
    (hw : w'.Sound key t i) : Sound key t where
  positive := h.positive.trans_le hnext
  fresh := by
    rw [hlog]
    exact fun r hr => (h.fresh r hr).trans_le hnext
  inOrder := hlog ▸ h.inOrder
  writers := by
    intro j w hj
    rw [hwriters] at hj
    by_cases hji : j = i
    · subst hji
      rw [Function.update_self] at hj
      cases hj
      exact hw
    · rw [Function.update_of_ne hji] at hj
      exact (h.writers j w hj).mono hlog (fun k => hlocks k j) hnext
  readers := by
    rw [hlog, hreaders]
    exact h.readers

theorem Sound.advance (h : Sound key s) (hw : s.writers i = some w)
    (hstep : s.advance key i w = some t) : Sound key t := by
  have hsound := h.writers i w hw
  cases hs : w.stage with
  | idle =>
    simp only [State.advance, hs] at hstep
    cases hstep
  | locking e =>
    simp only [State.advance, hs] at hstep
    split at hstep
    · next hfree =>
      cases hstep
      have hlocks : ∀ k j, s.locks k = some j →
          Function.update s.locks (key e.companyId) (some i) k = some j := by
        intro k j hk
        by_cases hkey : k = key e.companyId
        · subst hkey
          rw [Function.update_self]
          rcases hfree with hnone | hown
          · cases hnone.symm.trans hk
          · rw [← hk, hown]
        · rw [Function.update_of_ne hkey, hk]
      refine h.put rfl rfl rfl hlocks le_rfl ⟨fun r hr => hlocks _ _ (hsound.locked r hr),
        hsound.fresh, hsound.positive, hsound.later, hsound.ascending, fun e' he' => ?_⟩
      cases he'
      exact Function.update_self _ _ _
    · cases hstep
  | inserting e =>
    simp only [State.advance, hs, Option.some.injEq] at hstep
    subst hstep
    have hlock := hsound.inserting e hs
    refine h.put rfl rfl rfl (fun k j hk => hk) (Nat.le_succ _) ⟨?_, ?_, ?_, ?_, ?_, ?_⟩
    · intro r hr
      rcases List.mem_append.mp hr with hr | hr
      · exact hsound.locked r hr
      · rw [List.mem_singleton.mp hr]
        exact hlock
    · intro r hr
      rcases List.mem_append.mp hr with hr | hr
      · exact (hsound.fresh r hr).trans (Nat.lt_succ_self _)
      · rw [List.mem_singleton.mp hr]
        exact Nat.lt_succ_self _
    · intro r hr
      rcases List.mem_append.mp hr with hr | hr
      · exact hsound.positive r hr
      · rw [List.mem_singleton.mp hr]
        exact h.positive
    · intro r hr r' hr' hcompany
      rcases List.mem_append.mp hr with hr | hr
      · exact hsound.later r hr r' hr' hcompany
      · rw [List.mem_singleton.mp hr]
        exact h.fresh r' hr'
    · refine List.pairwise_append.mpr ⟨hsound.ascending, List.pairwise_singleton _ _, ?_⟩
      intro r hr r' hr'
      rw [List.mem_singleton.mp hr']
      exact hsound.fresh r hr
    · intro e' he'
      cases he'

/-! ## The end of a transaction -/

theorem close_other {k : Nat} (hj : j ≠ i) (h : s.locks k = some j) :
    (s.close i).locks k = some j := by
  have hne : s.locks k ≠ some i := by
    rw [h]
    exact fun heq => hj (Option.some.inj heq)
  exact (if_neg hne).trans h

theorem Sound.rollback (h : Sound key s) : Sound key (s.close i) where
  positive := h.positive
  fresh := h.fresh
  inOrder := h.inOrder
  writers := by
    intro j w hj
    by_cases hji : j = i
    · subst hji
      simp [State.close] at hj
    · have hj : s.writers j = some w := (Function.update_of_ne hji _ _).symm.trans hj
      exact (h.writers j w hj).mono rfl (fun k => close_other hji) le_rfl
  readers := h.readers

theorem window_self {log : List Row} {a : Nat} : window Row.seq log a a = [] := by
  refine List.filter_eq_nil_iff.mpr fun x _ => ?_
  simp only [Bool.and_eq_true, decide_eq_true_eq, not_and]
  omega

theorem Query.company {q : Query} {r : Row} (h : q.matches_ r = true) :
    r.companyId = q.companyId := by
  simp only [Query.matches_, Bool.and_eq_true, decide_eq_true_eq] at h
  exact h.1.1.1.1.1

-- what is committed now is past where the reader stands
theorem Reader.Sound.commit {r : Reader} {new : List Row} (h : r.Sound log)
    (hnew : ∀ x ∈ new, ∀ y ∈ log, y.companyId = x.companyId → y.seq < x.seq) :
    r.Sound (log ++ new) where
  read := by
    rw [h.read, List.filter_append]
    rcases h.stands with heq | ⟨row, hrow, hcompany, hseq, -⟩
    · rw [heq, window_self, window_self]
    · rw [window_append fun x hx => ?_]
      obtain ⟨hx, hmatch⟩ := List.mem_filter.mp hx
      rw [← hseq]
      exact hnew x hx row hrow (hcompany.trans (Query.company hmatch).symm)
  stands := h.stands.imp_right fun hstands => by
    obtain ⟨row, hrow, hrest⟩ := hstands
    exact ⟨row, List.mem_append_left _ hrow, hrest⟩

theorem Sound.commit (h : Sound key s) (hw : s.writers i = some w) :
    Sound key { s.close i with log := s.log ++ w.written } := by
  have hsound := h.writers i w hw
  have hlater : ∀ x ∈ w.written, ∀ y ∈ s.log, y.companyId = x.companyId → y.seq < x.seq :=
    hsound.later
  refine ⟨h.positive, fun r hr => ?_, List.pairwise_append.mpr ⟨h.inOrder, ?_, ?_⟩,
    fun j w' hj => ?_,
    fun k r hr => (h.readers k r hr).commit hlater⟩
  · rcases List.mem_append.mp hr with hr | hr
    · exact h.fresh r hr
    · exact hsound.fresh r hr
  · refine List.Pairwise.imp ?_ hsound.ascending
    intro a b hlt _
    exact hlt
  · intro a ha b hb hcompany
    exact hlater b hb a ha hcompany
  · by_cases hji : j = i
    · subst hji
      simp [State.close] at hj
    · have hj : s.writers j = some w' := (Function.update_of_ne hji _ _).symm.trans hj
      have hother := h.writers j w' hj
      refine ⟨fun r hr => close_other hji (hother.locked r hr), hother.fresh,
        hother.positive, ?_, hother.ascending,
        fun e he => close_other hji (hother.inserting e he)⟩
      intro r hr r' hr' hcompany
      rcases List.mem_append.mp hr' with hr' | hr'
      · exact hother.later r hr r' hr' hcompany
      · -- the lock of their company is not held twice
        have hheld := hsound.locked r' hr'
        rw [hcompany, hother.locked r hr] at hheld
        exact absurd (Option.some.inj hheld) hji

/-! ## A page -/

theorem InOrder.matching (h : InOrder log) (q : Query) :
    Ascending Row.seq (log.filter q.matches_) := by
  refine (List.Pairwise.filter _ h).imp_of_mem fun ha hb hlt => hlt ?_
  have hca := Query.company (List.mem_filter.mp ha).2
  have hcb := Query.company (List.mem_filter.mp hb).2
  rw [hca, hcb]

theorem eventRows_eq (h : InOrder log) (q : Query) (a n : Nat) :
    eventRows log q a n = (after Row.seq (log.filter q.matches_) a).take n := by
  have hrows : log.filter (fun r => q.matches_ r && decide (a < r.seq)) =
      after Row.seq (log.filter q.matches_) a := by
    rw [after, List.filter_filter]
    refine List.filter_congr fun r _ => ?_
    rw [Bool.and_comm]
  have hsorted : (after Row.seq (log.filter q.matches_) a).Pairwise fun x y => x.seq ≤ y.seq :=
    (List.Pairwise.filter _ (h.matching q)).imp fun hlt => le_of_lt hlt
  rw [eventRows, hrows, List.mergeSort_of_pairwise]
  exact hsorted.imp fun hle => decide_eq_true hle

-- a page is a window, which joins what was read before
theorem page_window {q : Query} (h : InOrder log) (a : Nat) {page : List Row}
    (hpage : page = (eventRows log q a (q.limit + 1)).take q.limit) :
    page = window Row.seq (log.filter q.matches_) a ((page.getLast?.map Row.seq).getD a) ∧
      (∀ last, page.getLast? = some last → a < last.seq ∧ last ∈ log.filter q.matches_) := by
  have htake : page = (Logs.after Row.seq (log.filter q.matches_) a).take q.limit := by
    rw [hpage, eventRows_eq h, List.take_take, Nat.min_eq_left (Nat.le_succ _)]
  cases hlast : page.getLast? with
  | none =>
    rw [List.getLast?_eq_none_iff] at hlast
    rw [hlast, Option.map_none, Option.getD_none, window_self]
    exact ⟨rfl, fun last hl => by cases hl⟩
  | some last =>
    have hlast' := hlast
    rw [htake] at hlast'
    obtain ⟨hwindow, hlt, hmem⟩ := page_eq_window (h.matching q) hlast'
    refine ⟨?_, fun last' hl => ?_⟩
    · rw [htake]
      exact hwindow
    · cases hl
      exact ⟨hlt, hmem⟩

theorem Reader.Sound.start_le {r : Reader} (h : r.Sound log) : r.start ≤ r.after := by
  rcases h.stands with heq | ⟨row, -, -, -, hle⟩
  · exact heq.ge
  · exact hle

theorem Reader.Sound.page {r : Reader} (h : r.Sound log) (hin : InOrder log) :
    (r.page log).Sound log := by
  obtain ⟨hpage, hends⟩ := @page_window log r.query hin r.after _ rfl
  have hstart := h.start_le
  cases hlast : ((eventRows log r.query r.after (r.query.limit + 1)).take
      r.query.limit).getLast? with
  | none =>
    have hsame : (r.page log).after = r.after ∧ (r.page log).read = r.read := by
      have hnil := List.getLast?_eq_none_iff.mp hlast
      simp [Reader.page, loadEventPage, hnil, readEnvelopes]
    refine ⟨?_, ?_⟩
    · rw [hsame.1, hsame.2]
      exact h.read
    · rw [hsame.1]
      exact h.stands
  | some last =>
    obtain ⟨hlt, hmem⟩ := hends last hlast
    have hafter : (r.page log).after = last.seq := by simp [Reader.page, loadEventPage, hlast]
    have hle : r.after ≤ last.seq := hlt.le
    refine ⟨?_, .inr ⟨last, (List.mem_filter.mp hmem).1, Query.company (List.mem_filter.mp hmem).2,
      hafter.symm, ?_⟩⟩
    · have hread : (r.page log).read = r.read ++ readEnvelopes
          (window Row.seq (log.filter r.query.matches_) r.after last.seq) := by
        rw [hlast, Option.map_some, Option.getD_some] at hpage
        rw [← hpage]
        rfl
      rw [hread, h.read, hafter, readEnvelopes, readEnvelopes, ← List.filter_append,
        ← window_split (hin.matching _) hstart hle]
      rfl
    · rw [hafter]
      exact hstart.trans hle

/-- When a page says there are no more, everything there is has been read. -/
theorem Reader.Sound.last_page {r : Reader} (h : r.Sound log) (hin : InOrder log)
    (hmore : (r.page log).hasMore = false) :
    (r.page log).read =
      readEnvelopes (Logs.after Row.seq (log.filter r.query.matches_) r.start) := by
  let rows := log.filter r.query.matches_
  have hasc : Ascending Row.seq rows := hin.matching r.query
  have hshort : (Logs.after Row.seq rows r.after).length ≤ r.query.limit := by
    have hlength : ¬ r.query.limit <
        (eventRows log r.query r.after (r.query.limit + 1)).length := by
      simpa [Reader.page, loadEventPage] using hmore
    rw [eventRows_eq hin, List.length_take] at hlength
    have hmin := Nat.not_lt.mp hlength
    rcases Nat.le_total (r.query.limit + 1) (Logs.after Row.seq rows r.after).length with hle | hle
    · rw [Nat.min_eq_left hle] at hmin
      exact absurd hmin (Nat.not_succ_le_self _)
    · rwa [Nat.min_eq_right hle] at hmin
  have hall : (eventRows log r.query r.after (r.query.limit + 1)).take r.query.limit =
      Logs.after Row.seq rows r.after := by
    rw [eventRows_eq hin, List.take_take, Nat.min_eq_left (Nat.le_succ _)]
    exact List.take_of_length_le hshort
  have hread : (r.page log).read =
      r.read ++ readEnvelopes (Logs.after Row.seq rows r.after) := by
    rw [← hall]
    rfl
  -- the window read so far, and all that is after it
  have hsplit := window_split (c := max (Logs.head Row.seq rows) r.after) hasc h.start_le
    (Nat.le_max_right _ _)
  rw [window_head (Nat.le_max_left _ _), window_head (Nat.le_max_left _ _)] at hsplit
  rw [hread, h.read, readEnvelopes, readEnvelopes, ← List.filter_append, hsplit]
  rfl

/-! ## Every run -/

theorem Sound.step {a : Act} (h : Sound key s) (hstep : s.step key a = some t) : Sound key t := by
  cases a with
  | begin_ i =>
    simp only [State.step] at hstep
    split at hstep
    · cases hstep
      refine h.put rfl rfl rfl (fun _ _ hk => hk) le_rfl ⟨?_, ?_, ?_, ?_, List.Pairwise.nil, ?_⟩
      · intro r hr
        cases hr
      · intro r hr
        cases hr
      · intro r hr
        cases hr
      · intro r hr
        cases hr
      · intro e he
        cases he
    · cases hstep
  | emit i e =>
    obtain ⟨w, hw, hstep⟩ := Option.bind_eq_some_iff.mp hstep
    have hsound := h.writers i w hw
    split at hstep
    · split at hstep
      · cases hstep
        exact h
      · cases hstep
        refine h.put rfl rfl rfl (fun _ _ hk => hk) le_rfl ⟨hsound.locked, hsound.fresh,
          hsound.positive, hsound.later, hsound.ascending, fun e he => ?_⟩
        cases he
    · cases hstep
  | next i =>
    obtain ⟨w, hw, hstep⟩ := Option.bind_eq_some_iff.mp hstep
    exact h.advance hw hstep
  | commit i =>
    obtain ⟨w, hw, hstep⟩ := Option.bind_eq_some_iff.mp hstep
    split at hstep
    · cases hstep
      exact h.commit hw
    · cases hstep
  | rollback i =>
    obtain ⟨w, -, rfl⟩ := Option.map_eq_some_iff.mp hstep
    exact h.rollback
  | follow k query after =>
    cases hstep
    refine ⟨h.positive, h.fresh, h.inOrder,
      fun i w hw => (h.writers i w hw).mono rfl (fun _ hk => hk) le_rfl,
      fun k' r hr => ?_⟩
    by_cases hk : k' = k
    · subst hk
      simp only [Function.update_self, Option.some.injEq] at hr
      subst hr
      refine ⟨?_, .inl rfl⟩
      rw [window_self]
      rfl
    · simp only [Function.update_of_ne hk] at hr
      exact h.readers k' r hr
  | page k =>
    obtain ⟨r, hr, rfl⟩ := Option.map_eq_some_iff.mp hstep
    refine ⟨h.positive, h.fresh, h.inOrder,
      fun i w hw => (h.writers i w hw).mono rfl (fun _ hk => hk) le_rfl,
      fun k' r' hr' => ?_⟩
    by_cases hk : k' = k
    · subst hk
      simp only [Function.update_self, Option.some.injEq] at hr'
      subst hr'
      exact (h.readers k' r hr).page h.inOrder
    · simp only [Function.update_of_ne hk] at hr'
      exact h.readers k' r' hr'

theorem sound (hs : (outbox key).Reach anyStep s) : Sound key s := by
  refine hs.invariant (fun s hinit => ?_) fun _ _ _ h _ hstep => h.step hstep
  obtain ⟨hlog, hnext, hwriters, -, hreaders⟩ := hinit
  refine ⟨?_, ?_, ?_, ?_, ?_⟩
  · rw [hnext]
    exact Nat.one_pos
  · rw [hlog]
    intro r hr
    cases hr
  · rw [hlog]
    exact List.Pairwise.nil
  · intro i w hw
    rw [hwriters] at hw
    cases hw
  · intro k r hr
    rw [hreaders] at hr
    cases hr

/-- Whatever transactions write at once, and whatever order they take their seqs in, a reader
that goes on from its last page has read the company's matching events up to where it stands,
each once and in order, and after a page without more all that are committed. -/
theorem readers_miss_nothing (hs : (outbox key).Reach anyStep s) {k : Id} {r : Reader}
    (hr : s.readers k = some r) :
    Ascending Row.seq r.read ∧
      r.read = readEnvelopes (window Row.seq (s.log.filter r.query.matches_) r.start r.after) ∧
      ((r.page s.log).hasMore = false → (r.page s.log).read =
        readEnvelopes (Logs.after Row.seq (s.log.filter r.query.matches_) r.start)) := by
  have h := sound hs
  have hreader := h.readers k r hr
  refine ⟨?_, hreader.read, hreader.last_page h.inOrder⟩
  have hascending := h.inOrder.matching r.query
  rw [hreader.read]
  exact List.Pairwise.filter _ (List.Pairwise.filter _ hascending)

-- everything of the company, one row a page
def everything : Query := ⟨0, none, [], none, none, none, 1⟩

def created : Envelope := ⟨none, false, 0, "task.created", none, none, none, true⟩

-- the second transaction waits for the first's lock, the reader reads before and after
def twoWriters : List Act :=
  [.begin_ 0, .begin_ 1, .emit 0 created, .next 0, .next 0, .emit 1 created, .follow 0 everything 0,
    .page 0, .commit 0, .page 0, .next 1, .next 1, .commit 1]

def started : State := ⟨1, [], fun _ => none, fun _ => none, fun _ => none⟩

def afterTwo : Option State :=
  System.follow anyStep (fun s a => s.step id a) started twoWriters

theorem afterTwo_reach (h : afterTwo = some s) : (outbox id).Reach anyStep s :=
  ⟨started, ⟨rfl, rfl, rfl, rfl, rfl⟩, System.follow_path (fun _ _ _ hstep => hstep) h⟩

theorem readers_miss_nothing_two : ∃ (s : State) (r : Reader), s.readers 0 = some r ∧
    r.read.map Row.seq = [1] ∧ (r.page s.log).read =
      readEnvelopes (Logs.after Row.seq (s.log.filter r.query.matches_) r.start) := by
  have hsome : afterTwo.isSome = true := by decide +kernel
  have hrun : afterTwo.all (fun s => (s.readers 0).any fun r =>
      r.read.map Row.seq = [1] ∧ (r.page s.log).hasMore = false) = true := by decide +kernel
  obtain ⟨s, hs⟩ := Option.isSome_iff_exists.mp hsome
  rw [hs, Option.all_some, Option.any_eq_true] at hrun
  obtain ⟨r, hr, hread⟩ := hrun
  obtain ⟨hseqs, hmore⟩ := of_decide_eq_true hread
  exact ⟨s, r, hr, hseqs, (readers_miss_nothing (afterTwo_reach hs) hr).2.2 hmore⟩

/-! ## The company's event hub -/

/-- The log as the event hub of a company reads it. -/
def hubLog (company : Id) (log : List Row) : List EventRecord :=
  (log.filter fun r => r.companyId = company).map fun r => ⟨r.seq, r.valid⟩

theorem hubLog_append (company : Id) (log new : List Row) :
    hubLog company (log ++ new) = hubLog company log ++ hubLog company new := by
  simp [hubLog]

theorem mem_hubLog {company : Id} {x : EventRecord} (h : x ∈ hubLog company log) :
    ∃ r ∈ log, r.companyId = company ∧ r.seq = x.seq := by
  obtain ⟨r, hr, rfl⟩ := List.mem_map.mp h
  obtain ⟨hr, hcompany⟩ := List.mem_filter.mp hr
  exact ⟨r, hr, of_decide_eq_true hcompany, rfl⟩

theorem head_lt {log : List EventRecord} {n : Nat} (hn : 0 < n) (h : ∀ x ∈ log, x.seq < n) :
    head EventRecord.seq log < n := by
  have hle : head EventRecord.seq log ≤ n - 1 := head_le fun x hx => Nat.le_sub_one_of_lt (h x hx)
  exact hle.trans_lt (Nat.sub_one_lt_of_lt hn)

theorem hub_same (cfg : EventHub.Config) {hub : EventHub} {company : Id}
    (hhub : hub.log = hubLog company log) :
    ∃ rows, hub.step cfg (.commit rows) = some { hub with log := hubLog company log } := by
  refine ⟨[], ?_⟩
  have hlater : hub.Later [] := ⟨List.Pairwise.nil, fun row hrow => by cases hrow⟩
  simp only [EventHub.step, if_pos hlater, List.append_nil, hhub]

-- of what the transaction wrote for the company, if it commits, else of nothing
theorem Sound.feeds (cfg : EventHub.Config) (h : Sound key s) {a : Act}
    (hstep : s.step key a = some t) {company : Id} {hub : EventHub}
    (hhub : hub.log = hubLog company s.log) :
    ∃ rows, hub.step cfg (.commit rows) = some { hub with log := hubLog company t.log } := by
  cases a with
  | begin_ i =>
    simp only [State.step] at hstep
    split at hstep <;> cases hstep
    exact hub_same cfg hhub
  | emit i e =>
    obtain ⟨w, hw, hstep⟩ := Option.bind_eq_some_iff.mp hstep
    split at hstep
    · split at hstep <;> cases hstep <;> exact hub_same cfg hhub
    · cases hstep
  | next i =>
    obtain ⟨w, hw, hstep⟩ := Option.bind_eq_some_iff.mp hstep
    unfold State.advance at hstep
    split at hstep
    · cases hstep
    · split at hstep <;> cases hstep
      exact hub_same cfg hhub
    · cases hstep
      exact hub_same cfg hhub
  | commit i =>
    obtain ⟨w, hw, hstep⟩ := Option.bind_eq_some_iff.mp hstep
    split at hstep
    · cases hstep
      have hsound := h.writers i w hw
      have hlater : hub.Later (hubLog company w.written) := by
        refine ⟨?_, fun row hrow => ?_⟩
        · exact List.pairwise_map.mpr (List.Pairwise.filter _ hsound.ascending)
        · obtain ⟨r, hr, hcompany, hseq⟩ := mem_hubLog hrow
          rw [← hseq]
          refine head_lt (hsound.positive r hr) fun x hx => ?_
          rw [hhub] at hx
          obtain ⟨r', hr', hcompany', hseq'⟩ := mem_hubLog hx
          rw [← hseq']
          exact hsound.later r hr r' hr' (hcompany'.trans hcompany.symm)
      refine ⟨hubLog company w.written, ?_⟩
      simp only [EventHub.step, if_pos hlater, hhub, hubLog_append]
    · cases hstep
  | rollback i =>
    obtain ⟨w, -, rfl⟩ := Option.map_eq_some_iff.mp hstep
    exact hub_same cfg hhub
  | follow k query after =>
    cases hstep
    exact hub_same cfg hhub
  | page k =>
    obtain ⟨r, -, rfl⟩ := Option.map_eq_some_iff.mp hstep
    exact hub_same cfg hhub

def IsCommit (_ : EventHub) (a : Realtime.Act) : Prop := ∃ rows, a = .commit rows

/-- Every run of the writers and readers, seen from one company's event hub, is a run of commits
the hub takes: what the log gets for the company is always after what the hub has seen of it. -/
theorem outbox_feeds_hub (cfg : EventHub.Config) (hs : (outbox key).Reach anyStep s)
    (hrun : (outbox key).Path anyStep s t) {company : Id} {hub : EventHub}
    (hhub : hub.log = hubLog company s.log) :
    (Realtime.gateway cfg).Path IsCommit hub { hub with log := hubLog company t.log } := by
  induction hrun with
  | refl => exact hhub ▸ .refl
  | tail hpath hnext ih =>
    obtain ⟨a, -, hstep⟩ := hnext
    have hsound := sound (hs.path hpath)
    obtain ⟨rows, hrows⟩ := @Sound.feeds _ _ _ cfg hsound a hstep company
      { hub with log := _ } rfl
    exact ih.tail ⟨.commit rows, ⟨rows, rfl⟩, hrows⟩

-- the two transactions' commits, from a hub that has just started
theorem outbox_feeds_hub_two : ∃ s : State, hubLog 0 s.log = [⟨1, true⟩, ⟨2, true⟩] ∧
    (Realtime.gateway EventHub.default).Path IsCommit ⟨[], fun _ => none, [], none, .free, 0⟩
      ⟨hubLog 0 s.log, fun _ => none, [], none, .free, 0⟩ := by
  have hrun : afterTwo.map (fun s => hubLog 0 s.log) = some [⟨1, true⟩, ⟨2, true⟩] := by
    decide +kernel
  obtain ⟨s, hs, hlog⟩ := Option.map_eq_some_iff.mp hrun
  have hempty : (outbox id).Reach anyStep started := .init ⟨rfl, rfl, rfl, rfl, rfl⟩
  have hpath : (outbox id).Path anyStep started s :=
    System.follow_path (fun _ _ _ hstep => hstep) hs
  exact ⟨s, hlog, @outbox_feeds_hub id started s EventHub.default hempty hpath 0
    ⟨[], fun _ => none, [], none, .free, 0⟩ rfl⟩

end Autora.Outbox
