import Autora.OfficialTrades

/-! What a run over the officials' reports comes to: which documents end it, which are passed
over, and how many pages the model is sent. -/

namespace Autora.Disclosures

open Untyped Loops
open Models (storable)

variable (lib : Library) (c : Setting)

/-- How many pages go to the model, once there are any to send. -/
def pageCount (d : Doc) : Option Nat :=
  match d.2.file with
  | .ok pdf => match splitPages lib pdf with
    | .ok files => some files.length
    | .error _ => none
  | .error _ => none

def readOf (d : Doc) : Except Raised (Nat × List (Nat × Row)) :=
  match d.2.file with
  | .ok pdf => readReport lib d.2 pdf
  | .error e => .error e

def Progress.reading (p : Progress) (d : Doc) : Progress :=
  { p with sent := p.sent ++ (pageCount lib d).toList }

def Progress.tooLong (p : Progress) (d : Doc) : Prop :=
  p.stored ≠ 0 ∧ ∃ n, pageCount lib d = some n ∧ p.budget < n

def Progress.storing (p : Progress) (d : Doc) (pages : Nat) (reports : Reports) : Progress where
  reports := reports
  known := d.1.url :: p.known
  stored := p.stored + 1
  budget := p.budget - pages
  sent := p.sent

/-- The run goes on while there is budget. -/
def Progress.goesOn (p : Progress) : ForInStep Progress :=
  if p.budget ≤ 0 then .done p else .yield p

/-- What the columns take. -/
structure Fits (listed : Listed) (pages : Nat) (rows : List (Nat × Row)) : Prop where
  listed : listed.storable = true
  model : storable c.model = true
  pages : pages ≤ 2147483647
  rows : rows.all (fun row => row.2.storable) = true

variable {lib c} {d : Doc} {p q : Progress} {t u : Reports} {pages : Nat}
  {rows : List (Nat × Row)} {e : Raised}

theorem store_iff : (∃ u, t.store lib c d.1 pages rows = .ok u) ↔ Fits c d.1 pages rows := by
  unfold Reports.store
  constructor
  · rintro ⟨u, h⟩
    split at h
    · next hfits => exact ⟨hfits.1, hfits.2.1, hfits.2.2.1, hfits.2.2.2⟩
    · cases h
  · intro h
    rw [if_pos ⟨h.listed, h.model, h.pages, h.rows⟩]
    exact ⟨_, rfl⟩

theorem store_error (h : ¬ Fits c d.1 pages rows) :
    t.store lib c d.1 pages rows = .error (.other "DBAPIError") := by
  unfold Reports.store
  refine if_neg fun hfits => h ?_
  exact ⟨hfits.1, hfits.2.1, hfits.2.2.1, hfits.2.2.2⟩

theorem takeReport_known (h : d.1.url ∈ p.known) : takeReport lib c d p = .ok (.yield p) := by
  unfold takeReport
  rw [if_pos h]

theorem takeReport_tooLong (h : d.1.url ∉ p.known) (hlong : p.tooLong lib d) :
    takeReport lib c d p = .ok (.done p) := by
  obtain ⟨hstored, n, hn, hover⟩ := hlong
  unfold takeReport
  rw [if_neg h]
  unfold pageCount at hn
  cases hfile : d.2.file with
  | error e =>
    rw [hfile] at hn
    cases hn
  | ok pdf =>
    rw [hfile] at hn
    cases hsplit : splitPages lib pdf with
    | error e =>
      simp only [hsplit] at hn
      cases hn
    | ok files =>
      simp only [hsplit, Option.some.injEq] at hn
      have hyes : overBudget lib p pdf = .ok true := by
        simp only [overBudget, if_neg hstored, hsplit, bind, Except.bind, pure, Except.pure, hn,
          hover, decide_true]
      simp only [hyes]

theorem takeReport_reads (h : d.1.url ∉ p.known) (hshort : ¬ p.tooLong lib d) :
    takeReport lib c d p = match readOf lib d with
      | .error e => passOver (p.reading lib d) e
      | .ok (pages, rows) => (p.reports.store lib c d.1 pages rows).map fun reports =>
        ((p.reading lib d).storing d pages reports).goesOn := by
  unfold takeReport
  rw [if_neg h]
  cases hfile : d.2.file with
  | error e =>
    have hread : readOf lib d = .error e := by simp only [readOf, hfile]
    have hnone : p.reading lib d = p := by simp [Progress.reading, pageCount, hfile]
    simp only [hread, hnone]
  | ok pdf =>
    have hread : readOf lib d = readReport lib d.2 pdf := by simp only [readOf, hfile]
    have hsend : p.sending lib pdf = p.reading lib d := by
      cases hsplit : splitPages lib pdf <;>
        simp [Progress.sending, Progress.reading, pageCount, hfile, hsplit]
    cases hsplit : splitPages lib pdf with
    | error e =>
      have hfail : readReport lib d.2 pdf = .error e := by simp only [readReport, hsplit]
      have hnone : p.reading lib d = p := by
        simp [Progress.reading, pageCount, hfile, hsplit]
      by_cases hstored : p.stored = 0
      · have hfree : overBudget lib p pdf = .ok false := if_pos hstored
        simp only [hfree, hread, hfail, hsend]
      · have hfree : overBudget lib p pdf = .error e := by
          simp only [overBudget, if_neg hstored, hsplit, bind, Except.bind]
        simp only [hfree, hread, hfail, hnone]
    | ok files =>
      have hcount : pageCount lib d = some files.length := by
        simp [pageCount, hfile, hsplit]
      have hfree : overBudget lib p pdf = .ok false := by
        by_cases hstored : p.stored = 0
        · exact if_pos hstored
        · have hroom : ¬ p.budget < files.length :=
            fun hover => hshort ⟨hstored, files.length, hcount, hover⟩
          simp only [overBudget, if_neg hstored, hsplit, bind, Except.bind, pure, Except.pure,
            hroom, decide_false]
      simp only [hfree, hread, hsend]
      cases readReport lib d.2 pdf with
      | error e => rfl
      | ok read =>
        have hsame : (p.reading lib d).reports = p.reports := rfl
        simp only [hsame]
        cases p.reports.store lib c d.1 read.1 read.2 <;> rfl

theorem pageCount_of_read (h : readOf lib d = .ok (pages, rows)) : pageCount lib d = some pages := by
  unfold readOf at h
  unfold pageCount
  cases hfile : d.2.file with
  | error e =>
    rw [hfile] at h
    cases h
  | ok pdf =>
    simp only [hfile, readReport] at h
    cases hsplit : splitPages lib pdf with
    | error e =>
      simp only [hsplit] at h
      cases h
    | ok files =>
      simp only [hsplit] at h
      cases htrans : (List.range files.length).mapM d.2.transcribe with
      | none =>
        simp only [htrans] at h
        cases h
      | some transcribed =>
        simp only [htrans] at h
        cases hrows : rowsOf lib transcribed with
        | error e =>
          simp only [hrows] at h
          cases h
        | ok read =>
          simp only [hrows, Except.ok.injEq, Prod.mk.injEq] at h
          simp only [hsplit, h.1]

/-- An error of the file or of its rows: the run passes over the report. -/
def Raised.passed (e : Raised) : Prop := e = .httpError ∨ e = .valueError

def Raised.caught (e : Raised) : Prop := e = .transcribeError ∨ e.passed

/-- What one report leaves of a run that goes on. -/
inductive Continues (lib : Library) (c : Setting) (d : Doc) (p : Progress) : Progress → Prop
  | known (h : d.1.url ∈ p.known) : Continues lib c d p p
  | passed (e : Raised) (h : d.1.url ∉ p.known) (hshort : ¬ p.tooLong lib d)
      (hread : readOf lib d = .error e) (he : e.passed) : Continues lib c d p (p.reading lib d)
  | stored (pages : Nat) (rows : List (Nat × Row)) (u : Reports) (h : d.1.url ∉ p.known)
      (hshort : ¬ p.tooLong lib d) (hread : readOf lib d = .ok (pages, rows))
      (hstore : p.reports.store lib c d.1 pages rows = .ok u) (hleft : 0 < p.budget - pages) :
      Continues lib c d p ((p.reading lib d).storing d pages u)

/-- What one report leaves of a run that it breaks off. -/
inductive Ends (lib : Library) (c : Setting) (d : Doc) (p : Progress) : Progress → Prop
  | tooLong (h : d.1.url ∉ p.known) (hlong : p.tooLong lib d) : Ends lib c d p p
  | failed (h : d.1.url ∉ p.known) (hshort : ¬ p.tooLong lib d)
      (hread : readOf lib d = .error .transcribeError) : Ends lib c d p (p.reading lib d)
  | stored (pages : Nat) (rows : List (Nat × Row)) (u : Reports) (h : d.1.url ∉ p.known)
      (hshort : ¬ p.tooLong lib d) (hread : readOf lib d = .ok (pages, rows))
      (hstore : p.reports.store lib c d.1 pages rows = .ok u) (hspent : p.budget - pages ≤ 0) :
      Ends lib c d p ((p.reading lib d).storing d pages u)

theorem goesOn_cases (q : Progress) :
    q.budget ≤ 0 ∧ q.goesOn = .done q ∨ 0 < q.budget ∧ q.goesOn = .yield q := by
  by_cases h : q.budget ≤ 0
  · exact .inl ⟨h, if_pos h⟩
  · exact .inr ⟨not_le.mp h, if_neg h⟩

theorem takeReport_cases {step : ForInStep Progress} (h : takeReport lib c d p = .ok step) :
    (∃ r, step = .yield r ∧ Continues lib c d p r) ∨ ∃ r, step = .done r ∧ Ends lib c d p r := by
  by_cases hknown : d.1.url ∈ p.known
  · rw [takeReport_known hknown] at h
    cases h
    exact .inl ⟨p, rfl, .known hknown⟩
  by_cases hlong : p.tooLong lib d
  · rw [takeReport_tooLong hknown hlong] at h
    cases h
    exact .inr ⟨p, rfl, .tooLong hknown hlong⟩
  rw [takeReport_reads hknown hlong] at h
  cases hread : readOf lib d with
  | error e =>
    rw [hread] at h
    cases e with
    | transcribeError =>
      cases h
      exact .inr ⟨_, rfl, .failed hknown hlong hread⟩
    | httpError =>
      cases h
      exact .inl ⟨_, rfl, .passed _ hknown hlong hread (.inl rfl)⟩
    | valueError =>
      cases h
      exact .inl ⟨_, rfl, .passed _ hknown hlong hread (.inr rfl)⟩
    | _ => cases h
  | ok read =>
    obtain ⟨pages, rows⟩ := read
    rw [hread] at h
    cases hstore : p.reports.store lib c d.1 pages rows with
    | error e =>
      simp only [hstore] at h
      cases h
    | ok u =>
      simp only [hstore] at h
      cases h
      rcases goesOn_cases ((p.reading lib d).storing d pages u) with ⟨hspent, hdone⟩ | ⟨hleft, hyield⟩
      · exact .inr ⟨_, hdone, .stored pages rows u hknown hlong hread hstore hspent⟩
      · exact .inl ⟨_, hyield, .stored pages rows u hknown hlong hread hstore hleft⟩

theorem continues (h : takeReport lib c d p = .ok (.yield q)) : Continues lib c d p q := by
  rcases takeReport_cases h with ⟨r, hr, hcont⟩ | ⟨r, hr, -⟩
  · cases hr
    exact hcont
  · cases hr

theorem ends (h : takeReport lib c d p = .ok (.done q)) : Ends lib c d p q := by
  rcases takeReport_cases h with ⟨r, hr, -⟩ | ⟨r, hr, hend⟩
  · cases hr
  · cases hr
    exact hend

theorem takeReport_failed (h : d.1.url ∉ p.known) (hshort : ¬ p.tooLong lib d)
    (hread : readOf lib d = .error .transcribeError) :
    takeReport lib c d p = .ok (.done (p.reading lib d)) := by
  rw [takeReport_reads h hshort, hread]
  rfl

theorem takeReport_passed (h : d.1.url ∉ p.known) (hshort : ¬ p.tooLong lib d)
    (hread : readOf lib d = .error e) (he : e.passed) :
    takeReport lib c d p = .ok (.yield (p.reading lib d)) := by
  rw [takeReport_reads h hshort, hread]
  rcases he with rfl | rfl <;> rfl

theorem takeReport_stored (h : d.1.url ∉ p.known) (hshort : ¬ p.tooLong lib d)
    (hread : readOf lib d = .ok (pages, rows)) (hstore : p.reports.store lib c d.1 pages rows = .ok u) :
    takeReport lib c d p = .ok ((p.reading lib d).storing d pages u).goesOn := by
  rw [takeReport_reads h hshort, hread]
  simp only [hstore]
  rfl

theorem takeReport_raises (h : d.1.url ∉ p.known) (hshort : ¬ p.tooLong lib d)
    (hread : readOf lib d = .error e) (he : ¬ e.caught) : takeReport lib c d p = .error e := by
  rw [takeReport_reads h hshort, hread]
  cases e with
  | transcribeError => exact absurd (.inl rfl) he
  | httpError => exact absurd (.inr (.inl rfl)) he
  | valueError => exact absurd (.inr (.inr rfl)) he
  | _ => rfl

theorem takeReport_unfit (h : d.1.url ∉ p.known) (hshort : ¬ p.tooLong lib d)
    (hread : readOf lib d = .ok (pages, rows)) (hfits : ¬ Fits c d.1 pages rows) :
    takeReport lib c d p = .error (.other "DBAPIError") := by
  rw [takeReport_reads h hshort, hread]
  simp only [store_error hfits]
  rfl

/-! ## Pages -/

/-- The run kept to its budget, or the model was sent the pages of one report alone. -/
def WithinBudget (pagesPerRun : Nat) (sent : List Nat) : Prop :=
  sent.sum ≤ pagesPerRun ∨ (sent.filter (0 < ·)).length = 1

theorem sum_eq_zero_iff_filter {sent : List Nat} :
    sent.sum = 0 ↔ sent.filter (0 < ·) = [] := by
  rw [List.sum_eq_zero_iff_forall_eq_nat, List.filter_eq_nil_iff]
  refine forall₂_congr fun n _ => ?_
  simp only [decide_eq_true_eq]
  omega

-- pages sent in vain, and pages of another report
theorem not_withinBudget {sent more : List Nat} {n pagesPerRun : Nat} (hsum : 0 < sent.sum)
    (hn : 0 < n) (hover : pagesPerRun < sent.sum + n) :
    ¬ WithinBudget pagesPerRun (sent ++ [n] ++ more) := by
  have hsome : sent.filter (0 < ·) ≠ [] := by
    intro hnil
    have hzero := sum_eq_zero_iff_filter.mpr hnil
    omega
  have hlen := List.length_pos_iff.mpr hsome
  rintro (h | h)
  · simp only [List.sum_append, List.sum_cons, List.sum_nil] at h
    omega
  · simp only [List.filter_append, List.length_append, List.filter_cons, hn, decide_true, if_true,
      List.filter_nil, List.length_cons, List.length_nil] at h
    omega

/-- How the pages sent so far stand to the budget `pagesPerRun` while the run goes on. -/
structure Progress.Counted (p : Progress) (pagesPerRun : Nat) : Prop where
  spent : p.sent.sum + p.budget = pagesPerRun
  left : p.stored = 0 ∨ 0 < p.budget
  first : p.stored = 0 → p.sent.sum = 0

theorem Progress.Counted.within {pagesPerRun : Nat} (h : p.Counted pagesPerRun) :
    WithinBudget pagesPerRun p.sent := by
  have hspent := h.spent
  rcases h.left with hstored | hleft
  · have hzero := h.first hstored
    exact .inl (by omega)
  · exact .inl (by omega)

theorem pageCount_le (hshort : ¬ p.tooLong lib d) (hstored : p.stored ≠ 0) {n : Nat}
    (hn : pageCount lib d = some n) : (n : Int) ≤ p.budget :=
  not_lt.mp fun hover => hshort ⟨hstored, n, hn, hover⟩

theorem Progress.Counted.reading_within {pagesPerRun : Nat} (h : p.Counted pagesPerRun)
    (hshort : ¬ p.tooLong lib d) : WithinBudget pagesPerRun (p.reading lib d).sent := by
  have hspent := h.spent
  unfold Progress.reading
  cases hn : pageCount lib d with
  | none =>
    rw [Option.toList_none, List.append_nil]
    exact h.within
  | some n =>
    simp only [Option.toList_some]
    by_cases hstored : p.stored = 0
    · have hzero := h.first hstored
      by_cases hpos : 0 < n
      · refine .inr ?_
        rw [List.filter_append, sum_eq_zero_iff_filter.mp hzero]
        simp [hpos]
      · refine .inl ?_
        rw [List.sum_append, List.sum_singleton]
        omega
    · have hle := pageCount_le hshort hstored hn
      refine .inl ?_
      rw [List.sum_append, List.sum_singleton]
      omega

theorem reading_sum : (p.reading lib d).sent.sum = p.sent.sum + (pageCount lib d).getD 0 := by
  unfold Progress.reading
  cases pageCount lib d <;> simp

theorem Progress.Counted.reading {pagesPerRun : Nat} (h : p.Counted pagesPerRun)
    (hnone : (pageCount lib d).getD 0 = 0) : (p.reading lib d).Counted pagesPerRun := by
  have hsum : (p.reading lib d).sent.sum = p.sent.sum := by rw [reading_sum, hnone, Nat.add_zero]
  refine ⟨?_, h.left, fun hstored => hsum.trans (h.first hstored)⟩
  rw [hsum]
  exact h.spent

theorem Progress.Counted.storing {pagesPerRun : Nat} (h : p.Counted pagesPerRun)
    (hn : pageCount lib d = some pages) (hleft : 0 < p.budget - pages) :
    ((p.reading lib d).storing d pages u).Counted pagesPerRun := by
  have hspent := h.spent
  have hsum : (p.reading lib d).sent.sum = p.sent.sum + pages := by rw [reading_sum, hn]; rfl
  refine ⟨?_, .inr hleft, nofun⟩
  show (((p.reading lib d).sent.sum : Nat) : Int) + (p.budget - pages) = pagesPerRun
  rw [hsum]
  omega

/-! ## The documents of a run -/

variable (lib c)

/-- The row is an object, and its number is no infinity. -/
def RowReadable (raw : Value) : Prop :=
  raw.isDict = true ∧ ∀ x e, raw.field (lit "number") = .float x → lib.truncated x = .error e →
    e = .typeError ∨ e = .valueError

def RowTaken (raw : Value) : Prop := Succeeds (parseRow lib raw)

def PageReadable (raws : List Value) : Prop := UpToFailure (RowReadable lib) (RowTaken lib) raws

def PageTaken (raws : List Value) : Prop := ∀ raw ∈ raws, RowTaken lib raw

/-- The file is there, or is refused as files are; pypdf splits it, or finds a bad value in it;
and the rows are objects, up to the first whose amount is no number. -/
structure ReportReadable (d : Doc) : Prop where
  file : ∀ e, d.2.file = .error e → e.caught
  split : ∀ pdf e, d.2.file = .ok pdf → splitPages lib pdf = .error e → e.caught
  rows : ∀ pdf files transcribed, d.2.file = .ok pdf → splitPages lib pdf = .ok files →
    (List.range files.length).mapM d.2.transcribe = some transcribed →
    UpToFailure (PageReadable lib) (PageTaken lib) transcribed

/-- No later report that is taken sends the model a page. -/
def Blank : List Str → List Doc → Prop
  | _, [] => True
  | known, d :: docs =>
    if d.1.url ∈ known then Blank known docs
    else (pageCount lib d).getD 0 = 0 ∧
      (∀ read, readOf lib d = .ok read → Blank (d.1.url :: known) docs) ∧
      ∀ e, readOf lib d = .error e → e.passed → Blank known docs

/-- Up to the first report the model fails on, each new one can be read and kept, or is passed
over; and one that the model was sent pages of in vain is the last it is sent. -/
def Clean : List Str → List Doc → Prop
  | _, [] => True
  | known, d :: docs =>
    if d.1.url ∈ known then Clean known docs
    else ReportReadable lib d ∧
      (∀ pages rows, readOf lib d = .ok (pages, rows) →
        Fits c d.1 pages rows ∧ Clean (d.1.url :: known) docs) ∧
      ∀ e, readOf lib d = .error e → e.passed →
        Clean known docs ∧ ((pageCount lib d).getD 0 ≠ 0 → Blank lib known docs)

variable {lib c}

theorem text_raises {text : Str} : RaisesOnly (· = .valueError) (intOfValue lib (.str text)) := by
  simp only [intOfValue]
  cases lib.intOf text with
  | none => simp
  | some n => exact raisesOnly_ok

theorem parseAmount_raises {text : Str} : RaisesOnly (· = .valueError) (parseAmount lib text) := by
  unfold parseAmount
  rw [raisesOnly_bind]
  constructor
  · rw [raisesOnly_mapM]
    induction numerals lib text with
    | nil => trivial
    | cons n ns ih => exact ⟨text_raises, fun _ => ih⟩
  · intro numbers _
    by_cases htop : (lit "over").isPrefixOf (lib.lower (strip lib text)) ∧ numbers = [top]
    · rw [if_pos htop]
      exact raisesOnly_pure
    · rw [if_neg htop]
      match numbers with
      | [low, high] =>
        by_cases hrange : amountRanges.lookup low = some high
        · simp only [hrange, if_true]
          exact raisesOnly_pure
        · simp only [hrange, if_false]
          exact raisesOnly_pure
      | [] | [_] | _ :: _ :: _ :: _ => exact raisesOnly_pure

theorem numberedRow_raises {raw : Value} {number : Int} :
    RaisesOnly (· = .valueError) (numberedRow lib raw number) := by
  unfold numberedRow
  by_cases hempty : (squeezed lib (cell lib raw "description")).isEmpty = true
  · simp only [hempty, if_true]
    exact raisesOnly_pure
  · simp only [hempty]
    rw [if_neg Bool.false_ne_true, raisesOnly_bind_of fun _ => raisesOnly_pure]
    exact parseAmount_raises

theorem parseRow_raises {raw : Value} :
    RaisesOnly (· = .valueError) (parseRow lib raw) ↔ RowReadable lib raw := by
  unfold parseRow RowReadable
  by_cases hdict : raw.isDict = true
  case neg =>
    have hfalse : raw.isDict = false := by simpa using hdict
    have hget : raw.get (lit "number") = .error .attributeError := get_error hfalse
    simp [hget, hfalse, bind, Except.bind]
  have hget : raw.get (lit "number") = .ok (raw.field (lit "number")) :=
    get_ok_iff.mpr ⟨hdict, rfl⟩
  simp only [hget, bind, Except.bind, hdict, true_and]
  cases hnumber : raw.field (lit "number") with
  | float x =>
    simp only [intOfValue, Value.float.injEq]
    constructor
    · rintro h y e rfl he
      rw [he] at h
      cases e <;> simp_all
    · intro h
      cases htrunc : lib.truncated x with
      | ok n => exact numberedRow_raises
      | error e => rcases h x e rfl htrunc with rfl | rfl <;> simp
  | str s =>
    simp only [intOfValue]
    cases lib.intOf s with
    | some n => simpa using numberedRow_raises
    | none => simp
  | bool b => simpa [intOfValue] using numberedRow_raises
  | int n => simpa [intOfValue] using numberedRow_raises
  | none => simp [intOfValue]
  | list items => simp [intOfValue]
  | dict entries => simp [intOfValue]

/-- One page's rows, each with the page. -/
def pageRows (lib : Library) (page : List Value × Nat) : Except Error (List (Option (Nat × Row))) :=
  page.1.mapM fun raw => do
    let row ← parseRow lib raw
    pure (row.map (page.2, ·))

theorem pageRows_raises {page : List Value × Nat} :
    RaisesOnly (· = .valueError) (pageRows lib page) ↔ PageReadable lib page.1 := by
  unfold pageRows PageReadable
  rw [raisesOnly_mapM]
  refine upToFailure_congr (fun raw => ?_) fun raw => ?_
  · rw [raisesOnly_bind_of fun _ => raisesOnly_pure]
    exact parseRow_raises
  · exact succeeds_bind_pure

theorem pageRows_succeeds {page : List Value × Nat} :
    Succeeds (pageRows lib page) ↔ PageTaken lib page.1 := by
  unfold pageRows PageTaken
  rw [succeeds_mapM]
  exact forall₂_congr fun raw _ => succeeds_bind_pure

theorem rowsOf_raises {transcribed : List (List Value)} :
    RaisesOnly (· = .valueError) (rowsOf lib transcribed) ↔
      UpToFailure (PageReadable lib) (PageTaken lib) transcribed := by
  have hpages : rowsOf lib transcribed = (do
      let pages ← (transcribed.zipIdx 1).mapM (pageRows lib)
      pure (pages.flatten.filterMap id)) := rfl
  have hfst : (transcribed.zipIdx 1).map Prod.fst = transcribed := List.zipIdx_map_fst 1 transcribed
  rw [hpages, raisesOnly_bind_of fun _ => raisesOnly_pure, raisesOnly_mapM]
  conv_rhs => rw [← hfst]
  rw [upToFailure_map]
  exact upToFailure_congr (fun _ => pageRows_raises) fun _ => pageRows_succeeds

theorem Raised.of_caught {x : Error} : (Raised.of x).caught ↔ x = .valueError := by
  cases x <;> simp [Raised.of, Raised.caught, Raised.passed]

theorem reportReadable_iff : RaisesOnly Raised.caught (readOf lib d) ↔ ReportReadable lib d := by
  unfold readOf
  cases hfile : d.2.file with
  | error e =>
    rw [raisesOnly_error]
    constructor
    · intro h
      refine ⟨fun e' he => ?_, fun pdf e' hpdf => ?_, fun pdf files transcribed hpdf => ?_⟩
      · cases hfile.symm.trans he
        exact h
      · cases hfile.symm.trans hpdf
      · cases hfile.symm.trans hpdf
    · exact fun h => h.file e hfile
  | ok pdf =>
    have hnofile : ∀ e, d.2.file = .error e → e.caught := by
      intro e he
      cases hfile.symm.trans he
    simp only [readReport]
    cases hsplit : splitPages lib pdf with
    | error e =>
      simp only [raisesOnly_error]
      constructor
      · intro h
        refine ⟨hnofile, fun pdf' e' hpdf he => ?_, fun pdf' files transcribed hpdf hfiles => ?_⟩
        · cases hfile.symm.trans hpdf
          cases hsplit.symm.trans he
          exact h
        · cases hfile.symm.trans hpdf
          cases hsplit.symm.trans hfiles
      · exact fun h => h.split pdf e hfile hsplit
    | ok files =>
      have hnosplit : ∀ pdf e, d.2.file = .ok pdf → splitPages lib pdf = .error e → e.caught := by
        intro pdf' e hpdf he
        cases hfile.symm.trans hpdf
        cases hsplit.symm.trans he
      dsimp only
      cases htrans : (List.range files.length).mapM d.2.transcribe with
      | none =>
        simp only [raisesOnly_error]
        refine iff_of_true (.inl rfl) ⟨hnofile, hnosplit, fun pdf' files' rows hpdf hfiles hrows => ?_⟩
        cases hfile.symm.trans hpdf
        cases hsplit.symm.trans hfiles
        cases htrans.symm.trans hrows
      | some transcribed =>
        refine Iff.trans (b := UpToFailure (PageReadable lib) (PageTaken lib) transcribed) ?_ ?_
        · rw [← rowsOf_raises]
          cases hrows : rowsOf lib transcribed with
          | error x => simp only [hrows, raisesOnly_error, Raised.of_caught]
          | ok rows => simp only [hrows, raisesOnly_ok]
        constructor
        · intro h
          refine ⟨hnofile, hnosplit, fun pdf' files' rows hpdf hfiles hread => ?_⟩
          cases hfile.symm.trans hpdf
          cases hsplit.symm.trans hfiles
          cases htrans.symm.trans hread
          exact h
        · exact fun h => h.rows pdf files transcribed hfile hsplit htrans

/-! ## Runs -/

variable {docs : List Doc} {pagesPerRun : Nat}

theorem blank_known (hknown : d.1.url ∈ p.known) :
    Blank lib p.known (d :: docs) ↔ Blank lib p.known docs := by
  conv_lhs => unfold Blank
  rw [if_pos hknown]

theorem blank_new (hnew : d.1.url ∉ p.known) :
    Blank lib p.known (d :: docs) ↔ (pageCount lib d).getD 0 = 0 ∧
      (∀ read, readOf lib d = .ok read → Blank lib (d.1.url :: p.known) docs) ∧
      ∀ e, readOf lib d = .error e → e.passed → Blank lib p.known docs := by
  conv_lhs => unfold Blank
  rw [if_neg hnew]

theorem clean_known (hknown : d.1.url ∈ p.known) :
    Clean lib c p.known (d :: docs) ↔ Clean lib c p.known docs := by
  conv_lhs => unfold Clean
  rw [if_pos hknown]

theorem clean_new (hnew : d.1.url ∉ p.known) :
    Clean lib c p.known (d :: docs) ↔ ReportReadable lib d ∧
      (∀ pages rows, readOf lib d = .ok (pages, rows) →
        Fits c d.1 pages rows ∧ Clean lib c (d.1.url :: p.known) docs) ∧
      ∀ e, readOf lib d = .error e → e.passed →
        Clean lib c p.known docs ∧ ((pageCount lib d).getD 0 ≠ 0 → Blank lib p.known docs) := by
  conv_lhs => unfold Clean
  rw [if_neg hnew]

theorem clean_completes (h : Clean lib c p.known docs) :
    ∃ q, forIn docs p (takeReport lib c) = .ok q := by
  induction docs generalizing p with
  | nil => exact ⟨p, rfl⟩
  | cons d docs ih =>
    by_cases hknown : d.1.url ∈ p.known
    · rw [loop_yield (takeReport_known hknown)]
      exact ih ((clean_known hknown).mp h)
    by_cases hlong : p.tooLong lib d
    · rw [loop_done (takeReport_tooLong hknown hlong)]
      exact ⟨p, rfl⟩
    obtain ⟨hreadable, hstores, hpasses⟩ := (clean_new hknown).mp h
    cases hread : readOf lib d with
    | error e =>
      rcases reportReadable_iff.mpr hreadable e hread with rfl | he
      · rw [loop_done (takeReport_failed hknown hlong hread)]
        exact ⟨_, rfl⟩
      · rw [loop_yield (takeReport_passed hknown hlong hread he)]
        exact ih (hpasses e hread he).1
    | ok read =>
      obtain ⟨pages, rows⟩ := read
      obtain ⟨hfits, hrest⟩ := hstores pages rows hread
      obtain ⟨u, hu⟩ := (store_iff (t := p.reports)).mpr hfits
      have hstep := takeReport_stored hknown hlong hread hu
      rcases goesOn_cases ((p.reading lib d).storing d pages u) with ⟨-, hdone⟩ | ⟨-, hyield⟩
      · rw [hdone] at hstep
        rw [loop_done hstep]
        exact ⟨_, rfl⟩
      · rw [hyield] at hstep
        rw [loop_yield hstep]
        exact ih hrest

theorem reading_filter (h : (pageCount lib d).getD 0 = 0) :
    (p.reading lib d).sent.filter (0 < ·) = p.sent.filter (0 < ·) := by
  unfold Progress.reading
  cases hn : pageCount lib d with
  | none => simp
  | some n =>
    rw [hn] at h
    have hzero : n = 0 := h
    simp [hzero]

/-- From blank documents on, the model is sent nothing more. -/
theorem blank_sent (h : Blank lib p.known docs)
    (hrun : forIn docs p (takeReport lib c) = .ok q) :
    q.sent.filter (0 < ·) = p.sent.filter (0 < ·) ∧ q.sent.sum = p.sent.sum := by
  induction docs generalizing p with
  | nil =>
    cases hrun
    exact ⟨rfl, rfl⟩
  | cons d docs ih =>
    -- what one blank report leaves of the pages sent
    have hsame : (pageCount lib d).getD 0 = 0 →
        (p.reading lib d).sent.filter (0 < ·) = p.sent.filter (0 < ·) ∧
          (p.reading lib d).sent.sum = p.sent.sum := by
      intro hnone
      refine ⟨reading_filter hnone, ?_⟩
      rw [reading_sum, hnone, Nat.add_zero]
    rcases loop_cons_ok hrun with hend | ⟨r, hnext, hrest⟩
    · cases ends hend with
      | tooLong => exact ⟨rfl, rfl⟩
      | failed hnew => exact hsame ((blank_new hnew).mp h).1
      | stored pages rows u hnew => exact hsame ((blank_new hnew).mp h).1
    · cases continues hnext with
      | known hknown => exact ih ((blank_known hknown).mp h) hrest
      | passed e hnew hshort hread he =>
        obtain ⟨hnone, -, hpasses⟩ := (blank_new hnew).mp h
        have hlater := ih (p := p.reading lib d) (hpasses e hread he) hrest
        exact ⟨hlater.1.trans (hsame hnone).1, hlater.2.trans (hsame hnone).2⟩
      | stored pages rows u hnew hshort hread hstore =>
        obtain ⟨hnone, hstores, -⟩ := (blank_new hnew).mp h
        have hlater := ih (p := (p.reading lib d).storing d pages u) (hstores _ hread) hrest
        exact ⟨hlater.1.trans (hsame hnone).1, hlater.2.trans (hsame hnone).2⟩

theorem WithinBudget.of_same {sent sent' : List Nat} (h : WithinBudget pagesPerRun sent)
    (hfilter : sent'.filter (0 < ·) = sent.filter (0 < ·)) (hsum : sent'.sum = sent.sum) :
    WithinBudget pagesPerRun sent' := by
  unfold WithinBudget
  rw [hfilter, hsum]
  exact h

theorem clean_within (h : Clean lib c p.known docs) (hp : p.Counted pagesPerRun)
    (hrun : forIn docs p (takeReport lib c) = .ok q) : WithinBudget pagesPerRun q.sent := by
  induction docs generalizing p with
  | nil =>
    cases hrun
    exact hp.within
  | cons d docs ih =>
    rcases loop_cons_ok hrun with hend | ⟨r, hnext, hrest⟩
    · cases ends hend with
      | tooLong => exact hp.within
      | failed hnew hshort => exact hp.reading_within hshort
      | stored pages rows u hnew hshort => exact hp.reading_within hshort
    · cases continues hnext with
      | known hknown => exact ih ((clean_known hknown).mp h) hp hrest
      | passed e hnew hshort hread he =>
        obtain ⟨hclean, hblank⟩ := ((clean_new hnew).mp h).2.2 e hread he
        by_cases hnone : (pageCount lib d).getD 0 = 0
        · exact ih (p := p.reading lib d) hclean (hp.reading hnone) hrest
        · have hlater := blank_sent (p := p.reading lib d) (hblank hnone) hrest
          exact (hp.reading_within hshort).of_same hlater.1 hlater.2
      | stored pages rows u hnew hshort hread hstore hleft =>
        obtain ⟨-, hclean⟩ := ((clean_new hnew).mp h).2.1 pages rows hread
        have hcounted := hp.storing (u := u) (pageCount_of_read hread) hleft
        exact ih (p := (p.reading lib d).storing d pages u) hclean hcounted hrest

/-- Pages once sent stay counted. -/
theorem sent_grows (hrun : forIn docs p (takeReport lib c) = .ok q) : p.sent <+: q.sent := by
  refine loop_invariant (I := fun r : Progress => p.sent <+: r.sent) ?_ ?_ (List.prefix_refl _) hrun
  · intro d _ r s hr hstep
    cases continues hstep with
    | known => exact hr
    | passed => exact hr.trans (List.prefix_append _ _)
    | stored => exact hr.trans (List.prefix_append _ _)
  · intro d _ r s hr hstep
    cases ends hstep with
    | tooLong => exact hr
    | failed => exact hr.trans (List.prefix_append _ _)
    | stored => exact hr.trans (List.prefix_append _ _)

/-- The run with a budget, of a run that has stored `spent` pages. -/
def Progress.within (p : Progress) (pagesPerRun spent : Nat) : Progress :=
  { p with budget := (pagesPerRun : Int) - spent }

/-- The rest of the run ends and keeps to its budget, for every budget from `least` on that
lasted until here. -/
def GoodFrom (lib : Library) (c : Setting) (docs : List Doc) (p : Progress) (least spent : Nat) :
    Prop :=
  ∀ pagesPerRun : Nat, least ≤ pagesPerRun → (p.stored ≠ 0 → spent < pagesPerRun) →
    ∃ q, forIn docs (p.within pagesPerRun spent) (takeReport lib c) = .ok q ∧
      WithinBudget pagesPerRun q.sent

theorem not_tooLong {spent n : Nat} (h : spent + n ≤ pagesPerRun)
    (hn : (pageCount lib d).getD 0 = n) : ¬ (p.within pagesPerRun spent).tooLong lib d := by
  rintro ⟨-, m, hm, hover⟩
  rw [hm, Option.getD_some] at hn
  simp only [Progress.within] at hover
  omega

theorem new_sent (hnew : d.1.url ∉ p.known) (hshort : ¬ p.tooLong lib d)
    (hrun : forIn (d :: docs) p (takeReport lib c) = .ok q) : (p.reading lib d).sent <+: q.sent := by
  rcases loop_cons_ok hrun with hend | ⟨r, hnext, hrest⟩
  · cases ends hend with
    | tooLong _ hlong => exact absurd hlong hshort
    | failed => exact List.prefix_refl _
    | stored => exact List.prefix_refl _
  · have hgrows := sent_grows hrest
    cases continues hnext with
    | known hknown => exact absurd hknown hnew
    | passed => exact hgrows
    | stored => exact hgrows

theorem GoodFrom.known {least spent : Nat} (h : GoodFrom lib c (d :: docs) p least spent)
    (hknown : d.1.url ∈ p.known) : GoodFrom lib c docs p least spent := by
  intro pagesPerRun hleast hspent
  have hgood := h pagesPerRun hleast hspent
  have hstep : takeReport lib c d (p.within pagesPerRun spent) = .ok (.yield _) :=
    takeReport_known hknown
  rwa [loop_yield hstep] at hgood

theorem GoodFrom.passed {least spent : Nat} (h : GoodFrom lib c (d :: docs) p least spent)
    (hnew : d.1.url ∉ p.known) (hread : readOf lib d = .error e) (he : e.passed) :
    GoodFrom lib c docs (p.reading lib d) (max least (spent + (pageCount lib d).getD 0)) spent := by
  intro pagesPerRun hleast hspent
  have hgood := h pagesPerRun (le_trans (le_max_left _ _) hleast) hspent
  have hshort : ¬ (p.within pagesPerRun spent).tooLong lib d :=
    not_tooLong (le_trans (le_max_right _ _) hleast) rfl
  have hstep := takeReport_passed (c := c) (p := p.within pagesPerRun spent) hnew hshort hread he
  rwa [loop_yield hstep] at hgood

theorem GoodFrom.stored {least spent : Nat} (h : GoodFrom lib c (d :: docs) p least spent)
    (hnew : d.1.url ∉ p.known) (hread : readOf lib d = .ok (pages, rows))
    (hstore : p.reports.store lib c d.1 pages rows = .ok u) :
    GoodFrom lib c docs ((p.reading lib d).storing d pages u) (max least (spent + pages))
      (spent + pages) := by
  intro pagesPerRun hleast hspent
  have hlasts : spent + pages < pagesPerRun := hspent (Nat.succ_ne_zero p.stored)
  have hgood := h pagesPerRun (le_trans (le_max_left _ _) hleast) fun _ => by omega
  have hcount : (pageCount lib d).getD 0 = pages := by rw [pageCount_of_read hread]; rfl
  have hshort : ¬ (p.within pagesPerRun spent).tooLong lib d := not_tooLong (le_of_lt hlasts) hcount
  have hstep := takeReport_stored (p := p.within pagesPerRun spent) hnew hshort hread hstore
  have hnext : (((p.within pagesPerRun spent).reading lib d).storing d pages u).goesOn =
      .yield (((p.reading lib d).storing d pages u).within pagesPerRun (spent + pages)) := by
    have hbudget : (pagesPerRun : Int) - spent - pages = pagesPerRun - (spent + pages : Nat) := by
      omega
    have hleft : ¬ ((pagesPerRun : Int) - (spent + pages : Nat) ≤ 0) := by omega
    simp only [Progress.goesOn, Progress.storing, Progress.reading, Progress.within, hbudget,
      if_neg hleft]
  rw [hnext] at hstep
  rwa [loop_yield hstep] at hgood

/-- Where every budget is kept to, the documents are clean; and after pages sent in vain they
are blank, as the budget that lasts just until the next report's would be passed. -/
theorem clean_of_good {least spent : Nat} (hspent : spent ≤ p.sent.sum)
    (hleast : least ≤ p.sent.sum) (h : GoodFrom lib c docs p least spent) :
    Clean lib c p.known docs ∧ (spent < p.sent.sum → Blank lib p.known docs) := by
  induction docs generalizing p least spent with
  | nil => exact ⟨trivial, fun _ => trivial⟩
  | cons d docs ih =>
    by_cases hknown : d.1.url ∈ p.known
    · rw [clean_known hknown, blank_known hknown]
      exact ih hspent hleast (h.known hknown)
    rw [clean_new hknown, blank_new hknown]
    have hsum : (p.reading lib d).sent.sum = p.sent.sum + (pageCount lib d).getD 0 := reading_sum
    have hpassed : ∀ e, readOf lib d = .error e → e.passed → Clean lib c p.known docs ∧
        (spent < p.sent.sum + (pageCount lib d).getD 0 → Blank lib p.known docs) := by
      intro e hread he
      have hrest := ih (p := p.reading lib d) (by omega) (by omega) (h.passed hknown hread he)
      rwa [hsum] at hrest
    have hfits : ∀ pages rows, readOf lib d = .ok (pages, rows) → Fits c d.1 pages rows := by
      intro pages rows hread
      by_contra hnot
      obtain ⟨r, hr, -⟩ := h (max least (spent + pages + 1)) (le_max_left _ _) fun _ => by omega
      have hcount : (pageCount lib d).getD 0 = pages := by rw [pageCount_of_read hread]; rfl
      let q := p.within (max least (spent + pages + 1)) spent
      have hshort : ¬ q.tooLong lib d := not_tooLong (by omega) hcount
      have hstep := takeReport_unfit (c := c) (p := q) hknown hshort hread hnot
      rw [loop_raise hstep] at hr
      cases hr
    have hstored : ∀ pages rows, readOf lib d = .ok (pages, rows) →
        Clean lib c (d.1.url :: p.known) docs ∧
          (spent < p.sent.sum → Blank lib (d.1.url :: p.known) docs) := by
      intro pages rows hread
      obtain ⟨u, hu⟩ := (store_iff (t := p.reports)).mpr (hfits pages rows hread)
      have hcount : (pageCount lib d).getD 0 = pages := by rw [pageCount_of_read hread]; rfl
      have hsent : ((p.reading lib d).storing d pages u).sent.sum = p.sent.sum + pages := by
        rw [← hcount]
        exact hsum
      have hrest := ih (p := (p.reading lib d).storing d pages u) (by omega) (by omega)
        (h.stored hknown hread hu)
      rw [hsent] at hrest
      exact ⟨hrest.1, fun hvain => hrest.2 (by omega)⟩
    have hreadable : ReportReadable lib d := by
      refine reportReadable_iff.mp fun e hread => ?_
      by_contra hnot
      let least' := max least (spent + (pageCount lib d).getD 0 + 1)
      obtain ⟨q, hq, -⟩ := h least' (le_max_left _ _) fun _ => by omega
      have hshort : ¬ (p.within least' spent).tooLong lib d := not_tooLong (by omega) rfl
      have hstep := takeReport_raises (c := c) (p := p.within least' spent) hknown hshort hread hnot
      rw [loop_raise hstep] at hq
      cases hq
    have hnone : spent < p.sent.sum → (pageCount lib d).getD 0 = 0 := by
      intro hvain
      by_contra hsome
      cases hcount : pageCount lib d with
      | none =>
        rw [hcount] at hsome
        exact hsome rfl
      | some n =>
        have hn : (pageCount lib d).getD 0 = n := by rw [hcount]; rfl
        rw [hn] at hsome
        obtain ⟨q, hq, hwithin⟩ := h (max least (spent + n)) (le_max_left _ _) fun _ => by omega
        have hshort : ¬ (p.within (max least (spent + n)) spent).tooLong lib d :=
          not_tooLong (by omega) hn
        obtain ⟨more, hmore⟩ := new_sent (p := p.within (max least (spent + n)) spent) hknown hshort hq
        have hsent : ((p.within (max least (spent + n)) spent).reading lib d).sent = p.sent ++ [n] := by
          simp only [Progress.reading, Progress.within, hcount, Option.toList_some]
        rw [hsent] at hmore
        rw [← hmore] at hwithin
        exact not_withinBudget (by omega) (by omega) (by omega) hwithin
    refine ⟨⟨hreadable, fun pages rows hread => ⟨hfits pages rows hread, (hstored pages rows hread).1⟩,
      fun e hread he => ⟨(hpassed e hread he).1, fun hsome => (hpassed e hread he).2 (by omega)⟩⟩,
      fun hvain => ⟨hnone hvain, fun read hread => (hstored read.1 read.2 hread).2 hvain,
        fun e hread he => (hpassed e hread he).2 (by omega)⟩⟩

theorem Progress.start_within (t : Reports) :
    Progress.start c pagesPerRun t = (Progress.start c pagesPerRun t).within pagesPerRun 0 := by
  simp [Progress.start, Progress.within]

/-- Whatever the budget, a run over the documents ends and keeps to it, if and only if the
documents are clean. -/
theorem budgets_kept_iff (t : Reports) :
    (∀ pagesPerRun : Nat, ∃ q, refreshOfficialTrades lib c pagesPerRun docs t = .ok q ∧
      WithinBudget pagesPerRun q.sent) ↔ Clean lib c (t.known c.companyId) docs := by
  constructor
  · intro h
    have hgood : GoodFrom lib c docs (Progress.start c 0 t) 0 0 := by
      intro pagesPerRun _ _
      have hrun := h pagesPerRun
      unfold refreshOfficialTrades at hrun
      rw [Progress.start_within] at hrun
      exact hrun
    exact (clean_of_good (Nat.zero_le _) (Nat.zero_le _) hgood).1
  · intro h pagesPerRun
    have hstart : (Progress.start c pagesPerRun t).Counted pagesPerRun :=
      ⟨by simp [Progress.start], .inl rfl, fun _ => rfl⟩
    obtain ⟨q, hq⟩ := clean_completes (p := Progress.start c pagesPerRun t) h
    exact ⟨q, hq, clean_within (p := Progress.start c pagesPerRun t) h hstart hq⟩

end Autora.Disclosures
