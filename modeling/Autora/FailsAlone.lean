import Autora.HoldingRuns
import Autora.Lib.Systems
import Autora.StoredReports

/-! Whether a malformed document fails alone, after any sequence of runs of the two
refreshes. -/

namespace Autora.Disclosures

open Untyped Loops Systems

structure Desk where
  reports : Reports
  investors : Investors

/-- A run of one of the two refreshes, with what the outside serves it. -/
inductive Firing where
  | officialTrades (c : Setting) (pagesPerRun : Nat) (docs : List Doc)
  | holdings (companyId : Id) (served : Id → Fetch)

/-- A run is one transaction: what it raises undoes it. -/
def Desk.fire (lib : FilingLibrary) (s : Desk) : Firing → Desk
  | .officialTrades c pagesPerRun docs =>
    match refreshOfficialTrades lib.toLibrary c pagesPerRun docs s.reports with
    | .ok q => { s with reports := q.reports }
    | .error _ => s
  | .holdings companyId served =>
    match refreshHoldings lib companyId served s.investors with
    | .ok (_, u) => { s with investors := u }
    | .error _ => s

/-- Nothing read yet; the sources have ids of their own. -/
structure Desk.Fresh (s : Desk) : Prop where
  reports : s.reports = Reports.empty
  positions : s.investors.positions = []
  sources : (s.investors.sources.map Source.id).Nodup

def refreshing (lib : FilingLibrary) : System Desk Firing where
  init := Desk.Fresh
  step s f t := t = s.fire lib f

structure Desk.Sound (lib : FilingLibrary) (s : Desk) : Prop where
  reports : Kept lib.toLibrary s.reports
  sources : (s.investors.sources.map Source.id).Nodup

variable {lib : FilingLibrary} {s : Desk} {c : Setting} {docs : List Doc} {companyId : Id}
  {served : Id → Fetch} {pagesPerRun : Nat} {q : Progress}

theorem start_tracks (t : Reports) : (Progress.start c pagesPerRun t).Tracks c := fun _ => .rfl

theorem refresh_kept (h : Kept lib.toLibrary s.reports)
    (hrun : refreshOfficialTrades lib.toLibrary c pagesPerRun docs s.reports = .ok q) :
    q.Tracks c ∧ Kept lib.toLibrary q.reports :=
  run_kept (p := Progress.start c pagesPerRun s.reports) ⟨start_tracks s.reports, h⟩ hrun

theorem takeSource_sources {x : Source × Str} {r : Nat × Investors}
    {step : ForInStep (Nat × Investors)} (h : takeSource lib served x r = .ok step) :
    ∃ m u, step = .yield (m, u) ∧ u.sources = r.2.sources := by
  unfold takeSource at h
  cases hrefresh : refreshSource lib (served x.1.id) x.1 x.2 r.2 with
  | error e =>
    rw [hrefresh] at h
    cases e with
    | filingError =>
      cases h
      exact ⟨r.1, r.2, rfl, rfl⟩
    | fetchError =>
      cases h
      exact ⟨r.1, r.2, rfl, rfl⟩
    | _ => cases h
  | ok written =>
    rw [hrefresh] at h
    cases h
    refine ⟨_, written.2, rfl, ?_⟩
    unfold refreshSource at hrefresh
    obtain ⟨read, -, hwrite⟩ := bind_ok_iff.mp hrefresh
    cases read with
    | none =>
      cases hwrite
      rfl
    | some rows =>
      by_cases hfits : rows.all InvestorPosition.storable = true
      · simp only [hfits, if_true] at hwrite
        cases hwrite
        rfl
      · simp only [hfits] at hwrite
        cases hwrite

theorem refresh_sources {t u : Investors} {n : Nat}
    (hrun : refreshHoldings lib companyId served t = .ok (n, u)) : u.sources = t.sources := by
  refine loop_invariant (I := fun r : Nat × Investors => r.2.sources = t.sources) ?_ ?_ rfl hrun
  · intro x _ r v hr hstep
    obtain ⟨m, w, hw, hsame⟩ := takeSource_sources hstep
    cases hw
    exact hsame.trans hr
  · intro x _ r v hr hstep
    obtain ⟨m, w, hw, -⟩ := takeSource_sources hstep
    cases hw

theorem fire_sound {f : Firing} (h : s.Sound lib) : (s.fire lib f).Sound lib := by
  cases f with
  | officialTrades c pagesPerRun docs =>
    unfold Desk.fire
    dsimp only
    cases hrun : refreshOfficialTrades lib.toLibrary c pagesPerRun docs s.reports with
    | error e => exact h
    | ok q => exact ⟨(refresh_kept h.reports hrun).2, h.sources⟩
  | holdings companyId served =>
    unfold Desk.fire
    dsimp only
    cases hrun : refreshHoldings lib companyId served s.investors with
    | error e => exact h
    | ok r => exact ⟨h.reports, refresh_sources hrun ▸ h.sources⟩

theorem Desk.Fresh.sound (h : s.Fresh) : s.Sound lib := by
  refine ⟨?_, h.sources⟩
  rw [h.reports]
  exact Kept.empty

theorem reach_sound (h : (refreshing lib).Reach anyStep s) : s.Sound lib := by
  refine h.invariant (I := fun r => r.Sound lib) (fun r hr => Desk.Fresh.sound hr) fun r f t hr _ hstep => ?_
  rw [show t = r.fire lib f from hstep]
  exact fire_sound hr

/-- What becomes of one run over the officials' reports. -/
structure ReportsStored (lib : Library) (c : Setting) (docs : List Doc) (pagesPerRun : Nat)
    (t : Reports) (q : Progress) : Prop where
  budget : WithinBudget pagesPerRun q.sent
  kept : Kept lib q.reports
  adds : Adds lib docs t q.reports
  reaches : ∀ pre d post pages rows, docs = pre ++ d :: post →
    readOf lib d = .ok (pages, rows) → d.1.url ∈ q.reports.known c.companyId ∨
      Halted lib (pre ++ [d]) (q.reports.known c.companyId) q.budget

/-- Both refreshes end, whatever the page budget; a document that cannot be read leaves nothing
stored, and neither stops nor undoes the others. -/
structure FailsAlone (lib : FilingLibrary) (s : Desk) (c : Setting) (docs : List Doc)
    (companyId : Id) (served : Id → Fetch) : Prop where
  officialTrades : ∀ pagesPerRun, ∃ q,
    refreshOfficialTrades lib.toLibrary c pagesPerRun docs s.reports = .ok q ∧
      ReportsStored lib.toLibrary c docs pagesPerRun s.reports q
  holdings : ∃ n u, refreshHoldings lib companyId served s.investors = .ok (n, u) ∧
    EachReplaced lib served (s.investors.tracked lib companyId) s.investors u

theorem Halted.tracked {known known' : List Str} {budget : Int}
    (h : Halted lib.toLibrary docs known budget) (hsame : ∀ url, url ∈ known ↔ url ∈ known') :
    Halted lib.toLibrary docs known' budget := by
  rcases h with h | ⟨d, hd, hnew, h⟩
  · exact .inl h
  · exact .inr ⟨d, hd, mt (hsame _).mpr hnew, h⟩

theorem run_stored (h : Kept lib.toLibrary s.reports)
    (hrun : refreshOfficialTrades lib.toLibrary c pagesPerRun docs s.reports = .ok q)
    (hbudget : WithinBudget pagesPerRun q.sent) :
    ReportsStored lib.toLibrary c docs pagesPerRun s.reports q := by
  obtain ⟨htracks, hkept⟩ := refresh_kept h hrun
  have hadds := run_adds (p := Progress.start c pagesPerRun s.reports) Adds.refl hrun
  refine ⟨hbudget, hkept, hadds, fun pre d post pages rows hdocs hread => ?_⟩
  rcases run_reaches hrun pre post hdocs hread with hknown | hhalted
  · exact .inl ((htracks _).mp hknown)
  · exact .inr (hhalted.tracked htracks)

/-- After any sequence of runs, malformed documents fail alone if and only if the reports' are
clean and no 13F source's ends the run. -/
theorem documents_fail_alone (hs : (refreshing lib).Reach anyStep s) :
    FailsAlone lib s c docs companyId served ↔
      Clean lib.toLibrary c (s.reports.known c.companyId) docs ∧
        ∀ x ∈ s.investors.tracked lib companyId, s.investors.Readable lib served x := by
  have hsound := reach_sound hs
  constructor
  · intro h
    refine ⟨(budgets_kept_iff s.reports).mp fun pagesPerRun => ?_,
      (holdings_complete_iff hsound.sources).mp h.holdings⟩
    obtain ⟨q, hrun, hstored⟩ := h.officialTrades pagesPerRun
    exact ⟨q, hrun, hstored.budget⟩
  · rintro ⟨hclean, hreadable⟩
    refine ⟨fun pagesPerRun => ?_, (holdings_complete_iff hsound.sources).mpr hreadable⟩
    obtain ⟨q, hrun, hbudget⟩ := (budgets_kept_iff s.reports).mpr hclean pagesPerRun
    exact ⟨q, hrun, run_stored hsound.reports hrun hbudget⟩

/-! ## A row that is no object -/

/-- A library that knows what the texts below need, and PDFs of one page. -/
def plainLibrary : FilingLibrary where
  isDigit c := 48 ≤ c && c ≤ 57
  isWord c := 48 ≤ c && c ≤ 57 || 65 ≤ c && c ≤ 90 || 97 ≤ c && c ≤ 122 || c = 95
  isSpace c := c = 32
  lower text := text
  upper text := text
  toStr _ := []
  intOf _ := none
  truncated _ := .error .valueError
  mdy _ := none
  isoformat _ := []
  pagesOf pdf := .ok [pdf]
  loads _ := .error .valueError
  fromstring _ := .error (.parse "")
  fromIso _ := none
  decimal _ := .invalid
  quotient _ _ := none
  stripText text := text
  upperText text := text

def listedAt (url : String) : Listed where
  filer := lit "Trump, Donald J"
  person := lit "川普"
  form := lit "278 Transaction"
  url := lit url
  receivedOn := 0

/-- A PDF of one blank page. -/
def onePage : Bytes :=
  String.toUTF8 ("%PDF-1.4\n" ++
    "1 0 obj\n<</Type/Catalog/Pages 2 0 R>>\nendobj\n" ++
    "2 0 obj\n<</Type/Pages/Kids[3 0 R]/Count 1>>\nendobj\n" ++
    "3 0 obj\n<</Type/Page/Parent 2 0 R/MediaBox[0 0 612 792]>>\nendobj\n" ++
    "xref\n0 4\n0000000000 65535 f \n0000000009 00000 n \n0000000054 00000 n \n0000000105 00000 n \n" ++
    "trailer\n<</Size 4/Root 1 0 R>>\nstartxref\n170\n%%EOF\n") |>.toList

/-- A report of one page, and the rows the model gives for it. -/
def reportOf (url : String) (rows : List Value) : Doc :=
  (listedAt url, ⟨.ok onePage, fun _ => some rows⟩)

def freshDesk : Desk := ⟨Reports.empty, ⟨[], []⟩⟩

def newsroomSetting : Setting := ⟨1, lit "gemini"⟩

theorem freshDesk_reached : (refreshing plainLibrary).Reach anyStep freshDesk :=
  .init ⟨rfl, rfl, .nil⟩

theorem documents_fail_alone_cover :
    FailsAlone plainLibrary freshDesk newsroomSetting [reportOf "a.pdf" []] 1
      (fun _ _ => .error .fetchError) ↔
    Clean plainLibrary.toLibrary newsroomSetting [] [reportOf "a.pdf" []] ∧
      ∀ x ∈ freshDesk.investors.tracked plainLibrary 1,
        freshDesk.investors.Readable plainLibrary (fun _ _ => .error .fetchError) x :=
  documents_fail_alone freshDesk_reached

/-- A report with a transcribed row that is a text, and not an object, undoes the one before. -/
theorem row_not_object :
    ¬ FailsAlone plainLibrary freshDesk newsroomSetting
      [reportOf "a.pdf" [], reportOf "b.pdf" [.str (lit "no table")]] 1
      (fun _ _ => .error .fetchError) := by
  intro h
  obtain ⟨q, hrun, -⟩ := h.officialTrades 60
  have hraised : refreshOfficialTrades plainLibrary.toLibrary newsroomSetting 60
      [reportOf "a.pdf" [], reportOf "b.pdf" [.str (lit "no table")]] freshDesk.reports =
      .error (.other "AttributeError") := rfl
  cases hraised.symm.trans hrun

end Autora.Disclosures
