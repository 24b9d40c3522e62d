import Autora.ReportRuns

/-! What the runs over the officials' reports store: each report once, whole and with its
approval, and nothing of a report that could not be read. -/

namespace Autora.Disclosures

open Untyped Loops

variable {lib : Library} {c : Setting} {d : Doc} {docs : List Doc} {p q : Progress} {t u : Reports}
  {pages : Nat} {rows : List (Nat × Row)}

/-- A report's rows, with the page each is on. -/
def Reports.rowsOf (t : Reports) (id : Id) : List (Nat × Row) :=
  (t.trades.filter fun x => x.reportId = id).map fun x => (x.page, x.row)

/-- The report has all rows that were read of it, and an approval that shows them. -/
def Whole (lib : Library) (t : Reports) (r : OfficialReport) : Prop :=
  ∃ d rows, readOf lib d = .ok (r.pages, rows) ∧ d.1.url = r.url ∧ t.rowsOf r.id = rows ∧
    ∃ a ∈ t.approvals, r.approvalId = some a.id ∧ a.refId = r.id ∧
      a.payload = approvalPayload lib r rows

structure Kept (lib : Library) (t : Reports) : Prop where
  ids : ∀ r ∈ t.reports, r.id < t.nextId
  once : (t.reports.map fun r => (r.companyId, r.url)).Nodup
  whole : ∀ r ∈ t.reports, Whole lib t r
  owned : ∀ x ∈ t.trades, ∃ r ∈ t.reports, x.reportId = r.id

def Reports.empty : Reports := ⟨0, [], [], []⟩

theorem Kept.empty : Kept lib Reports.empty := ⟨by nofun, .nil, by nofun, by nofun⟩

/-- What storing a report adds. -/
structure Stores (lib : Library) (c : Setting) (d : Doc) (pages : Nat) (rows : List (Nat × Row))
    (t u : Reports) : Prop where
  report : ∃ r : OfficialReport, u.reports = t.reports ++ [r] ∧ r.id = t.nextId ∧
    r.companyId = c.companyId ∧ r.url = d.1.url ∧ r.pages = pages ∧
    ∃ a : Approval, u.approvals = t.approvals ++ [a] ∧ r.approvalId = some a.id ∧
      a.refId = r.id ∧ a.payload = approvalPayload lib r rows
  trades : ∃ new : List OfficialTrade, u.trades = t.trades ++ new ∧
    (∀ x ∈ new, x.reportId = t.nextId) ∧ new.map (fun x => (x.page, x.row)) = rows
  nextId : t.nextId < u.nextId

theorem stores (h : t.store lib c d.1 pages rows = .ok u) : Stores lib c d pages rows t u := by
  unfold Reports.store at h
  split at h
  case isFalse => cases h
  cases h
  refine ⟨⟨_, rfl, rfl, rfl, rfl, rfl, _, rfl, rfl, rfl, rfl⟩, ⟨_, rfl, fun x hx => ?_, ?_⟩, ?_⟩
  · obtain ⟨row, -, rfl⟩ := List.mem_map.mp hx
    rfl
  · rw [List.map_map]
    exact List.zipIdx_map_fst 0 rows
  · have hnext : t.nextId < t.nextId + 1 + rows.length :=
      Nat.lt_of_lt_of_le (Nat.lt_succ_self _) (Nat.le_add_right _ _)
    exact Nat.lt_succ_of_lt hnext

theorem Stores.known (h : Stores lib c d pages rows t u) :
    u.known c.companyId = t.known c.companyId ++ [d.1.url] := by
  obtain ⟨⟨r, hr, -, hcompany, hurl, -⟩, -, -⟩ := h
  unfold Reports.known
  rw [hr, List.filter_append, List.map_append, List.filter_cons_of_pos (by simp [hcompany])]
  simp [hurl]

theorem Stores.kept (h : Stores lib c d pages rows t u) (ht : Kept lib t)
    (hread : readOf lib d = .ok (pages, rows)) (hnew : d.1.url ∉ t.known c.companyId) :
    Kept lib u := by
  obtain ⟨⟨r, hr, hid, hcompany, hurl, hpages, a, ha, hasked, href, hpayload⟩,
    ⟨new, htrades, hof, hrows⟩, hnext⟩ := h
  have hold : ∀ x ∈ t.trades, x.reportId ≠ r.id := by
    intro x hx hsame
    obtain ⟨r', hr', hx'⟩ := ht.owned x hx
    have hlt := ht.ids r' hr'
    rw [← hx', hsame, hid] at hlt
    exact Nat.lt_irrefl _ hlt
  refine ⟨fun r' hr' => ?_, ?_, fun r' hr' => ?_, fun x hx => ?_⟩
  · rw [hr] at hr'
    rcases List.mem_append.mp hr' with hmem | hlast
    · exact lt_trans (ht.ids r' hmem) hnext
    · rw [List.mem_singleton.mp hlast, hid]
      exact hnext
  · rw [hr, List.map_append, List.nodup_append]
    refine ⟨ht.once, List.nodup_singleton _, fun x hx y hy hsame => ?_⟩
    obtain ⟨r', hr', rfl⟩ := List.mem_map.mp hx
    have hlast := List.mem_singleton.mp hy
    rw [hlast] at hsame
    simp only [Prod.mk.injEq] at hsame
    refine hnew (List.mem_map.mpr ⟨r', List.mem_filter.mpr ⟨hr', ?_⟩, ?_⟩)
    · simp [hsame.1, hcompany]
    · exact hsame.2.trans hurl
  · rw [hr] at hr'
    rcases List.mem_append.mp hr' with hmem | hlast
    · obtain ⟨d', rows', hread', hurl', hrows', a', ha', hrest⟩ := ht.whole r' hmem
      refine ⟨d', rows', hread', hurl', ?_, a', ha ▸ List.mem_append_left _ ha', hrest⟩
      -- the new rows are another report's
      have hnone : new.filter (fun x => x.reportId = r'.id) = [] := by
        refine List.filter_eq_nil_iff.mpr fun x hx => ?_
        have hne : t.nextId ≠ r'.id := (Nat.ne_of_lt (ht.ids r' hmem)).symm
        simpa [hof x hx] using hne
      unfold Reports.rowsOf
      rw [htrades, List.filter_append, hnone, List.append_nil]
      exact hrows'
    · rw [List.mem_singleton.mp hlast]
      refine ⟨d, rows, hpages ▸ hread, hurl.symm, ?_, a, ha ▸ List.mem_append_right _ (by simp),
        hasked, href, hpayload⟩
      have hnone : t.trades.filter (fun x => x.reportId = r.id) = [] :=
        List.filter_eq_nil_iff.mpr fun x hx => by simp [hold x hx]
      have hall : new.filter (fun x => x.reportId = r.id) = new :=
        List.filter_eq_self.mpr fun x hx => by simp [hof x hx, hid]
      unfold Reports.rowsOf
      rw [htrades, List.filter_append, hnone, hall, List.nil_append]
      exact hrows
  · rw [htrades] at hx
    rcases List.mem_append.mp hx with hmem | hmem
    · obtain ⟨r', hr', hx'⟩ := ht.owned x hmem
      exact ⟨r', hr ▸ List.mem_append_left _ hr', hx'⟩
    · exact ⟨r, hr ▸ List.mem_append_right _ (by simp), (hof x hmem).trans hid.symm⟩

/-! ## Runs -/

/-- The run's list of known addresses is the one of the reports stored. -/
def Progress.Tracks (p : Progress) (c : Setting) : Prop :=
  ∀ url, url ∈ p.known ↔ url ∈ p.reports.known c.companyId

theorem Progress.Tracks.storing (h : p.Tracks c) (hs : Stores lib c d pages rows p.reports u) :
    ((p.reading lib d).storing d pages u).Tracks c := by
  intro url
  show url ∈ d.1.url :: p.known ↔ url ∈ u.known c.companyId
  rw [hs.known, List.mem_append, List.mem_cons, List.mem_singleton, h url]
  exact or_comm

theorem run_invariant {I : Progress → Prop} (hreading : ∀ d p, I p → I (p.reading lib d))
    (hstoring : ∀ d ∈ docs, ∀ p pages rows u, I p → d.1.url ∉ p.known →
      readOf lib d = .ok (pages, rows) → Stores lib c d pages rows p.reports u →
      I ((p.reading lib d).storing d pages u))
    (hp : I p) (hrun : forIn docs p (takeReport lib c) = .ok q) : I q := by
  refine loop_invariant (I := I) (fun d hd r s hr hstep => ?_) (fun d hd r s hr hstep => ?_) hp hrun
  · cases continues hstep with
    | known => exact hr
    | passed => exact hreading d r hr
    | stored pages rows u hnew hshort hread hstore =>
      exact hstoring d hd r pages rows u hr hnew hread (stores hstore)
  · cases ends hstep with
    | tooLong => exact hr
    | failed => exact hreading d r hr
    | stored pages rows u hnew hshort hread hstore =>
      exact hstoring d hd r pages rows u hr hnew hread (stores hstore)

theorem run_kept (hp : p.Tracks c ∧ Kept lib p.reports)
    (hrun : forIn docs p (takeReport lib c) = .ok q) : q.Tracks c ∧ Kept lib q.reports := by
  refine run_invariant (I := fun r => r.Tracks c ∧ Kept lib r.reports) (fun d r hr => hr) ?_ hp hrun
  intro d _ r pages rows u ⟨htracks, hkept⟩ hnew hread hs
  refine ⟨htracks.storing hs, hs.kept hkept hread fun hmem => hnew ((htracks _).mpr hmem)⟩

/-- Nothing stored before is undone, and what is new was read. -/
structure Adds (lib : Library) (docs : List Doc) (t u : Reports) : Prop where
  reports : t.reports <+: u.reports
  trades : t.trades <+: u.trades
  approvals : t.approvals <+: u.approvals
  read : ∀ r ∈ u.reports, r ∈ t.reports ∨
    ∃ d ∈ docs, ∃ rows, readOf lib d = .ok (r.pages, rows) ∧ r.url = d.1.url

theorem Adds.refl : Adds lib docs t t :=
  ⟨List.prefix_refl _, List.prefix_refl _, List.prefix_refl _, fun _ hr => .inl hr⟩

theorem run_adds (hp : Adds lib docs t p.reports)
    (hrun : forIn docs p (takeReport lib c) = .ok q) : Adds lib docs t q.reports := by
  refine run_invariant (I := fun r => Adds lib docs t r.reports) (fun d r hr => hr) ?_ hp hrun
  intro d hd r pages rows u hr _ hread hs
  obtain ⟨⟨new, hnew, -, -, hurl, hpages, a, ha, -⟩, ⟨more, hmore, -⟩, -⟩ := hs
  refine ⟨hr.reports.trans ⟨[new], hnew.symm⟩, hr.trades.trans ⟨more, hmore.symm⟩,
    hr.approvals.trans ⟨[a], ha.symm⟩, fun x hx => ?_⟩
  have hx' : x ∈ r.reports.reports ++ [new] := hnew ▸ hx
  rcases List.mem_append.mp hx' with hmem | hlast
  · exact hr.read x hmem
  · have hlast := List.mem_singleton.mp hlast
    rw [hlast]
    exact .inr ⟨d, hd, rows, hpages ▸ hread, hurl⟩

/-- What may keep a run from a report: the budget is spent, or an earlier report, or this one,
is too long for what is left of it or is one the model fails on. -/
def Halted (lib : Library) (docs : List Doc) (known : List Str) (budget : Int) : Prop :=
  budget ≤ 0 ∨ ∃ d ∈ docs, d.1.url ∉ known ∧
    (readOf lib d = .error .transcribeError ∨ ∃ n, pageCount lib d = some n ∧ budget < n)

theorem Halted.cons {known : List Str} {budget : Int} (h : Halted lib docs known budget) :
    Halted lib (d :: docs) known budget := by
  rcases h with h | ⟨e, he, h⟩
  · exact .inl h
  · exact .inr ⟨e, List.mem_cons_of_mem d he, h⟩

theorem known_grows {url : Str} (hurl : url ∈ p.known)
    (hrun : forIn docs p (takeReport lib c) = .ok q) : url ∈ q.known :=
  run_invariant (I := fun r => url ∈ r.known) (fun _ _ hr => hr)
    (fun _ _ _ _ _ _ hr _ _ _ => List.mem_cons_of_mem _ hr) hurl hrun

/-- Every report that can be read is stored in the end, unless the run was halted. -/
theorem run_reaches (hrun : forIn docs p (takeReport lib c) = .ok q) (pre post : List Doc)
    (hdocs : docs = pre ++ d :: post) (hread : readOf lib d = .ok (pages, rows)) :
    d.1.url ∈ q.known ∨ Halted lib (pre ++ [d]) q.known q.budget := by
  induction docs generalizing p pre with
  | nil => simp at hdocs
  | cons x docs ih =>
    -- where the run breaks off at `x`, it is `d` or before it
    have hat : x ∈ pre ++ [d] := by
      cases pre with
      | nil =>
        cases hdocs
        simp
      | cons y pre =>
        cases hdocs
        simp
    rcases loop_cons_ok hrun with hend | ⟨r, hnext, hrest⟩
    · cases ends hend with
      | tooLong hnew hlong =>
        obtain ⟨-, n, hn, hover⟩ := hlong
        exact .inr (.inr ⟨x, hat, hnew, .inr ⟨n, hn, hover⟩⟩)
      | failed hnew hshort hfail => exact .inr (.inr ⟨x, hat, hnew, .inl hfail⟩)
      | stored pages rows u hnew hshort hx hstore hspent => exact .inr (.inl hspent)
    · cases pre with
      | cons y pre =>
        cases hdocs
        rcases ih hrest pre rfl with hknown | hhalted
        · exact .inl hknown
        · exact .inr hhalted.cons
      | nil =>
        cases hdocs
        refine .inl ?_
        cases continues hnext with
        | known hknown => exact known_grows hknown hrest
        | passed e hnew hshort hfail => cases hread.symm.trans hfail
        | stored pages rows u hnew hshort hx hstore =>
          exact known_grows (List.mem_cons_self) hrest

end Autora.Disclosures
