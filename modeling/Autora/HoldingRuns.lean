import Autora.Filings

/-! What a run over the 13F sources comes to: which documents end it, and what it leaves of
each source's positions. -/

namespace Autora.Disclosures

open Untyped Loops
open Sources (XmlError occurs doctype entity)

variable {lib : FilingLibrary}

/-- The errors that make the run skip a source. -/
def Raised.missed (e : Raised) : Prop := e = .filingError ∨ e = .fetchError

/-- The errors that `parse_submissions` makes its own. -/
def Unlisted (e : Error) : Prop := e = .keyError ∨ e = .typeError ∨ e = .valueError

/-! ## The documents -/

variable (lib)

/-- The list is JSON, or fails to be it as texts do, and the filer's number is no infinity. -/
structure SubmissionsReadable (body : Bytes) : Prop where
  json : ∀ e, lib.loads body = .error e → Unlisted e
  number : ∀ data filings recent x e, lib.loads body = .ok data →
    data.item (lit "filings") = .ok filings → filings.item (lit "recent") = .ok recent →
    data.item (lit "cik") = .ok (.float x) → lib.truncated x = .error e → Unlisted e

/-- A block that declares entities, or one the parser reads or finds ill-formed. -/
def BlockReadable (block : Bytes) : Prop :=
  (occurs doctype (block.map Sources.upper) ∨ occurs entity (block.map Sources.upper)) ∨
    ∀ kind message, lib.fromstring block ≠ .error (.other kind message)

def Numeral.Readable (n : Numeral) : Prop := n ≠ .nan ∧ n ≠ .tooLarge

/-- The amount is a number or no number at all, and so is the value beside an amount. -/
def RowNumbersReadable (row : Sources.Element) : Prop :=
  (numeralIn lib row "sshPrnamt").Readable ∧
    ∀ n, numeralIn lib row "sshPrnamt" = .whole n → (numeralIn lib row "value").Readable

structure FilingReadable (body : Bytes) : Prop where
  blocks : UpToFailure (BlockReadable lib) (fun block => Succeeds (parseXml lib block))
    (xmlBlocks body)
  numbers : ∀ roots cover table, (xmlBlocks body).mapM (parseXml lib) = .ok roots →
    named "edgarSubmission" roots = some cover → named "informationTable" roots = some table →
    UpToFailure (RowNumbersReadable lib) (fun row => Succeeds (positionOf lib row)) (infoRows table)
  prices : ∀ roots cover table rows, (xmlBlocks body).mapM (parseXml lib) = .ok roots →
    named "edgarSubmission" roots = some cover → named "informationTable" roots = some table →
    (infoRows table).mapM (positionOf lib) = .ok rows →
    ∀ p ∈ priced (rows.foldl addUp []), (lib.quotient p.value p.amount).isSome = true

/-- The document is served, or is missed as documents are, and can be read where it is. -/
structure Served13F (readable : Bytes → Prop) (fetch : Fetch) (url : Str) : Prop where
  served : ∀ e, fetch url = .error e → e.missed
  readable : ∀ body, fetch url = .ok body → readable body

variable (fetch : Fetch) (source : Source)

/-- The documents of a filing that is new, as far as they are asked for, and its rows. -/
structure NewFilingReadable (filer : Filer) (period : Date) (current : ListedFiling) : Prop where
  others : UpToFailure (fun cik => Served13F (SubmissionsReadable lib) fetch (submissionsUrl cik))
    (fun cik => Succeeds (fetchFiler lib fetch cik)) source.predecessors
  now : ∀ others, source.predecessors.mapM (fetchFiler lib fetch) = .ok others →
    Served13F (FilingReadable lib) fetch (textUrl current)
  prior : ∀ others now, source.predecessors.mapM (fetchFiler lib fetch) = .ok others →
    fetchFiling lib fetch current = .ok now → now.positions.isEmpty = false →
    UpToFailure (fun f => Served13F (FilingReadable lib) fetch (textUrl f))
      (fun f => Succeeds (fetchFiling lib fetch f))
      (previousQuarter period (others.foldl addFiler [filer]))
  fits : ∀ rows, readFiling lib fetch source filer period current = .ok (some rows) →
    rows.all InvestorPosition.storable = true

structure SourceReadable (cik : Str) (stored : Option Str) : Prop where
  list : Served13F (SubmissionsReadable lib) fetch (submissionsUrl cik)
  filing : ∀ filer period current, fetchFiler lib fetch cik = .ok filer →
    latest (filer.filings.filterMap original) = some (period, current) →
    stored ≠ some current.accession → NewFilingReadable lib fetch source filer period current

/-! ## What they raise -/

variable {lib fetch source}

theorem item_raises {v : Value} {key : Str} : RaisesOnly Unlisted (v.item key) := by
  intro e h
  rcases item_error h with rfl | rfl
  · exact .inl rfl
  · exact .inr (.inl rfl)

theorem column_raises {recent : Value} {name : String} :
    RaisesOnly Unlisted (column recent name) := by
  unfold column
  rw [raisesOnly_bind]
  refine ⟨item_raises, fun values _ => ?_⟩
  cases values <;> simp [Value.iter, Unlisted]

theorem isoDateOf_raises {v : Value} : RaisesOnly Unlisted (isoDateOf lib v) := by
  cases v with
  | str s =>
    simp only [isoDateOf]
    cases lib.fromIso s <;> simp [Unlisted]
  | _ => simp [isoDateOf, Unlisted]

theorem filingOf_raises {cik : Str} {accession form filed period : Value} :
    RaisesOnly Unlisted (filingOf lib cik accession form filed period) := by
  cases accession with
  | str a =>
    simp only [filingOf]
    by_cases haccession : isAccession lib a = true
    · simp only [haccession, if_true]
      rw [raisesOnly_bind]
      refine ⟨isoDateOf_raises, fun date _ => ?_⟩
      by_cases hperiod : period.truthy = true
      · rw [if_pos hperiod, raisesOnly_bind_of fun _ => raisesOnly_pure, map_eq_pure_bind,
          raisesOnly_bind_of fun _ => raisesOnly_pure]
        exact isoDateOf_raises
      · rw [if_neg hperiod, raisesOnly_bind_of fun _ => raisesOnly_pure]
        exact raisesOnly_pure
    · simp only [haccession]
      exact raisesOnly_pure
  | _ => simp [filingOf, Unlisted]

theorem upToFailure_of {α : Type} {P succeeds : α → Prop} {xs : List α} (h : ∀ a, P a) :
    UpToFailure P succeeds xs := by
  induction xs with
  | nil => trivial
  | cons x xs ih => exact ⟨h x, fun _ => ih⟩

theorem listedFilings_raises {cik : Str} {recent : Value} :
    RaisesOnly Unlisted (listedFilings lib cik recent) := by
  unfold listedFilings
  refine raisesOnly_bind.mpr ⟨column_raises, fun accessions _ => ?_⟩
  refine raisesOnly_bind.mpr ⟨column_raises, fun forms _ => ?_⟩
  refine raisesOnly_bind.mpr ⟨column_raises, fun filed _ => ?_⟩
  refine raisesOnly_bind.mpr ⟨column_raises, fun periods _ => ?_⟩
  by_cases hlength : accessions.length = forms.length ∧ forms.length = filed.length ∧
      filed.length = periods.length
  · rw [if_pos hlength, raisesOnly_bind_of fun _ => raisesOnly_pure, raisesOnly_mapM]
    exact upToFailure_of fun row => filingOf_raises
  · rw [if_neg hlength, raisesOnly_error]
    exact .inr (.inr rfl)

theorem intOf_raises {v : Value} : RaisesOnly Unlisted (intOfValue lib.toLibrary v) ↔
    ∀ x e, v = .float x → lib.truncated x = .error e → Unlisted e := by
  cases v with
  | float x =>
    simp only [intOfValue, Value.float.injEq]
    exact ⟨fun h y e hy he => h e (hy ▸ he), fun h e he => h x e rfl he⟩
  | str s =>
    simp only [intOfValue]
    cases lib.intOf s <;> simp [Unlisted]
  | _ => simp [intOfValue, Unlisted]

theorem filerOf_raises {body : Bytes} :
    RaisesOnly Unlisted (filerOf lib body) ↔ SubmissionsReadable lib body := by
  have hlast : ∀ (data recent : Value) (n : Int), RaisesOnly Unlisted (do
      let listed ← listedFilings lib (lit (toString n)) recent
      let name ← data.item (lit "name")
      pure (⟨lit (toString n), asText lib.toLibrary name, listed⟩ : Filer)) := by
    intro data recent n
    refine raisesOnly_bind.mpr ⟨listedFilings_raises, fun listed _ => ?_⟩
    exact raisesOnly_bind.mpr ⟨item_raises, fun name _ => raisesOnly_pure⟩
  unfold filerOf
  constructor
  · intro h
    obtain ⟨hjson, hdata⟩ := raisesOnly_bind.mp h
    refine ⟨hjson, fun data filings recent x e hd hf hr hcik he => ?_⟩
    obtain ⟨-, hfilings⟩ := raisesOnly_bind.mp (hdata data hd)
    obtain ⟨-, hrecent⟩ := raisesOnly_bind.mp (hfilings filings hf)
    obtain ⟨-, hnumber⟩ := raisesOnly_bind.mp (hrecent recent hr)
    obtain ⟨hint, -⟩ := raisesOnly_bind.mp (hnumber _ hcik)
    exact intOf_raises.mp hint x e rfl he
  · intro h
    refine raisesOnly_bind.mpr ⟨h.json, fun data hd => ?_⟩
    refine raisesOnly_bind.mpr ⟨item_raises, fun filings hf => ?_⟩
    refine raisesOnly_bind.mpr ⟨item_raises, fun recent hr => ?_⟩
    refine raisesOnly_bind.mpr ⟨item_raises, fun number hcik => ?_⟩
    refine raisesOnly_bind.mpr ⟨intOf_raises.mpr fun x e hx he => ?_, fun n _ => hlast data recent n⟩
    rw [hx] at hcik
    exact h.number data filings recent x e hd hf hr hcik he

theorem parseSubmissions_raises {body : Bytes} :
    RaisesOnly Raised.missed (parseSubmissions lib body) ↔ SubmissionsReadable lib body := by
  rw [← filerOf_raises]
  unfold parseSubmissions
  cases filerOf lib body with
  | ok filer => simp
  | error e => cases e <;> simp [Unlisted, Raised.missed, Raised.of]

theorem parseXml_raises {block : Bytes} :
    RaisesOnly Raised.missed (parseXml lib block) ↔ BlockReadable lib block := by
  unfold parseXml BlockReadable
  by_cases hloose : occurs doctype (block.map Sources.upper) ∨ occurs entity (block.map Sources.upper)
  · simp [hloose, Raised.missed]
  · rw [if_neg hloose]
    simp only [hloose, false_or]
    cases lib.fromstring block with
    | ok root => simp
    | error e => cases e <;> simp [Raised.missed]

theorem int_raises {n : Numeral} : RaisesOnly Raised.missed n.int ↔ n.Readable := by
  cases n <;> simp [Numeral.int, Numeral.Readable, Raised.missed]

theorem int_ok {n : Numeral} {x : Int} : n.int = .ok x ↔ n = .whole x := by
  cases n <;> simp [Numeral.int]

theorem positionOf_raises {row : Sources.Element} :
    RaisesOnly Raised.missed (positionOf lib row) ↔ RowNumbersReadable lib row := by
  unfold positionOf RowNumbersReadable
  rw [raisesOnly_bind, int_raises]
  refine and_congr_right fun _ => forall_congr' fun n => ?_
  rw [int_ok]
  refine forall_congr' fun _ => ?_
  rw [raisesOnly_bind_of fun _ => raisesOnly_pure, int_raises]

theorem prices_raise {positions : List Position} :
    RaisesOnly Raised.missed (looksLikeThousands lib positions) ↔
      ∀ p ∈ priced positions, (lib.quotient p.value p.amount).isSome = true := by
  unfold looksLikeThousands
  rw [raisesOnly_bind_of fun _ => raisesOnly_pure, raisesOnly_mapM]
  induction priced positions with
  | nil => simp [UpToFailure]
  | cons p ps ih =>
    rw [List.forall_mem_cons, UpToFailure, ih]
    unfold priceOf
    cases lib.quotient p.value p.amount <;> simp [Raised.missed]

theorem parseFiling_raises {body : Bytes} :
    RaisesOnly Raised.missed (parseFiling lib body) ↔ FilingReadable lib body := by
  have htable : ∀ cover table, RaisesOnly Raised.missed (tableHoldings lib cover table) ↔
      UpToFailure (RowNumbersReadable lib) (fun row => Succeeds (positionOf lib row))
        (infoRows table) ∧ ∀ rows, (infoRows table).mapM (positionOf lib) = .ok rows →
          ∀ p ∈ priced (rows.foldl addUp []), (lib.quotient p.value p.amount).isSome = true := by
    intro cover table
    unfold tableHoldings
    rw [raisesOnly_bind, raisesOnly_mapM]
    refine and_congr ?_ (forall₂_congr fun rows _ => ?_)
    · exact upToFailure_congr (fun row => positionOf_raises) fun row => .rfl
    · rw [raisesOnly_bind_of fun _ => raisesOnly_pure, prices_raise]
  have hblocks : RaisesOnly Raised.missed ((xmlBlocks body).mapM (parseXml lib)) ↔
      UpToFailure (BlockReadable lib) (fun block => Succeeds (parseXml lib block))
        (xmlBlocks body) := by
    rw [raisesOnly_mapM]
    exact upToFailure_congr (fun block => parseXml_raises) fun block => .rfl
  unfold parseFiling
  rw [raisesOnly_bind, hblocks]
  constructor
  · rintro ⟨hread, hrest⟩
    refine ⟨hread, fun roots cover table hroots hcover htab => ?_,
      fun roots cover table rows hroots hcover htab hrows => ?_⟩
    · have hfiling := hrest roots hroots
      simp only [hcover, htab] at hfiling
      exact ((htable cover table).mp hfiling).1
    · have hfiling := hrest roots hroots
      simp only [hcover, htab] at hfiling
      exact ((htable cover table).mp hfiling).2 rows hrows
  · intro h
    refine ⟨h.blocks, fun roots hroots => ?_⟩
    cases hcover : named "edgarSubmission" roots with
    | none => simp [Raised.missed]
    | some cover =>
      dsimp only
      cases htab : named "informationTable" roots with
      | none => simp
      | some table =>
        exact (htable cover table).mpr ⟨h.numbers roots cover table hroots hcover htab,
          fun rows hrows => h.prices roots cover table rows hroots hcover htab hrows⟩

theorem fetchFiler_raises {cik : Str} : RaisesOnly Raised.missed (fetchFiler lib fetch cik) ↔
    Served13F (SubmissionsReadable lib) fetch (submissionsUrl cik) := by
  unfold fetchFiler
  rw [raisesOnly_bind]
  constructor
  · exact fun h => ⟨h.1, fun body hbody => parseSubmissions_raises.mp (h.2 body hbody)⟩
  · exact fun h => ⟨h.served, fun body hbody => parseSubmissions_raises.mpr (h.readable body hbody)⟩

theorem fetchFiling_raises {f : ListedFiling} : RaisesOnly Raised.missed (fetchFiling lib fetch f) ↔
    Served13F (FilingReadable lib) fetch (textUrl f) := by
  unfold fetchFiling
  rw [raisesOnly_bind]
  constructor
  · exact fun h => ⟨h.1, fun body hbody => parseFiling_raises.mp (h.2 body hbody)⟩
  · exact fun h => ⟨h.served, fun body hbody => parseFiling_raises.mpr (h.readable body hbody)⟩

/-- What a source gives can be stored. -/
def Storable (read : Except Raised (Option (List InvestorPosition))) : Prop :=
  ∀ rows, read = .ok (some rows) → rows.all InvestorPosition.storable = true

theorem readFiling_raises {filer : Filer} {period : Date} {current : ListedFiling} :
    RaisesOnly Raised.missed (readFiling lib fetch source filer period current) ∧
      Storable (readFiling lib fetch source filer period current) ↔
    NewFilingReadable lib fetch source filer period current := by
  have hothers : RaisesOnly Raised.missed (source.predecessors.mapM (fetchFiler lib fetch)) ↔
      UpToFailure (fun cik => Served13F (SubmissionsReadable lib) fetch (submissionsUrl cik))
        (fun cik => Succeeds (fetchFiler lib fetch cik)) source.predecessors := by
    rw [raisesOnly_mapM]
    exact upToFailure_congr (fun cik => fetchFiler_raises) fun cik => .rfl
  have hparts : ∀ before : List ListedFiling,
      RaisesOnly Raised.missed (before.mapM (fetchFiling lib fetch)) ↔
      UpToFailure (fun f => Served13F (FilingReadable lib) fetch (textUrl f))
        (fun f => Succeeds (fetchFiling lib fetch f)) before := by
    intro before
    rw [raisesOnly_mapM]
    exact upToFailure_congr (fun f => fetchFiling_raises) fun f => .rfl
  constructor
  · rintro ⟨h, hfits⟩
    unfold readFiling at h
    obtain ⟨hfilers, hrest⟩ := raisesOnly_bind.mp h
    refine ⟨hothers.mp hfilers, fun others ho => ?_, fun others now ho hnow hsome => ?_, hfits⟩
    · exact fetchFiling_raises.mp (raisesOnly_bind.mp (hrest others ho)).1
    · have hlater := (raisesOnly_bind.mp (hrest others ho)).2 now hnow
      rw [hsome, if_neg Bool.false_ne_true, raisesOnly_bind_of fun _ => raisesOnly_pure] at hlater
      exact (hparts _).mp hlater
  · intro h
    refine ⟨?_, h.fits⟩
    unfold readFiling
    refine raisesOnly_bind.mpr ⟨hothers.mpr h.others, fun others ho => ?_⟩
    refine raisesOnly_bind.mpr ⟨fetchFiling_raises.mpr (h.now others ho), fun now hnow => ?_⟩
    by_cases hempty : now.positions.isEmpty = true
    · rw [if_pos hempty]
      exact raisesOnly_pure
    · rw [if_neg hempty, raisesOnly_bind_of fun _ => raisesOnly_pure]
      exact (hparts _).mpr (h.prior others now ho hnow (by simpa using hempty))

theorem readSource_raises {cik : Str} {stored : Option Str} :
    RaisesOnly Raised.missed (readSource lib fetch source cik stored) ∧
      Storable (readSource lib fetch source cik stored) ↔
    SourceReadable lib fetch source cik stored := by
  have hread : ∀ filer, fetchFiler lib fetch cik = .ok filer → ∀ period current,
      latest (filer.filings.filterMap original) = some (period, current) →
      readSource lib fetch source cik stored =
        if stored = some current.accession then .ok none
        else readFiling lib fetch source filer period current := by
    intro filer hfiler period current hlatest
    unfold readSource
    rw [hfiler]
    dsimp only [bind, Except.bind]
    rw [hlatest]
    rfl
  constructor
  · rintro ⟨h, hfits⟩
    refine ⟨?_, fun filer period current hfiler hlatest hnew => ?_⟩
    · unfold readSource at h
      exact fetchFiler_raises.mp (raisesOnly_bind.mp h).1
    · have hsame : readSource lib fetch source cik stored =
          readFiling lib fetch source filer period current := by
        rw [hread filer hfiler period current hlatest]
        exact if_neg hnew
      rw [hsame] at h hfits
      exact readFiling_raises.mp ⟨h, hfits⟩
  · intro h
    cases hfiler : fetchFiler lib fetch cik with
    | error e =>
      have hsame : readSource lib fetch source cik stored = .error e := by
        unfold readSource
        rw [hfiler]
        rfl
      rw [hsame]
      refine ⟨raisesOnly_error.mpr (fetchFiler_raises.mpr h.list e hfiler), fun rows hrows => ?_⟩
      cases hrows
    | ok filer =>
      cases hlatest : latest (filer.filings.filterMap original) with
      | none =>
        have hnone : readSource lib fetch source cik stored = .ok none := by
          unfold readSource
          rw [hfiler]
          dsimp only [bind, Except.bind]
          rw [hlatest]
          rfl
        rw [hnone]
        exact ⟨raisesOnly_ok, fun rows hrows => by cases hrows⟩
      | some found =>
        obtain ⟨period, current⟩ := found
        rw [hread filer hfiler period current hlatest]
        by_cases hold : stored = some current.accession
        · rw [if_pos hold]
          exact ⟨raisesOnly_ok, fun rows hrows => by cases hrows⟩
        · rw [if_neg hold]
          exact readFiling_raises.mpr (h.filing filer period current hfiler hlatest hold)

/-! ## The run -/

def Investors.positionsOf (t : Investors) (source : Id) : List InvestorPosition :=
  t.positions.filter fun p => p.sourceId = source

variable {t u : Investors}

theorem accessionOf_eq {id : Id} (h : u.positionsOf id = t.positionsOf id) :
    u.accessionOf id = t.accessionOf id := by
  unfold Investors.positionsOf at h
  unfold Investors.accessionOf
  rw [← List.head?_filter, ← List.head?_filter, h]

theorem replace_same {rows : List InvestorPosition} {id : Id}
    (h : ∀ p ∈ rows, p.sourceId = id) : (t.replace id rows).positionsOf id = rows := by
  have hnone : (t.positions.filter fun p => p.sourceId ≠ id).filter
      (fun p => p.sourceId = id) = [] := by
    refine List.filter_eq_nil_iff.mpr fun p hp => ?_
    simpa using (List.mem_filter.mp hp).2
  have hall : rows.filter (fun p => p.sourceId = id) = rows :=
    List.filter_eq_self.mpr fun p hp => by simp [h p hp]
  unfold Investors.positionsOf Investors.replace
  rw [List.filter_append, hnone, hall, List.nil_append]

theorem replace_other {rows : List InvestorPosition} {id other : Id} (hne : other ≠ id)
    (h : ∀ p ∈ rows, p.sourceId = id) : (t.replace id rows).positionsOf other = t.positionsOf other := by
  have hnone : rows.filter (fun p => p.sourceId = other) = [] := by
    refine List.filter_eq_nil_iff.mpr fun p hp => ?_
    simp only [h p hp, decide_eq_true_eq]
    exact fun hsame => hne hsame.symm
  unfold Investors.positionsOf Investors.replace
  rw [List.filter_append, hnone, List.append_nil, List.filter_filter]
  refine List.filter_congr fun p _ => ?_
  by_cases hp : p.sourceId = other
  · simp [hp, hne]
  · simp [hp]

theorem rowsFor_source {filer : Filer} {period : Date} {current : ListedFiling}
    {before : List ListedFiling} {now prior : Holdings} {p : InvestorPosition}
    (h : p ∈ rowsFor source filer period current before now prior) : p.sourceId = source.id := by
  obtain ⟨kind, -, hp⟩ := List.mem_flatMap.mp h
  obtain ⟨change, -, rfl⟩ := List.mem_map.mp hp
  rfl

theorem readFiling_source {filer : Filer} {period : Date} {current : ListedFiling}
    {rows : List InvestorPosition}
    (h : readFiling lib fetch source filer period current = .ok (some rows)) :
    ∀ p ∈ rows, p.sourceId = source.id := by
  intro p hp
  unfold readFiling at h
  obtain ⟨others, -, h⟩ := bind_ok_iff.mp h
  obtain ⟨now, -, h⟩ := bind_ok_iff.mp h
  by_cases hempty : now.positions.isEmpty = true
  · rw [if_pos hempty] at h
    cases h
  · rw [if_neg hempty] at h
    obtain ⟨parts, -, h⟩ := bind_ok_iff.mp h
    cases h
    exact rowsFor_source hp

theorem readSource_source {cik : Str} {stored : Option Str} {rows : List InvestorPosition}
    (h : readSource lib fetch source cik stored = .ok (some rows)) :
    ∀ p ∈ rows, p.sourceId = source.id := by
  unfold readSource at h
  obtain ⟨filer, -, h⟩ := bind_ok_iff.mp h
  cases hlatest : latest (filer.filings.filterMap original) with
  | none =>
    rw [hlatest] at h
    cases h
  | some found =>
    obtain ⟨period, current⟩ := found
    simp only [hlatest] at h
    by_cases hold : stored = some current.accession
    · rw [if_pos hold] at h
      cases h
    · rw [if_neg hold] at h
      exact readFiling_source h

variable {served : Id → Fetch} {x : Source × Str} {xs : List (Source × Str)} {n : Nat}

/-- A source's positions after the run: the new filing's, or the ones it had. -/
def Investors.after (lib : FilingLibrary) (served : Id → Fetch) (t : Investors) (x : Source × Str) :
    List InvestorPosition :=
  match readSource lib (served x.1.id) x.1 x.2 (t.accessionOf x.1.id) with
  | .ok (some rows) => rows
  | _ => t.positionsOf x.1.id

/-- The source's documents end no run. -/
def Investors.Readable (lib : FilingLibrary) (served : Id → Fetch) (t : Investors)
    (x : Source × Str) : Prop :=
  SourceReadable lib (served x.1.id) x.1 x.2 (t.accessionOf x.1.id)

/-- What one source leaves of the table. -/
structure Replaces (lib : FilingLibrary) (served : Id → Fetch) (x : Source × Str)
    (t u : Investors) : Prop where
  sources : u.sources = t.sources
  own : u.positionsOf x.1.id = t.after lib served x
  others : ∀ id, id ≠ x.1.id → u.positionsOf id = t.positionsOf id

theorem takeSource_readable (h : t.Readable lib served x) :
    ∃ m u, takeSource lib served x (n, t) = .ok (.yield (m, u)) ∧ Replaces lib served x t u := by
  obtain ⟨hraises, hfits⟩ := readSource_raises.mpr h
  unfold takeSource refreshSource
  cases hread : readSource lib (served x.1.id) x.1 x.2 (t.accessionOf x.1.id) with
  | error e =>
    have hsame : t.after lib served x = t.positionsOf x.1.id := by
      unfold Investors.after
      rw [hread]
    refine ⟨n, t, ?_, rfl, hsame.symm, fun _ _ => rfl⟩
    rcases hraises e hread with rfl | rfl <;> rfl
  | ok read =>
    cases read with
    | none =>
      have hsame : t.after lib served x = t.positionsOf x.1.id := by
        unfold Investors.after
        rw [hread]
      exact ⟨_, t, rfl, rfl, hsame.symm, fun _ _ => rfl⟩
    | some rows =>
      have hrows := readSource_source hread
      have hsame : t.after lib served x = rows := by
        unfold Investors.after
        rw [hread]
      refine ⟨n + 1, t.replace x.1.id rows, ?_, rfl, (replace_same hrows).trans hsame.symm,
        fun id hne => replace_other hne hrows⟩
      simp only [bind, Except.bind, hfits rows hread, if_true]
      rfl

theorem takeSource_unreadable (h : ¬ t.Readable lib served x) :
    ∃ e, takeSource lib served x (n, t) = .error e := by
  have hnot := mt readSource_raises.mp h
  unfold takeSource refreshSource
  cases hread : readSource lib (served x.1.id) x.1 x.2 (t.accessionOf x.1.id) with
  | error e =>
    have hmissed : ¬ e.missed := by
      intro hm
      refine hnot ⟨?_, ?_⟩
      · rw [hread]
        exact raisesOnly_error.mpr hm
      · intro rows hrows
        rw [hread] at hrows
        cases hrows
    cases e with
    | filingError => exact absurd (.inl rfl) hmissed
    | fetchError => exact absurd (.inr rfl) hmissed
    | _ => exact ⟨_, rfl⟩
  | ok read =>
    have hraises : RaisesOnly Raised.missed
        (readSource lib (served x.1.id) x.1 x.2 (t.accessionOf x.1.id)) := by
      rw [hread]
      exact raisesOnly_ok
    cases read with
    | none =>
      refine absurd ⟨hraises, fun rows hrows => ?_⟩ hnot
      rw [hread] at hrows
      cases hrows
    | some rows =>
      by_cases hfits : rows.all InvestorPosition.storable = true
      · refine absurd ⟨hraises, fun rows' hrows => ?_⟩ hnot
        cases hread.symm.trans hrows
        exact hfits
      · simp only [bind, Except.bind, hfits]
        exact ⟨_, rfl⟩

theorem Replaces.readable (h : Replaces lib served x t u) {y : Source × Str} (hne : y.1.id ≠ x.1.id) :
    u.Readable lib served y ↔ t.Readable lib served y := by
  unfold Investors.Readable
  rw [accessionOf_eq (h.others _ hne)]

theorem Replaces.after (h : Replaces lib served x t u) {y : Source × Str} (hne : y.1.id ≠ x.1.id) :
    u.after lib served y = t.after lib served y := by
  unfold Investors.after
  rw [accessionOf_eq (h.others _ hne), h.others _ hne]

/-- What a run leaves of the table: each of its sources' positions replaced or kept, all
together. -/
structure EachReplaced (lib : FilingLibrary) (served : Id → Fetch) (xs : List (Source × Str))
    (t u : Investors) : Prop where
  sources : u.sources = t.sources
  each : ∀ x ∈ xs, u.positionsOf x.1.id = t.after lib served x
  others : ∀ id, (∀ x ∈ xs, id ≠ x.1.id) → u.positionsOf id = t.positionsOf id

theorem sources_readable (hids : (xs.map fun x => x.1.id).Nodup)
    (h : ∀ x ∈ xs, t.Readable lib served x) :
    ∃ m u, forIn xs (n, t) (takeSource lib served) = .ok (m, u) ∧
      EachReplaced lib served xs t u := by
  induction xs generalizing n t with
  | nil => exact ⟨n, t, rfl, rfl, by nofun, fun _ _ => rfl⟩
  | cons x xs ih =>
    rw [List.map_cons, List.nodup_cons] at hids
    have hne : ∀ y ∈ xs, y.1.id ≠ x.1.id := by
      intro y hy hsame
      exact hids.1 (List.mem_map.mpr ⟨y, hy, hsame⟩)
    obtain ⟨m, u, hstep, hx⟩ := takeSource_readable (n := n) (h x List.mem_cons_self)
    rw [loop_yield hstep]
    obtain ⟨m', v, hrun, hrest⟩ := ih (n := m) (t := u) hids.2 fun y hy =>
      (hx.readable (hne y hy)).mpr (h y (List.mem_cons_of_mem x hy))
    refine ⟨m', v, hrun, hrest.sources.trans hx.sources, fun y hy => ?_, fun id hid => ?_⟩
    · rcases List.mem_cons.mp hy with rfl | hy
      · have hlater := hrest.others y.1.id fun z hz => (hne z hz).symm
        exact hlater.trans hx.own
      · exact (hrest.each y hy).trans (hx.after (hne y hy))
    · have hlater := hrest.others id fun z hz => hid z (List.mem_cons_of_mem x hz)
      exact hlater.trans (hx.others id (hid x List.mem_cons_self))

theorem sources_complete (hids : (xs.map fun x => x.1.id).Nodup)
    (h : ∃ r, forIn xs (n, t) (takeSource lib served) = .ok r) :
    ∀ x ∈ xs, t.Readable lib served x := by
  induction xs generalizing n t with
  | nil => nofun
  | cons x xs ih =>
    rw [List.map_cons, List.nodup_cons] at hids
    by_cases hx : t.Readable lib served x
    case neg =>
      obtain ⟨e, hstep⟩ := takeSource_unreadable (n := n) hx
      rw [loop_raise hstep] at h
      obtain ⟨r, hr⟩ := h
      cases hr
    obtain ⟨m, u, hstep, hreplaces⟩ := takeSource_readable (n := n) hx
    rw [loop_yield hstep] at h
    intro y hy
    rcases List.mem_cons.mp hy with rfl | hy
    · exact hx
    · have hne : y.1.id ≠ x.1.id := fun hsame => hids.1 (List.mem_map.mpr ⟨y, hy, hsame⟩)
      exact (hreplaces.readable hne).mp (ih hids.2 h y hy)

theorem thirteenf_ids (sources : List Source) :
    ((thirteenfSources lib sources).map fun x => x.1.id).Sublist (sources.map Source.id) := by
  induction sources with
  | nil => exact .slnil
  | cons source sources ih =>
    unfold thirteenfSources at ih ⊢
    rw [List.map_cons, List.filterMap_cons]
    cases hcik : cikIn lib (source.url.getD []) with
    | none => exact .cons _ ih
    | some cik =>
      by_cases hkind : source.primary = true ∧ source.section_ = some "holdings"
      · simp only [hkind, and_self, if_true]
        exact .cons_cons _ ih
      · simp only [hkind, if_false]
        exact .cons _ ih

/-- The sources the run asks for. -/
def Investors.tracked (lib : FilingLibrary) (t : Investors) (companyId : Id) :
    List (Source × Str) :=
  thirteenfSources lib (t.sources.filter fun s => s.companyId = companyId)

theorem tracked_ids {companyId : Id} (h : (t.sources.map Source.id).Nodup) :
    ((t.tracked lib companyId).map fun x => x.1.id).Nodup := by
  have hfilter : ((t.sources.filter fun s => s.companyId = companyId).map Source.id).Sublist
      (t.sources.map Source.id) := List.Sublist.map _ List.filter_sublist
  exact ((thirteenf_ids _).trans hfilter).nodup h

/-- A run over the sources ends if and only if each one's documents end no run; and then each
source's positions are the new filing's or the ones they were. -/
theorem holdings_complete_iff {companyId : Id} (hids : (t.sources.map Source.id).Nodup) :
    (∃ m u, refreshHoldings lib companyId served t = .ok (m, u) ∧
      EachReplaced lib served (t.tracked lib companyId) t u) ↔
    ∀ x ∈ t.tracked lib companyId, t.Readable lib served x := by
  constructor
  · rintro ⟨m, u, hrun, -⟩
    exact sources_complete (tracked_ids hids) ⟨_, hrun⟩
  · exact fun h => sources_readable (tracked_ids hids) h

end Autora.Disclosures
