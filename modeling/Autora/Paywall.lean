import Autora.CanonicalUrls
import Autora.Lib.TwoRuns
import Autora.PublicSite

/-! What a locked article shows of the blocks after its preview. -/

namespace Autora.Site

open Untyped Texts Urls TwoRuns

variable {lib : Library} {t : Tables} {db db' : Database} {a : Article} {lang : Str}

/-- The blocks are the same but for the texts and the claims after the preview. -/
structure SameOpening (body body' : Body) : Prop where
  types : body.val.map (·.type) = body'.val.map (·.type)
  preview : preview body.val = preview body'.val

/-- The same version, or two versions of the article with the same opening. -/
def Alike (a : Article) (v v' : ArticleVersion) : Prop :=
  v = v' ∨ v.articleId = a.id ∧ v' = { v with body := v'.body } ∧ SameOpening v.body v'.body

/-- Two databases that differ in the hidden blocks of one article and in nothing else. -/
structure DiffersBehind (a : Article) (db db' : Database) : Prop where
  rest : db'.toTables = { db.toTables with versions := db'.versions }
  versions : List.Forall₂ (Alike a) db.versions db'.versions

def Tables.lockOf (t : Tables) (a : Article) : Option Lock :=
  lockFor a.access (t.sectionOf a.storyId)

/-- Who holds a cookie, to the company of an article. -/
def Tables.standing (lib : Library) (t : Tables) (now : Time) (cookie : Option Str)
    (a : Article) : Reader :=
  match t.readerFor lib now cookie with
  | none => .anyone
  | some reader =>
    if t.accessUntil now a.companyId (Tables.customerRef reader) = none then .signedIn else .member

/-- A reader who may not read the article learns nothing of what is hidden, and is shown less than
the whole. -/
structure ShowsNothing (lib : Library) (db db' : Database) (a : Article) : Prop where
  same : ∀ now cookie request,
    mayRead (db.lockOf a) (db.standing lib now cookie a) = false →
      respond lib db.toTables now cookie request = respond lib db'.toTables now cookie request
  opening : ∀ now cookie lang slug page,
    mayRead (db.lockOf a) (db.standing lib now cookie a) = false →
      respond lib db.toTables now cookie (.article lang slug) = .article page →
        page.articleId = a.id → ∃ v ∈ db.versions, v.articleId = a.id ∧ v.lang = lang ∧
          page.blocks <+: v.body.val.map (fun b => ⟨b.type, b.text⟩) ∧
          page.blocks.length < v.body.val.length

/-- The article is on the site in this version. -/
def OnSite (a : Article) (v : ArticleVersion) : Prop :=
  a.listed = true ∧ v.lang ∈ a.publishedLangs ∧
    ∃ p, a.published = some p ∧ v.draftGroupId = p.groupId

/-- The sources of a body can be listed: the evidence of every claim can be sorted, and its
addresses taken apart. -/
def Listable (lib : Library) (t : Tables) (body : List Block) : Prop :=
  ∀ id ∈ cited body, sortable (t.evidenceFor id) = true ∧
    ∀ row ∈ t.evidenceFor id, (urlsplit lib.literal row.1).toOption.isSome = true

/-- The whole texts name the same charts and are found by the same stocks, and the sources can be
listed of both or of neither. -/
structure SaysTheSame (lib : Library) (t : Tables) (section_ : Option Str)
    (v v' : ArticleVersion) : Prop where
  charts : chartsNamed section_ (wholeText v) = chartsNamed section_ (wholeText v')
  stocks : ∀ symbol s, t.find lib symbol = some s →
    names lib (termsOf s) v = names lib (termsOf s) v'
  sources : Listable lib t v.body.val ↔ Listable lib t v'.body.val

/-- Every version that is on the site, against its other self. -/
def KeepsQuiet (lib : Library) (db db' : Database) (a : Article) : Prop :=
  ∀ v ∈ db.versions, ∀ v' ∈ db'.versions, OnSite a v → v.draftGroupId = v'.draftGroupId →
    v.lang = v'.lang → SaysTheSame lib db.toTables (db.sectionOf a.storyId) v v'

/-! The preview. -/

theorem preview_starts (body : List Block) : preview body <+: body := List.take_prefix _ _

theorem preview_length_lt {body : List Block} (h : body ≠ []) :
    (preview body).length < body.length := by
  have hpos := List.length_pos_iff.mpr h
  rw [preview, List.length_take]
  omega

/-! When the sources can be listed. -/

def Known (lib : Library) (sources : List PublicSource) : Prop :=
  ∀ s ∈ sources, (urlsplit lib.literal s.url).toOption.isSome = true

theorem addSource_spec {sources : List PublicSource} (row : Str × Option Str)
    (h : Known lib sources) :
    ((addSource lib sources row).isSome = true ↔
      (urlsplit lib.literal row.1).toOption.isSome = true) ∧
    ∀ sources', addSource lib sources row = some sources' → Known lib sources' := by
  unfold addSource
  split
  · next hseen =>
    obtain ⟨s, hs, hurl⟩ := List.any_eq_true.mp hseen
    have hknown := h s hs
    rw [of_decide_eq_true hurl] at hknown
    refine ⟨iff_of_true rfl hknown, ?_⟩
    intro sources' hs
    cases hs
    exact h
  · refine ⟨?_, ?_⟩
    · rw [Option.isSome_map, siteOf, Option.isSome_map]
    · intro sources' hs
      obtain ⟨site, hsite, rfl⟩ := Option.map_eq_some_iff.mp hs
      obtain ⟨parts, hparts, -⟩ := Option.map_eq_some_iff.mp hsite
      intro s hs
      rcases List.mem_append.mp hs with hs | hs
      · exact h s hs
      · rw [List.mem_singleton.mp hs, hparts]
        rfl

theorem addSources_spec {rows : List (Str × Option Str)} {sources : List PublicSource}
    (h : Known lib sources) :
    ((rows.foldlM (addSource lib) sources).isSome = true ↔
      ∀ row ∈ rows, (urlsplit lib.literal row.1).toOption.isSome = true) ∧
    ∀ sources', rows.foldlM (addSource lib) sources = some sources' → Known lib sources' := by
  induction rows generalizing sources with
  | nil =>
    refine ⟨iff_of_true rfl fun row hrow => absurd hrow List.not_mem_nil, ?_⟩
    intro sources' hs
    cases hs
    exact h
  | cons row rows ih =>
    have hstep := addSource_spec row h
    rw [List.foldlM_cons, List.forall_mem_cons, ← hstep.1]
    cases hadd : addSource lib sources row with
    | none => exact ⟨iff_of_false Bool.false_ne_true fun hh => Bool.false_ne_true hh.1, nofun⟩
    | some next =>
      have hrest := ih (hstep.2 next hadd)
      exact ⟨⟨fun hs => ⟨rfl, hrest.1.mp hs⟩, fun hs => hrest.1.mpr hs.2⟩, hrest.2⟩

theorem mem_sortedRows {rows sorted : List (Str × Option Str)} (h : sortedRows rows = some sorted)
    {row : Str × Option Str} : row ∈ sorted ↔ row ∈ rows := by
  unfold sortedRows at h
  split at h
  · cases h
    exact List.mem_insertionSort _
  · cases h

theorem sourcesOf_isSome (body : List Block) :
    (t.sourcesOf lib body).isSome = true ↔ Listable lib t body := by
  have hfold : ∀ (ids : List Uuid) (sources : List PublicSource), Known lib sources →
      ((ids.foldlM (fun sources id => (sortedRows (t.evidenceFor id)).bind fun rows =>
          rows.foldlM (addSource lib) sources) sources).isSome = true ↔
        ∀ id ∈ ids, sortable (t.evidenceFor id) = true ∧
          ∀ row ∈ t.evidenceFor id, (urlsplit lib.literal row.1).toOption.isSome = true) := by
    intro ids
    induction ids with
    | nil => exact fun _ _ => iff_of_true rfl fun id hid => absurd hid List.not_mem_nil
    | cons id ids ih =>
      intro sources hknown
      rw [List.foldlM_cons, List.forall_mem_cons]
      by_cases hs : sortable (t.evidenceFor id) = true
      · obtain ⟨sorted, hsorted⟩ : ∃ sorted, sortedRows (t.evidenceFor id) = some sorted :=
          ⟨_, if_pos hs⟩
        have hspec := @addSources_spec _ sorted _ hknown
        rw [hsorted]
        cases hadd : sorted.foldlM (addSource lib) sources with
        | none =>
          rw [hadd] at hspec
          refine iff_of_false (by simp [hadd]) fun hh => ?_
          exact Bool.false_ne_true
            (hspec.1.mpr fun row hrow => hh.1.2 row ((mem_sortedRows hsorted).mp hrow))
        | some next =>
          rw [hadd] at hspec
          have hrows := hspec.1.mp rfl
          have hnext := ih next (hspec.2 next rfl)
          simp only [Option.bind_some, hadd, Option.bind_eq_bind]
          refine hnext.trans ⟨fun hh => ⟨⟨hs, ?_⟩, hh⟩, fun hh => hh.2⟩
          exact fun row hrow => hrows row ((mem_sortedRows hsorted).mpr hrow)
      · rw [sortedRows, if_neg hs]
        exact iff_of_false Bool.false_ne_true fun hh => hs hh.1.1
  exact hfold (cited body) [] fun s hs => absurd hs List.not_mem_nil

/-! The rows of the two databases. -/

theorem mem_published {r : Row} : r ∈ t.published lang ↔
    r.article ∈ t.articles ∧ r.article.published = some r.publication ∧ r.version ∈ t.versions ∧
      r.version.draftGroupId = r.publication.groupId ∧ r.article.listed = true ∧
      r.version.lang = lang ∧ lang ∈ r.article.publishedLangs ∧
      r.section_ = t.sectionOf r.article.storyId := by
  rw [Tables.published, List.mem_flatMap]
  constructor
  · rintro ⟨art, hart, hr⟩
    split at hr
    · next p hp =>
      obtain ⟨v, hv, rfl⟩ := List.mem_map.mp hr
      obtain ⟨hv, hon⟩ := List.mem_filter.mp hv
      simp only [Bool.and_eq_true, decide_eq_true_eq] at hon
      exact ⟨hart, hp, hv, hon.1.1.1, hon.1.1.2, hon.1.2, hon.2, rfl⟩
    · exact absurd hr List.not_mem_nil
  · rintro ⟨hart, hp, hv, hgroup, hlisted, hlang, hmem, hsection⟩
    refine ⟨r.article, hart, ?_⟩
    rw [hp]
    refine List.mem_map.mpr ⟨r.version, List.mem_filter.mpr ⟨hv, ?_⟩, ?_⟩
    · simp only [Bool.and_eq_true, decide_eq_true_eq]
      exact ⟨⟨⟨hgroup, hlisted⟩, hlang⟩, hmem⟩
    · rw [← hsection]

/-- The same row with a version that is alike. -/
structure RowPair (a : Article) (r r' : Row) : Prop where
  rest : r' = { r with version := r'.version }
  version : Alike a r.version r'.version

theorem Alike.header {v v' : ArticleVersion} (h : Alike a v v') :
    v' = { v with body := v'.body } := by
  rcases h with rfl | h
  · rfl
  · exact h.2.1

theorem RowPair.refl (r : Row) : RowPair a r r := ⟨rfl, Or.inl rfl⟩

/-- The tables with other versions. -/
abbrev Tables.withVersions (t : Tables) (vs : List ArticleVersion) : Tables :=
  { t with versions := vs }

variable {vs : List ArticleVersion}

theorem published_paired (hd : List.Forall₂ (Alike a) t.versions vs) :
    List.Forall₂ (RowPair a) (t.published lang) ((t.withVersions vs).published lang) := by
  refine TwoRuns.flatMap fun art _ => ?_
  split
  · next p hp =>
    rw [List.forall₂_map_left_iff, List.forall₂_map_right_iff]
    refine List.Forall₂.imp (fun v v' h => ?_) (TwoRuns.filter hd fun v v' h => ?_)
    · exact ⟨rfl, h⟩
    · rw [h.header]
  · exact List.Forall₂.nil

/-! What depends on the rows by their headers only. -/

section

variable {R : Row → Row → Prop} (hR : ∀ r r', R r r' → RowPair a r r')
  (h : List.Forall₂ R (t.published lang) ((t.withVersions vs).published lang))

include hR h

theorem listed_related (company : Option Str) (sections : List Str) (day : Option Int) :
    List.Forall₂ R (t.listed lang company sections day)
      ((t.withVersions vs).listed lang company sections day) := by
  refine TwoRuns.filter h fun r r' hr => ?_
  rw [(hR r r' hr).rest]
  rfl

omit h in
theorem newestFirst_related {rows rows' : List Row} (h : List.Forall₂ R rows rows') :
    List.Forall₂ R (newestFirst rows) (newestFirst rows') := by
  refine TwoRuns.insertionSort h fun r r' q q' hr hq => ?_
  rw [(hR r r' hr).rest, (hR q q' hq).rest]

theorem publishedDays_eq (year : Int) (month : Nat) (company : Option Str) (sections : List Str) :
    t.publishedDays lang year month company sections =
      (t.withVersions vs).publishedDays lang year month company sections := by
  have hrows := TwoRuns.filter (listed_related hR h company sections none)
    (p := fun r => decide ((taipeiDay (monthDays year month).1).1 ≤ r.publication.at_) &&
      decide (r.publication.at_ < (taipeiDay (monthDays year month).2).1))
    (q := fun r => decide ((taipeiDay (monthDays year month).1).1 ≤ r.publication.at_) &&
      decide (r.publication.at_ < (taipeiDay (monthDays year month).2).1))
    fun r r' hr => by rw [(hR r r' hr).rest]
  have hdays := TwoRuns.map_eq hrows (f := fun r => localDay r.publication.at_)
    (g := fun r => localDay r.publication.at_) fun r r' hr => by rw [(hR r r' hr).rest]
  simp only [Tables.publishedDays, hdays]

theorem neighbours_eq {row row' : Row} (hrow : row'.article = row.article)
    (hpub : row'.publication = row.publication) :
    t.neighbours lang row = (t.withVersions vs).neighbours lang row' := by
  have hmine := TwoRuns.filter h (p := fun r => decide (r.article.companyId = row.article.companyId))
    (q := fun r => decide (r.article.companyId = row'.article.companyId))
    fun r r' hr => by rw [(hR r r' hr).rest, hrow]
  have hafter := newestFirst_related hR (TwoRuns.filter hmine (p := fun r => r.after row)
    (q := fun r => r.after row') fun r r' hr => by
      rw [(hR r r' hr).rest, Row.after, Row.after, hrow, hpub])
  have hbefore := newestFirst_related hR (TwoRuns.filter hmine (p := fun r => row.after r)
    (q := fun r => row'.after r) fun r r' hr => by
      rw [(hR r r' hr).rest, Row.after, Row.after, hrow, hpub])
  have hshown : ∀ r r', R r r' →
      PublicNeighbour.mk r.version.title (articlePath lang r.article.slug) =
        PublicNeighbour.mk r'.version.title (articlePath lang r'.article.slug) := by
    intro r r' hr
    have hheader := (hR r r' hr).version.header
    rw [(hR r r' hr).rest, hheader]
  simp only [Tables.neighbours, ← List.getLast?_map, ← List.head?_map,
    TwoRuns.map_eq hafter hshown, TwoRuns.map_eq hbefore hshown]

end

/-! Rows that a reader without the article cannot tell apart. -/

/-- The same row, or two rows of the article that say the same. -/
def RowLike (lib : Library) (t : Tables) (a : Article) (r r' : Row) : Prop :=
  r = r' ∨ r.article = a ∧ RowPair a r r' ∧ SameOpening r.version.body r'.version.body ∧
    SaysTheSame lib t r.section_ r.version r'.version

theorem RowLike.pair {r r' : Row} (h : RowLike lib t a r r') : RowPair a r r' := by
  rcases h with rfl | h
  · exact RowPair.refl r
  · exact h.2.1

theorem RowLike.summary_eq {r r' : Row} (h : RowLike lib t a r r') :
    t.summary r = (t.withVersions vs).summary r' := by
  rcases h with rfl | ⟨-, hpair, -, hsays⟩
  · rfl
  · have hnamed : named r.version r.section_ = named r'.version r'.section_ := by
      rw [hpair.rest, named, named, hsays.charts, hpair.version.header]
    rw [Tables.summary, Tables.summary, ← hnamed, hpair.rest, hpair.version.header]
    rfl

theorem RowLike.names_eq {r r' : Row} (h : RowLike lib t a r r') {symbol : Str} {s : Stock}
    (hs : t.find lib symbol = some s) :
    names lib (termsOf s) r.version = names lib (termsOf s) r'.version := by
  rcases h with rfl | ⟨-, -, -, hsays⟩
  · rfl
  · exact hsays.stocks symbol s hs

section

variable {now : Time}
  (h : ∀ lang, List.Forall₂ (RowLike lib t a) (t.published lang)
    ((t.withVersions vs).published lang))

include h

theorem list_eq (company : Option Str) (sections : List Str) (limit offset : Nat)
    (day : Option Int) :
    t.countPublishedArticles lang company sections day =
        (t.withVersions vs).countPublishedArticles lang company sections day ∧
      t.publishedArticles lang company sections limit offset day =
        (t.withVersions vs).publishedArticles lang company sections limit offset day := by
  have hlisted := listed_related (fun _ _ => RowLike.pair) (h lang) company sections day
  have hpage := List.forall₂_take (min (max limit 1) maxList)
    (List.forall₂_drop offset (newestFirst_related (fun _ _ => RowLike.pair) hlisted))
  exact ⟨hlisted.length_eq, TwoRuns.map_eq hpage fun _ _ hr => hr.summary_eq⟩

theorem popular_eq (company : Option Str) (limit : Nat) :
    t.popularArticles now lang company limit =
      (t.withVersions vs).popularArticles now lang company limit := by
  have hlisted := listed_related (fun _ _ => RowLike.pair) (h lang) company [] none
  have hread := TwoRuns.filter hlisted
    (p := fun r => decide (0 < t.views now lang r.article.id))
    (q := fun r => decide (0 < (t.withVersions vs).views now lang r.article.id))
    fun r r' hr => by
      rw [hr.pair.rest]
      rfl
  have hsorted := TwoRuns.insertionSort hread
    (r := fun r q => t.views now lang q.article.id < t.views now lang r.article.id ∨
      t.views now lang q.article.id = t.views now lang r.article.id ∧
        q.publication.at_ ≤ r.publication.at_)
    (s := fun r q => (t.withVersions vs).views now lang q.article.id <
        (t.withVersions vs).views now lang r.article.id ∨
      (t.withVersions vs).views now lang q.article.id =
          (t.withVersions vs).views now lang r.article.id ∧
        q.publication.at_ ≤ r.publication.at_)
    fun r r' q q' hr hq => by
      rw [hr.pair.rest, hq.pair.rest]
      rfl
  exact TwoRuns.map_eq (List.forall₂_take _ hsorted) fun _ _ hr => hr.summary_eq

theorem mentioning_eq {symbol : Str} {s : Stock} (hs : t.find lib symbol = some s)
    (company : Option Str) (limit offset : Nat) :
    t.countArticlesMentioning lib lang (termsOf s) company =
        (t.withVersions vs).countArticlesMentioning lib lang (termsOf s) company ∧
      t.publishedArticlesMentioning lib lang (termsOf s) company limit offset =
        (t.withVersions vs).publishedArticlesMentioning lib lang (termsOf s) company limit
          offset := by
  have hrows : List.Forall₂ (RowLike lib t a) (t.mentioning lib lang (termsOf s) company)
      ((t.withVersions vs).mentioning lib lang (termsOf s) company) := by
    refine TwoRuns.filter (h lang) fun r r' hr => ?_
    rw [hr.names_eq hs, hr.pair.rest]
    rfl
  have hpage := List.forall₂_take (min (max limit 1) maxList)
    (List.forall₂_drop offset (newestFirst_related (fun _ _ => RowLike.pair) hrows))
  exact ⟨hrows.length_eq, TwoRuns.map_eq hpage fun _ _ hr => hr.summary_eq⟩

theorem getStock_eq (symbol : Str) (company : Option Str) (offset : Nat) :
    getStock lib t symbol lang company offset =
      getStock lib (t.withVersions vs) symbol lang company offset := by
  unfold getStock
  have hfind : (t.withVersions vs).find lib symbol = t.find lib symbol := rfl
  rw [hfind]
  cases hs : t.find lib symbol with
  | none => rfl
  | some s =>
    have heq := @mentioning_eq _ _ _ lang _ h _ _ hs company 10 offset
    simp only [heq.1, heq.2]

theorem found_related (slug : Str) :
    Option.Rel (RowLike lib t a) ((t.published lang).find? (·.article.slug = slug))
      (((t.withVersions vs).published lang).find? (·.article.slug = slug)) :=
  TwoRuns.find? (h lang) fun r r' hr => by rw [hr.pair.rest]

/-- The page of an article is the same, where the reader may not read the one that is locked. -/
theorem publishedArticle_eq {slug : Str} {reader : Reader}
    (hreader : ∀ row, (t.published lang).find? (·.article.slug = slug) = some row →
      row.article = a → mayRead (t.lockOf a) reader = false) :
    t.publishedArticle lib lang slug reader =
      (t.withVersions vs).publishedArticle lib lang slug reader := by
  have hfind := @found_related _ _ _ lang _ h slug
  unfold Tables.publishedArticle
  generalize hx : (t.published lang).find? (fun r => decide (r.article.slug = slug)) = x at hfind
  generalize ((t.withVersions vs).published lang).find?
    (fun r => decide (r.article.slug = slug)) = x' at hfind
  cases hfind with
  | none => rfl
  | @some row row' hrow =>
    have hneighbours : t.neighbours lang row = (t.withVersions vs).neighbours lang row' :=
      neighbours_eq (fun _ _ => RowLike.pair) (h lang) (by rw [hrow.pair.rest])
        (by rw [hrow.pair.rest])
    have hsummary := @RowLike.summary_eq _ _ _ vs _ _ hrow
    rcases hrow with rfl | ⟨rfl, hpair, hopening, hsays⟩
    · have hpage : t.page lang reader row = (t.withVersions vs).page lang reader row := by
        funext sources
        rw [Tables.page, Tables.page, hneighbours]
        rfl
      show (t.sourcesOf lib row.version.body.val).map _ = (t.sourcesOf lib row.version.body.val).map _
      rw [hpage]
    · have hmem := mem_published.mp (List.mem_of_find?_eq_some hx)
      have hlocked : mayRead (lockFor row.article.access row.section_) reader = false := by
        rw [hmem.2.2.2.2.2.2.2]
        exact hreader row hx rfl
      have harticle : row'.article = row.article := by rw [hpair.rest]
      have hsection : row'.section_ = row.section_ := by rw [hpair.rest]
      have hpage : ∀ sources sources', t.page lang reader row sources =
          (t.withVersions vs).page lang reader row' sources' := by
        intro sources sources'
        simp only [Tables.page, harticle, hsection, hlocked, hopening.preview, hsummary,
          hneighbours, Bool.not_false, if_true]
      have hsome : (t.sourcesOf lib row.version.body.val).isSome =
          ((t.withVersions vs).sourcesOf lib row'.version.body.val).isSome := by
        rw [Bool.eq_iff_iff, sourcesOf_isSome, sourcesOf_isSome]
        exact hsays.sources
      show (t.sourcesOf lib row.version.body.val).map _ =
        ((t.withVersions vs).sourcesOf lib row'.version.body.val).map _
      cases hs : t.sourcesOf lib row.version.body.val with
      | none =>
        rw [hs, Option.isSome_none, eq_comm, Option.isSome_eq_false_iff,
          Option.isNone_iff_eq_none] at hsome
        rw [hsome]
        rfl
      | some sources =>
        rw [hs] at hsome
        obtain ⟨sources', hs'⟩ := Option.isSome_iff_exists.mp hsome.symm
        rw [hs', Option.map_some, Option.map_some, hpage sources sources']

end

/-! The answer to a reader who may not read. -/

theorem mayRead_anyone {lock : Option Lock} (h : lock ≠ none) : mayRead lock .anyone = false := by
  cases lock with
  | none => exact absurd rfl h
  | some lock => cases lock <;> rfl

theorem page_of_published {slug : Str} {reader : Reader} {page : PublicArticle}
    (h : t.publishedArticle lib lang slug reader = some (some page)) :
    ∃ row sources, (t.published lang).find? (·.article.slug = slug) = some row ∧
      row ∈ t.published lang ∧ t.sourcesOf lib row.version.body.val = some sources ∧
      page = t.page lang reader row sources ∧
      lockFor row.article.access row.section_ = t.lockOf row.article := by
  unfold Tables.publishedArticle at h
  split at h
  · cases h
  · next row hrow =>
    obtain ⟨sources, hsources, hpage⟩ := Option.map_eq_some_iff.mp h
    cases hpage
    have hmem := List.mem_of_find?_eq_some hrow
    refine ⟨row, sources, hrow, hmem, hsources, rfl, ?_⟩
    rw [(mem_published.mp hmem).2.2.2.2.2.2.2]
    rfl

/-- The page that anybody is shown is the answer. -/
theorem getArticle_of_unread {now : Time} {cookie : Option Str} {slug : Str}
    (hread : mayRead (t.lockOf a) (t.standing lib now cookie a) = false)
    (hfound : ∀ row, (t.published lang).find? (·.article.slug = slug) = some row →
      row.article = a) :
    getArticle lib t now cookie lang slug =
      match t.publishedArticle lib lang slug .anyone with
      | none => .failed
      | some none => .notFound (lit "no published article " ++ slug ++ lit " in " ++ lang)
      | some (some page) => .article page := by
  unfold getArticle
  cases hpage : t.publishedArticle lib lang slug .anyone with
  | none => rfl
  | some found =>
    cases found with
    | none => rfl
    | some page =>
      obtain ⟨row, sources, hrow, -, -, rfl, hlock⟩ := page_of_published hpage
      have hpageLock : (t.page lang .anyone row sources).lock = t.lockOf a := by
        rw [← hfound row hrow]
        exact hlock
      have hcompany : (t.page lang .anyone row sources).companyId = a.companyId := by
        rw [← hfound row hrow]
        rfl
      unfold Tables.standing at hread
      dsimp only
      split
      · rfl
      · cases hr : t.readerFor lib now cookie with
        | none => rfl
        | some reader =>
          rw [hr] at hread
          dsimp only at hread ⊢
          rw [hpageLock, hcompany]
          -- a reader with an account reads what asks for no more than that
          by_cases hsign : t.lockOf a = some .signIn
          · rw [hsign] at hread
            split at hread
            · cases hread
            · cases hread
          · rw [if_neg hsign]
            by_cases huntil : t.accessUntil now a.companyId (Tables.customerRef reader) = none
            · rw [if_pos huntil]
            · rw [if_neg huntil, mayRead, if_pos (Or.inr rfl)] at hread
              cases hread

theorem RowPair.article_eq (ha : a ∈ db.articles) {r r' : Row} (hr : r ∈ db.published lang)
    (h : RowPair a r r') :
    r = r' ∨ r.article = a ∧ SameOpening r.version.body r'.version.body := by
  rcases h.version with hv | ⟨hown, -, hopening⟩
  · exact Or.inl (by rw [h.rest, ← hv])
  · obtain ⟨hart, hp, hv, hgroup, -⟩ := mem_published.mp hr
    have hid := db.own_versions _ hart _ hp _ hv hgroup
    exact Or.inr ⟨db.article_id _ hart _ ha (hid.symm.trans hown), hopening⟩

theorem published_pairs (hd : DiffersBehind a db db') (lang : Str) :
    List.Forall₂ (RowPair a) (db.published lang) (db'.published lang) := by
  rw [hd.rest]
  exact published_paired hd.versions

theorem published_like (hd : DiffersBehind a db db') (ha : a ∈ db.articles)
    (hq : KeepsQuiet lib db db' a) (lang : Str) :
    List.Forall₂ (RowLike lib db.toTables a) (db.published lang) (db'.published lang) := by
  refine TwoRuns.imp_of_mem (published_pairs hd lang) fun r hr r' hr' hpair => ?_
  rcases hpair.article_eq ha hr with heq | ⟨hart, hopening⟩
  · exact Or.inl heq
  · obtain ⟨-, hp, hv, hgroup, hlisted, hlang, hmem, hsection⟩ := mem_published.mp hr
    have hv' := (mem_published.mp hr').2.2.1
    have hheader := hpair.version.header
    rw [hart] at hp hlisted hmem hsection
    have hsays := hq r.version hv r'.version hv' ⟨hlisted, hlang ▸ hmem, _, hp, hgroup⟩
      (by rw [hheader]) (by rw [hheader])
    rw [← hsection] at hsays
    exact Or.inr ⟨hart, hpair, hopening, hsays⟩

theorem respond_eq (hd : DiffersBehind a db db') (ha : a ∈ db.articles)
    (hq : KeepsQuiet lib db db' a) (hlock : db.lockOf a ≠ none) (now : Time)
    (cookie : Option Str) (request : Request)
    (hread : mayRead (db.lockOf a) (db.standing lib now cookie a) = false) :
    respond lib db.toTables now cookie request = respond lib db'.toTables now cookie request := by
  have hlike := published_like hd ha hq
  rw [hd.rest] at hlike ⊢
  cases request with
  | list lang company sections limit offset day =>
    have heq := @list_eq _ _ _ lang _ hlike company sections limit offset day
    rw [respond, respond, heq.1, heq.2]
  | popular lang company limit =>
    rw [respond, respond, popular_eq hlike company limit]
  | calendar lang year month company sections =>
    rw [respond, respond,
      publishedDays_eq (fun _ _ => RowLike.pair) (hlike lang) year month company sections]
  | stock symbol lang company offset => exact getStock_eq hlike symbol company offset
  | article lang slug =>
    by_cases hrow : ∃ row, (db.published lang).find? (·.article.slug = slug) = some row ∧
        row.article = a
    · obtain ⟨row, hrow, hart⟩ := hrow
      have hfound := @found_related _ _ _ lang _ hlike slug
      rw [hrow] at hfound
      have hpage := @publishedArticle_eq _ _ _ lang _ hlike slug _
        fun _ _ _ => mayRead_anyone hlock
      have hleft := getArticle_of_unread hread
        fun r hr => by
          rw [hrow] at hr
          cases hr
          exact hart
      have hright := getArticle_of_unread
        (t := db.toTables.withVersions db'.versions) hread fun r hr => by
          rw [hr] at hfound
          cases hfound with
          | some h => rw [h.pair.rest, hart]
      rw [respond, respond, hleft, hright, hpage]
    · have hpage := fun reader => @publishedArticle_eq _ _ _ _ _
        hlike _ reader fun r hr hart => absurd ⟨r, hr, hart⟩ hrow
      rw [respond, respond]
      unfold getArticle
      simp only [hpage]
      rfl

theorem published_of_answer {now : Time} {cookie : Option Str} {slug : Str} {page : PublicArticle}
    (h : getArticle lib t now cookie lang slug = .article page) :
    ∃ reader, t.publishedArticle lib lang slug reader = some (some page) := by
  have hagain : ∀ (shown : PublicArticle) (reader : Reader),
      t.publishedArticle lib lang slug .anyone = some (some shown) →
      again shown (t.publishedArticle lib lang slug reader) = .article page →
        ∃ reader, t.publishedArticle lib lang slug reader = some (some page) := by
    intro shown reader hshown hpage
    unfold again at hpage
    split at hpage
    · next found hfound =>
      cases hpage
      exact ⟨reader, hfound⟩
    · cases hpage
      exact ⟨.anyone, hshown⟩
    · cases hpage
  unfold getArticle at h
  split at h
  · cases h
  · cases h
  · next shown hshown =>
    split at h
    · cases h
      exact ⟨.anyone, hshown⟩
    · split at h
      · cases h
        exact ⟨.anyone, hshown⟩
      · split at h
        · exact hagain shown _ hshown h
        · split at h
          · cases h
            exact ⟨.anyone, hshown⟩
          · exact hagain shown _ hshown h

/-- What is returned of a locked article is its beginning, and never all of it. -/
theorem blocks_of_unread (ha : a ∈ db.articles) (hlock : db.lockOf a ≠ none) {now : Time}
    {cookie : Option Str} {slug : Str} {page : PublicArticle}
    (hread : mayRead (db.lockOf a) (db.standing lib now cookie a) = false)
    (h : getArticle lib db.toTables now cookie lang slug = .article page)
    (hid : page.articleId = a.id) :
    ∃ v ∈ db.versions, v.articleId = a.id ∧ v.lang = lang ∧
      page.blocks <+: v.body.val.map (fun b => ⟨b.type, b.text⟩) ∧
      page.blocks.length < v.body.val.length := by
  obtain ⟨reader, hpage⟩ := published_of_answer h
  obtain ⟨row, _, hrow, hmem, _, rfl, _⟩ := page_of_published hpage
  obtain ⟨hart, hp, hv, hgroup, _, hlang, _⟩ := mem_published.mp hmem
  have harticle : row.article = a := db.article_id _ hart _ ha hid
  have hanswer := getArticle_of_unread hread fun r hr => by
    rw [hrow] at hr
    cases hr
    exact harticle
  rw [h] at hanswer
  split at hanswer
  · cases hanswer
  · cases hanswer
  · next shown hshown =>
    cases hanswer
    obtain ⟨row', sources, hrow', -, -, heq, hlock'⟩ := page_of_published hshown
    rw [hrow] at hrow'
    cases hrow'
    have hlocked : mayRead (lockFor row.article.access row.section_) .anyone = false := by
      rw [hlock', harticle]
      exact mayRead_anyone hlock
    have hblocks : (db.page lang .anyone row sources).blocks =
        (preview row.version.body.val).map fun b => ⟨b.type, b.text⟩ := by
      simp only [Tables.page, hlocked, Bool.not_false, if_true]
    have hown := db.own_versions _ hart _ hp _ hv hgroup
    refine ⟨row.version, hv, by rw [hown, harticle], hlang, ?_⟩
    rw [heq, hblocks, List.length_map]
    exact ⟨(preview_starts _).map _, preview_length_lt row.version.body.property⟩

/-! What the answers give away. -/

theorem charts_of_named {v v' : ArticleVersion} {section_ : Option Str}
    (h : named v section_ = named v' section_) :
    chartsNamed section_ (wholeText v) = chartsNamed section_ (wholeText v') := by
  have hkey : ∀ (zh : Bool) (c : Chart), (c.shown zh).key = c.key := by
    intro zh c
    cases c <;> rfl
  have hkeys : ∀ v : ArticleVersion, (named v section_).map (·.key) =
      (chartsNamed section_ (wholeText v)).map Chart.key := by
    intro v
    rw [named, List.map_map]
    exact List.map_congr_left fun c _ => hkey _ c
  have heq : (chartsNamed section_ (wholeText v)).map Chart.key =
      (chartsNamed section_ (wholeText v')).map Chart.key := by rw [← hkeys, ← hkeys, h]
  exact charts_of_keys (fun c hc => mem_charts_of_named hc) (fun c hc => mem_charts_of_named hc) heq

/-- An article has one row in a language. -/
theorem row_unique {r r' : Row} (hr : r ∈ db.published lang) (hr' : r' ∈ db.published lang)
    (h : r.article.id = r'.article.id) : r = r' := by
  obtain ⟨hart, hp, hv, hgroup, -, hlang, -, hsection⟩ := mem_published.mp hr
  obtain ⟨hart', hp', hv', hgroup', -, hlang', -, hsection'⟩ := mem_published.mp hr'
  have harticle := db.article_id _ hart _ hart' h
  rw [← harticle, hp] at hp'
  have hpub := Option.some.inj hp'
  have hversion := db.version_lang _ hv _ hv' (by rw [hgroup, hgroup', hpub])
    (hlang.trans hlang'.symm)
  rw [← harticle] at hsection'
  cases r
  cases r'
  simp only [Row.mk.injEq]
  exact ⟨harticle, hpub, hversion, hsection.trans hsection'.symm⟩

theorem row_found {r : Row} (hr : r ∈ db.published lang) :
    (db.published lang).find? (·.article.slug = r.article.slug) = some r := by
  cases hfind : (db.published lang).find? (·.article.slug = r.article.slug) with
  | none => exact absurd (decide_eq_true rfl) (List.find?_eq_none.mp hfind r hr)
  | some r' =>
    have hr' := List.mem_of_find?_eq_some hfind
    have hslug : r'.article.slug = r.article.slug := by
      simpa only [decide_eq_true_eq] using List.find?_some hfind
    have harticle := db.article_slug _ (mem_published.mp hr').1 _ (mem_published.mp hr).1 hslug
    rw [row_unique hr' hr (by rw [harticle])]

/-- Every row of the first list has its summary in the second. -/
theorem exists_of_summaries {rows rows' : List Row} {r : Row} {s : Tables}
    (h : rows.map t.summary = rows'.map s.summary) (hr : r ∈ rows) :
    ∃ r' ∈ rows', t.summary r = s.summary r' := by
  obtain ⟨r', hr', heq⟩ := List.mem_map.mp (h ▸ List.mem_map_of_mem hr)
  exact ⟨r', hr', heq.symm⟩

section

variable (hsame : ∀ request,
    respond lib db.toTables 0 none request = respond lib db'.toTables 0 none request)
  {r r' : Row} (hr : r ∈ db.published lang) (hr' : r' ∈ db'.published lang)
  (hid : r.article.id = r'.article.id)

include hsame hr hr' hid

theorem summary_eq_of_same : db.summary r = db'.summary r' := by
  have hpages : (newestFirst (db.listed lang none [] none)).map db.summary =
      (newestFirst (db'.listed lang none [] none)).map db'.summary := by
    refine TwoRuns.eq_of_pages (k := 1) Nat.one_pos fun n => ?_
    have hpage := hsame (.list lang none [] 1 n none)
    rw [respond, respond, Response.list.injEq] at hpage
    rw [← List.map_drop, ← List.map_take, ← List.map_drop, ← List.map_take]
    exact hpage.2
  have hlisted : ∀ {t : Tables} {r : Row}, r ∈ newestFirst (t.listed lang none [] none) ↔
      r ∈ t.published lang := by
    intro t r
    rw [newestFirst, List.mem_insertionSort, Tables.listed, List.mem_filter]
    exact and_iff_left rfl
  obtain ⟨q, hq, heq⟩ := exists_of_summaries hpages (hlisted.mpr hr)
  have hqid : q.article.id = r'.article.id :=
    (congrArg PublicArticleSummary.articleId heq).symm.trans hid
  rw [heq, row_unique (hlisted.mp hq) hr' hqid]

theorem names_of_same {symbol : Str} {s : Stock} (hs : db.find lib symbol = some s)
    (hs' : db'.find lib symbol = some s) (h : names lib (termsOf s) r.version = true) :
    names lib (termsOf s) r'.version = true := by
  have hpages : (newestFirst (db.mentioning lib lang (termsOf s) none)).map db.summary =
      (newestFirst (db'.mentioning lib lang (termsOf s) none)).map db'.summary := by
    refine TwoRuns.eq_of_pages (k := 10) (by omega) fun n => ?_
    have hpage := hsame (.stock symbol lang none n)
    simp only [respond, getStock, hs, hs', Option.filter_none, Response.stock.injEq] at hpage
    rw [← List.map_drop, ← List.map_take, ← List.map_drop, ← List.map_take]
    exact hpage.2.2.2.1
  have hmentioning : ∀ {t : Tables} {r : Row},
      r ∈ newestFirst (t.mentioning lib lang (termsOf s) none) ↔
        r ∈ t.published lang ∧ names lib (termsOf s) r.version = true := by
    intro t r
    rw [newestFirst, List.mem_insertionSort, Tables.mentioning, List.mem_filter, Option.all_none,
      Bool.and_true]
  obtain ⟨q, hq, heq⟩ := exists_of_summaries hpages (hmentioning.mpr ⟨hr, h⟩)
  have hq := hmentioning.mp hq
  have hqid : q.article.id = r'.article.id :=
    (congrArg PublicArticleSummary.articleId heq).symm.trans hid
  rw [← row_unique hq.1 hr' hqid]
  exact hq.2

end

/-- A locked page cannot be answered where its sources cannot be listed. -/
theorem failed_iff {r : Row} (hr : r ∈ db.published lang) (hlock : db.lockOf r.article ≠ none) :
    respond lib db.toTables 0 none (.article lang r.article.slug) = .failed ↔
      ¬ Listable lib db.toTables r.version.body.val := by
  have hfind := row_found hr
  have hanswer := @getArticle_of_unread lib _ _ _ 0 none _
    (mayRead_anyone hlock) fun q hq => by
      rw [hfind] at hq
      cases hq
      rfl
  rw [respond, hanswer, Tables.publishedArticle, hfind, ← sourcesOf_isSome]
  dsimp only
  cases db.sourcesOf lib r.version.body.val with
  | none => exact iff_of_true rfl Bool.false_ne_true
  | some sources => exact iff_of_false nofun fun h => h rfl

/-- Two databases that differ behind the paywall answer alike exactly where what is hidden names
the same charts, is found by the same stocks and has sources that can be listed in both. -/
theorem shows_nothing_iff (hd : DiffersBehind a db db') (ha : a ∈ db.articles)
    (hlock : db.lockOf a ≠ none) :
    ShowsNothing lib db db' a ↔ KeepsQuiet lib db db' a := by
  constructor
  · intro h v hv v' hv' hon hgroup hlang
    obtain ⟨hlisted, hmem, p, hp, hpg⟩ := hon
    have hsame := fun request => h.same 0 none request (mayRead_anyone hlock)
    have harticles : db'.articles = db.articles := by rw [hd.rest]
    have hsection : db'.sectionOf a.storyId = db.sectionOf a.storyId := by rw [hd.rest]; rfl
    have hfind : ∀ symbol, db'.find lib symbol = db.find lib symbol := by
      intro symbol
      rw [hd.rest]
      rfl
    have hr : (⟨a, p, v, db.sectionOf a.storyId⟩ : Row) ∈ db.published v.lang :=
      mem_published.mpr ⟨ha, hp, hv, hpg, hlisted, rfl, hmem, rfl⟩
    have hr' : (⟨a, p, v', db.sectionOf a.storyId⟩ : Row) ∈ db'.published v.lang :=
      mem_published.mpr ⟨harticles ▸ ha, hp, hv', hgroup ▸ hpg, hlisted, hlang.symm, hmem,
        hsection.symm⟩
    refine ⟨?_, ?_, ?_⟩
    · have hsummary := summary_eq_of_same hsame hr hr' rfl
      exact charts_of_named (congrArg PublicArticleSummary.stocks hsummary)
    · intro symbol s hs
      rw [Bool.eq_iff_iff]
      have hs' := (hfind symbol).trans hs
      exact ⟨names_of_same hsame hr hr' rfl hs hs',
        names_of_same (fun request => (hsame request).symm) hr' hr rfl hs' hs⟩
    · have hlock' : db'.lockOf a ≠ none := by
        rw [Tables.lockOf, hsection]
        exact hlock
      have hfailed := @failed_iff lib _ _ _ hr hlock
      rw [hsame (.article v.lang a.slug), failed_iff hr' hlock', hd.rest] at hfailed
      exact (not_iff_not.mp hfailed).symm
  · intro hq
    refine ⟨fun now cookie request => respond_eq hd ha hq hlock now cookie request, ?_⟩
    exact fun now cookie lang slug page hread hpage hid =>
      blocks_of_unread ha hlock hread hpage hid

/-! An article for members with one block behind its preview. -/

/-- The characters of ASCII; no cookie is hashed. -/
def plain : Library where
  upper s := s.map asciiUpper
  casing := Pages.asciiCasing
  chars := Scans.ascii
  literal _ := false
  hashToken s := s
  word c := latin c || c = 95

def vip : Article where
  id := ⟨1, by decide⟩
  companyId := ⟨2, by decide⟩
  storyId := ⟨3, by decide⟩
  slug := lit "chips"
  access := .members
  publishedLangs := [lit "en"]
  published := some ⟨⟨4, by decide⟩, 0⟩
  revisedAt := none
  listed := true

def vipVersion (hidden : String) : ArticleVersion where
  articleId := ⟨1, by decide⟩
  lang := lit "en"
  draftGroupId := ⟨4, by decide⟩
  title := lit "A supplier"
  summary := none
  body := ⟨[⟨lit "paragraph", lit "It sells chips.", []⟩, ⟨lit "paragraph", lit hidden, []⟩],
    List.cons_ne_nil _ _⟩

def vipDatabase (hidden : String) : Database where
  articles := [vip]
  versions := [vipVersion hidden]
  companies := [⟨⟨2, by decide⟩, lit "Autora", lit "autora"⟩]
  storyItems := [⟨⟨3, by decide⟩, some (lit "ai")⟩]
  covers := []
  claimEvidence := []
  events := []
  readers := []
  sessions := []
  customers := []
  memberships := []
  securities := []
  article_id a ha b hb _ := (List.mem_singleton.mp ha).trans (List.mem_singleton.mp hb).symm
  article_slug a ha b hb _ := (List.mem_singleton.mp ha).trans (List.mem_singleton.mp hb).symm
  version_lang v hv w hw _ _ := (List.mem_singleton.mp hv).trans (List.mem_singleton.mp hw).symm
  own_versions a ha _ _ v hv _ := by
    rw [List.mem_singleton.mp ha, List.mem_singleton.mp hv]
    rfl

theorem vip_differsBehind (hidden hidden' : String) :
    DiffersBehind vip (vipDatabase hidden) (vipDatabase hidden') where
  rest := rfl
  versions := List.Forall₂.cons (Or.inr ⟨rfl, rfl, ⟨rfl, rfl⟩⟩) List.Forall₂.nil

/-- A stock that only the hidden block names is linked beside the preview. -/
theorem stock_behind_preview :
    DiffersBehind vip (vipDatabase "Nvidia buys them.") (vipDatabase "Nobody buys them.") ∧
    (vipDatabase "Nvidia buys them.").lockOf vip = some .members ∧
    mayRead (some .members) ((vipDatabase "Nvidia buys them.").standing plain 0 none vip) = false ∧
    respond plain (vipDatabase "Nvidia buys them.").toTables 0 none
        (.article (lit "en") (lit "chips")) ≠
      respond plain (vipDatabase "Nobody buys them.").toTables 0 none
        (.article (lit "en") (lit "chips")) ∧
    ¬ ShowsNothing plain (vipDatabase "Nvidia buys them.") (vipDatabase "Nobody buys them.")
      vip := by
  have hne : respond plain (vipDatabase "Nvidia buys them.").toTables 0 none
        (.article (lit "en") (lit "chips")) ≠
      respond plain (vipDatabase "Nobody buys them.").toTables 0 none
        (.article (lit "en") (lit "chips")) := by decide +kernel
  refine ⟨vip_differsBehind _ _, by decide +kernel, by decide +kernel, hne, fun h => ?_⟩
  exact hne (h.same 0 none _ (by decide +kernel))

/-- Where neither hidden text names anything, nothing is shown of either. -/
theorem nothing_behind_preview :
    ShowsNothing plain (vipDatabase "Anybody buys them.") (vipDatabase "Nobody buys them.") vip := by
  refine (shows_nothing_iff (vip_differsBehind _ _) (List.mem_singleton_self _)
    (by decide +kernel)).mpr ?_
  intro v hv v' hv' _ _ _
  rw [List.mem_singleton.mp hv, List.mem_singleton.mp hv']
  refine ⟨by decide +kernel, ?_, ?_⟩
  · have hall : ∀ s ∈ stocks, names plain (termsOf s) (vipVersion "Anybody buys them.") =
        names plain (termsOf s) (vipVersion "Nobody buys them.") := by decide +kernel
    intro symbol s hs
    unfold Tables.find at hs
    dsimp only at hs
    split at hs
    · next curated hfound =>
      cases hs
      exact hall s (List.mem_of_find?_eq_some hfound)
    · obtain ⟨market, -, hs⟩ := Option.bind_eq_some_iff.mp hs
      cases hs
  · exact iff_of_true (fun id hid => absurd hid List.not_mem_nil)
      fun id hid => absurd hid List.not_mem_nil

end Autora.Site
