import Autora.Lib.Scans
import Autora.NamedStocks
import Mathlib.Data.List.Dedup
import Mathlib.Data.List.Lex
import Mathlib.Data.List.Sort

/-! The public site: its tables, and what it answers to a reader. -/

namespace Autora.Site

open Untyped Texts Urls

/-- What Python and the database make of characters and texts. -/
structure Library where
  upper : Str → Str
  casing : Casing
  chars : Scans.Characters
  /-- What may stand in the brackets of a host. -/
  literal : Str → Bool
  hashToken : Str → Str
  /-- A character of a word, to the database. -/
  word : Nat → Bool

structure Uuid where
  value : Nat
  valid : value < 2 ^ 128
  deriving DecidableEq, Repr

def hexDigit (d : Nat) : Nat := if d < 10 then 48 + d else 87 + d

/-- `str(uuid)` -/
def Uuid.str (u : Uuid) : Str :=
  let digits := (List.range 32).map fun i => hexDigit (u.value / 16 ^ (31 - i) % 16)
  List.intercalate [45] [digits.take 8, (digits.drop 8).take 4, (digits.drop 12).take 4,
    (digits.drop 16).take 4, digits.drop 20]

/-- Microseconds since 1970. -/
abbrev Time := Int

def hourMicros : Int := 3600000000

def dayMicros : Int := 24 * hourMicros

/-! The tables, as far as the site reads them. -/

structure Block where
  type : Str
  text : Str
  claimIds : List Uuid
  deriving DecidableEq, Repr

/-- A draft is written with one block at least. -/
abbrev Body := { blocks : List Block // blocks ≠ [] }

structure ArticleVersion where
  articleId : Uuid
  lang : Str
  draftGroupId : Uuid
  title : Str
  summary : Option Str
  body : Body
  deriving DecidableEq

inductive ArticleAccess where
  | free | members
  deriving DecidableEq, Repr

/-- `published_group_id` and `published_at`, which are set together. -/
structure Publication where
  groupId : Uuid
  at_ : Time
  deriving DecidableEq, Repr

structure Article where
  id : Uuid
  companyId : Uuid
  storyId : Uuid
  slug : Str
  access : ArticleAccess
  publishedLangs : List Str
  published : Option Publication
  revisedAt : Option Time
  listed : Bool
  deriving DecidableEq, Repr

structure Company where
  id : Uuid
  name : Str
  slug : Str
  deriving DecidableEq, Repr

/-- An item of a story, with the section that its source names. -/
structure StoryItem where
  storyId : Uuid
  section_ : Option Str
  deriving DecidableEq, Repr

structure StoryCover where
  storyId : Uuid
  active : Bool
  url : Str
  width : Nat
  height : Nat
  alt : List (Str × Str)
  credit : Str
  provider : Str
  pageUrl : Str
  deriving DecidableEq, Repr

/-- A quote for or against a claim, with the evidence it is from. -/
structure ClaimEvidence where
  claimId : Uuid
  supports : Bool
  url : Str
  title : Option Str
  deriving DecidableEq, Repr

structure AnalyticsEvent where
  articleId : Uuid
  view : Bool
  lang : Str
  createdAt : Time
  deriving DecidableEq, Repr

structure ReaderSession where
  readerId : Uuid
  tokenHash : Str
  expiresAt : Time
  revokedAt : Option Time
  deriving DecidableEq, Repr

structure Customer where
  id : Uuid
  externalRef : Str
  deriving DecidableEq, Repr

structure Membership where
  companyId : Uuid
  customerId : Uuid
  expiresAt : Time
  deriving DecidableEq, Repr

structure Security where
  market : Market
  symbol : Str
  name : Str
  nameEn : Option Str
  deriving DecidableEq, Repr

structure Tables where
  articles : List Article
  versions : List ArticleVersion
  companies : List Company
  storyItems : List StoryItem
  covers : List StoryCover
  claimEvidence : List ClaimEvidence
  events : List AnalyticsEvent
  readers : List Uuid
  sessions : List ReaderSession
  customers : List Customer
  memberships : List Membership
  securities : List Security

/-- The tables with what their keys promise: articles are known by their id and by their slug, a
draft group has one version in a language, and what an article published is its own. -/
structure Database extends Tables where
  article_id : ∀ a ∈ articles, ∀ b ∈ articles, a.id = b.id → a = b
  article_slug : ∀ a ∈ articles, ∀ b ∈ articles, a.slug = b.slug → a = b
  version_lang : ∀ v ∈ versions, ∀ w ∈ versions, v.draftGroupId = w.draftGroupId →
    v.lang = w.lang → v = w
  own_versions : ∀ a ∈ articles, ∀ p, a.published = some p → ∀ v ∈ versions,
    v.draftGroupId = p.groupId → v.articleId = a.id

/-! Who may read. -/

inductive Reader where
  | anyone | signedIn | member
  deriving DecidableEq, Repr

inductive Lock where
  | members | signIn
  deriving DecidableEq, Repr

/-- `SIGN_IN_SECTIONS` -/
def signInSections : List Str := [lit "holdings", lit "figures"]

def lockFor (access : ArticleAccess) (section_ : Option Str) : Option Lock :=
  if access = .members then some .members
  else if section_.any (· ∈ signInSections) then some .signIn
  else none

def mayRead (lock : Option Lock) (reader : Reader) : Bool :=
  if lock = none ∨ reader = .member then true
  else lock = some .signIn && reader = .signedIn

/-- `PREVIEW_BLOCKS` -/
def previewBlocks : Nat := 2

def preview (body : List Block) : List Block :=
  body.take (min previewBlocks (max 0 (body.length - 1)))

/-! What is shown of an article. -/

structure PublicBlock where
  type : Str
  text : Str
  deriving DecidableEq, Repr

structure PublicSource where
  title : Str
  site : Str
  url : Str
  deriving DecidableEq, Repr

structure PublicNamedStock where
  key : Str
  symbol : Str
  name : Str
  deriving DecidableEq, Repr

structure PublicCover where
  url : Str
  width : Nat
  height : Nat
  alt : Str
  credit : Str
  library : Str
  pageUrl : Str
  deriving DecidableEq, Repr

structure PublicArticleSummary where
  articleId : Uuid
  lang : Str
  slug : Str
  path : Str
  title : Str
  summary : Option Str
  publishedAt : Time
  revisedAt : Option Time
  access : ArticleAccess
  section_ : Option Str
  cover : Option PublicCover
  stocks : List PublicNamedStock
  deriving DecidableEq, Repr

structure PublicNeighbour where
  title : Str
  path : Str
  deriving DecidableEq, Repr

structure PublicArticle extends PublicArticleSummary where
  locked : Bool
  lock : Option Lock
  blocks : List PublicBlock
  sources : List PublicSource
  langs : List (Str × Str)
  company : Str
  companyId : Uuid
  companySlug : Str
  newer : Option PublicNeighbour
  older : Option PublicNeighbour
  deriving DecidableEq, Repr

structure PublicDay where
  day : Int
  count : Nat
  deriving DecidableEq, Repr

/-- `LIBRARY_NAME` -/
def libraryName (provider : Str) : Str :=
  if provider = lit "pixabay" then lit "Pixabay"
  else if provider = lit "pexels" then lit "Pexels"
  else if provider = lit "gemini" then []
  else provider

def publicCover (row : Option StoryCover) (lang : Str) : Option PublicCover :=
  (row.filter (·.active)).map fun c =>
    let given := (c.alt.lookup lang).getD []
    { url := c.url
      width := c.width
      height := c.height
      alt := if given ≠ [] then given else (c.alt.lookup (lit "en")).getD []
      credit := c.credit
      library := libraryName c.provider
      pageUrl := c.pageUrl }

def articlePath (lang slug : Str) : Str := lit "/news/" ++ lang ++ lit "/articles/" ++ slug

def isChinese (lang : Str) : Bool := (lit "zh").isPrefixOf lang

/-- The title, the summary and every block. -/
def wholeText (v : ArticleVersion) : Str :=
  List.intercalate [32] (v.title :: v.summary.getD [] :: v.body.val.map (·.text))

def asciiUpper (c : Nat) : Nat := if 97 ≤ c ∧ c ≤ 122 then c - 32 else c

def Chart.shown (zh : Bool) : Chart → PublicNamedStock
  | .stock s => ⟨s.key, s.symbol, if zh then s.zh else s.en⟩
  | .figure f => ⟨f.key, (f.key.rtakeWhile (· ≠ 58)).map asciiUpper, if zh then f.zh else f.en⟩

/-- `_named` -/
def named (v : ArticleVersion) (section_ : Option Str) : List PublicNamedStock :=
  (chartsNamed section_ (wholeText v)).map (Chart.shown (isChinese v.lang))

/-- A published version with its article. -/
structure Row where
  article : Article
  publication : Publication
  version : ArticleVersion
  section_ : Option Str
  deriving DecidableEq

/-- `SECTIONS`, in the order of the alphabet. -/
def sections : List Str :=
  [lit "ai", lit "commodities", lit "crypto", lit "figures", lit "fx", lit "gold",
    lit "holdings", lit "institutions", lit "tw", lit "us"]

/-- The section named most, the first of them where several are. -/
def mostNamed (named : List Str) : Option Str :=
  (sections.filter (· ∈ named)).foldl (fun best s =>
    if best.all fun b => named.count b < named.count s then some s else best) none

/-- `re.escape` is undone by the database: the term stands there as it is. A word begins with it
and ends with it. -/
def wordEdge (lib : Library) (term : Str) (prev next : Option Nat) : Bool :=
  !prev.any lib.word && term.head?.any lib.word && term.getLast?.any lib.word &&
    !next.any lib.word

/-! A version as the database searches it. -/

def escapeJson (c : Nat) : Str :=
  if c = 8 then lit "\\b"
  else if c = 9 then lit "\\t"
  else if c = 10 then lit "\\n"
  else if c = 12 then lit "\\f"
  else if c = 13 then lit "\\r"
  else if c = 34 ∨ c = 92 then [92, c]
  else if c < 32 then lit "\\u00" ++ [hexDigit (c / 16), hexDigit (c % 16)]
  else [c]

def quoted (s : Str) : Str := 34 :: s.flatMap escapeJson ++ [34]

def jsonArray (items : List Str) : Str := 91 :: List.intercalate (lit ", ") items ++ [93]

/-- The keys stand by their length and then as bytes. -/
def Block.json (b : Block) : Str :=
  lit "\x7b\"text\": " ++ quoted b.text ++ lit ", \"type\": " ++ quoted b.type ++
    lit ", \"claim_ids\": " ++ jsonArray (b.claimIds.map fun id => quoted id.str) ++ lit "\x7d"

/-- `concat_ws(' ', title, summary, body)` -/
def searchedText (v : ArticleVersion) : Str :=
  List.intercalate [32]
    (v.title :: v.summary.toList ++ [jsonArray (v.body.val.map Block.json)])

def names (lib : Library) (terms : List Str) (v : ArticleVersion) : Bool :=
  terms.any fun term =>
    if isAscii term then stands (wordEdge lib term) term (searchedText v)
    else occursIn term (searchedText v)

/-! The sources behind an article. -/

/-- Every claim that the blocks cite, once, in order. -/
def cited (body : List Block) : List Uuid :=
  (body.flatMap (·.claimIds)).foldl (fun seen id => if id ∈ seen then seen else seen ++ [id]) []

/-- A title and no title do not compare, where the addresses are the same. -/
def sortable (rows : List (Str × Option Str)) : Bool :=
  rows.all fun r => rows.all fun q => r.1 ≠ q.1 || r.2.isSome = q.2.isSome

def sortedRows (rows : List (Str × Option Str)) : Option (List (Str × Option Str)) :=
  if sortable rows then
    some (rows.insertionSort fun r q => r.1 < q.1 ∨ r.1 = q.1 ∧ r.2.getD [] ≤ q.2.getD [])
  else none

/-- `urlsplit(url).hostname or url`; none where it raises. -/
def siteOf (lib : Library) (url : Str) : Option Str :=
  (urlsplit lib.literal url).toOption.map fun parts =>
    let host := hostname lib.casing parts.netloc
    if host ≠ [] then host else url

def addSource (lib : Library) (sources : List PublicSource) (row : Str × Option Str) :
    Option (List PublicSource) :=
  if sources.any (·.url = row.1) then some sources
  else (siteOf lib row.1).map fun site =>
    let title := row.2.getD []
    sources ++ [⟨if title ≠ [] then title else site, site, row.1⟩]

/-! The days of the site. -/

/-- The number of a day, counted from 1970. -/
def dayNumber (year : Int) (month : Nat) (day : Nat) : Int :=
  let y := if month ≤ 2 then year - 1 else year
  let shifted : Int := if month ≤ 2 then month + 9 else month - 3
  let inYear := (153 * shifted + 2) / 5 + day - 1
  y * 365 + y / 4 - y / 100 + y / 400 + inYear - 719468

example : dayNumber 1970 1 1 = 0 ∧ dayNumber 2024 2 29 = 19782 := by decide

/-- `_taipei_day` -/
def taipeiDay (day : Int) : Time × Time :=
  let start := day * dayMicros - 8 * hourMicros
  (start, start + dayMicros)

def localDay (t : Time) : Int := (t + 8 * hourMicros) / dayMicros

/-- The first days of a month and of the next one; the thirty-second day after the first is in the
next. -/
def monthDays (year : Int) (month : Nat) : Int × Int :=
  (dayNumber year month 1,
    if month = 12 then dayNumber (year + 1) 1 1 else dayNumber year (month + 1) 1)

/-- `MAX_LIST` -/
def maxList : Nat := 50

/-- `POPULAR_DAYS` -/
def popularDays : Int := 7

def newestFirst (rows : List Row) : List Row :=
  rows.insertionSort fun r q => q.publication.at_ < r.publication.at_ ∨
    q.publication.at_ = r.publication.at_ ∧ q.article.id.value ≤ r.article.id.value

def pageOf (rows : List Row) (limit offset : Nat) : List Row :=
  (rows.drop offset).take (min (max limit 1) maxList)

/-- Published after the other one. -/
def Row.after (r q : Row) : Bool :=
  q.publication.at_ < r.publication.at_ ||
    (q.publication.at_ = r.publication.at_ && q.article.id.value < r.article.id.value)

/-! The stock that a page's symbol names. -/

/-- `$` also stands before a newline at the end. -/
def wholly (p : Str → Bool) (s : Str) : Bool := p s || (s.getLast? = some 10 && p s.dropLast)

def capital (c : Nat) : Bool := 65 ≤ c && c ≤ 90

/-- `TW_CODE` -/
def twCode (lib : Library) : Str → Bool := wholly fun s =>
  (s.length = 4 && s.all lib.chars.isDigit) ||
    (s.take 2 = lit "00" &&
      let rest := s.drop 2
      let digits := if rest.getLast?.any capital then rest.dropLast else rest
      (digits.length = 3 || digits.length = 4) && digits.all lib.chars.isDigit)

/-- `US_SYMBOL` -/
def usSymbol : Str → Bool := wholly fun s =>
  s.head?.any capital && s.length ≤ 10 &&
    s.tail.all fun c => capital c || asciiDigit c || c = 46 || c = 45

def marketOf (lib : Library) (symbol : Str) : Option Market :=
  let symbol := lib.upper symbol
  if twCode lib symbol then some .tw
  else if usSymbol symbol then some .us
  else none

def asStock (s : Security) : Stock :=
  let given := s.nameEn.getD []
  ⟨s.symbol, s.market, s.name, if given ≠ [] then given else s.name, []⟩

/-- `_terms` -/
def termsOf (s : Stock) : List Str :=
  if stocks.any (·.symbol = s.symbol) then s.terms
  else s.terms.filter fun t => !(isAscii t && t.length < 3)

/-! What the site reads from its tables. -/

namespace Tables

variable (lib : Library) (t : Tables) (now : Time)

/-- `_section` -/
def sectionOf (storyId : Uuid) : Option Str :=
  mostNamed ((t.storyItems.filter (·.storyId = storyId)).filterMap (·.section_))

/-- `_published` -/
def published (lang : Str) : List Row :=
  t.articles.flatMap fun a => match a.published with
    | some p => (t.versions.filter fun v => v.draftGroupId = p.groupId && a.listed &&
        v.lang = lang && lang ∈ a.publishedLangs).map fun v => ⟨a, p, v, t.sectionOf a.storyId⟩
    | none => []

def coverOf (storyId : Uuid) : Option StoryCover := t.covers.find? (·.storyId = storyId)

/-- `_summary` -/
def summary (r : Row) : PublicArticleSummary where
  articleId := r.article.id
  lang := r.version.lang
  slug := r.article.slug
  path := articlePath r.version.lang r.article.slug
  title := r.version.title
  summary := r.version.summary
  publishedAt := r.publication.at_
  revisedAt := r.article.revisedAt
  access := r.article.access
  section_ := r.section_
  cover := publicCover (t.coverOf r.article.storyId) r.version.lang
  stocks := named r.version r.section_

def evidenceFor (id : Uuid) : List (Str × Option Str) :=
  (t.claimEvidence.filter fun e => e.claimId = id && e.supports).map fun e => (e.url, e.title)

/-- The sources of a body; none where a comparison or an address raises. -/
def sourcesOf (body : List Block) : Option (List PublicSource) :=
  (cited body).foldlM (fun sources id =>
    (sortedRows (t.evidenceFor id)).bind fun rows => rows.foldlM (addSource lib) sources) []

/-- `_neighbours` -/
def neighbours (lang : Str) (row : Row) : Option PublicNeighbour × Option PublicNeighbour :=
  let mine := (t.published lang).filter fun r => r.article.companyId = row.article.companyId
  let shown := fun r : Row => PublicNeighbour.mk r.version.title (articlePath lang r.article.slug)
  (((newestFirst (mine.filter fun r => r.after row)).getLast?).map shown,
    ((newestFirst (mine.filter fun r => row.after r)).head?).map shown)

def ofCompany (slug : Str) (r : Row) : Bool :=
  t.companies.any fun c => c.id = r.article.companyId && c.slug = slug

/-- `_listed` -/
def listed (lang : Str) (company : Option Str) (sections : List Str) (day : Option Int) :
    List Row :=
  (t.published lang).filter fun r => company.all (t.ofCompany · r) &&
    (sections = [] || r.section_.any (· ∈ sections)) &&
    day.all fun d => (taipeiDay d).1 ≤ r.publication.at_ && r.publication.at_ < (taipeiDay d).2

def publishedArticles (lang : Str) (company : Option Str) (sections : List Str)
    (limit offset : Nat) (day : Option Int) : List PublicArticleSummary :=
  (pageOf (newestFirst (t.listed lang company sections day)) limit offset).map t.summary

def countPublishedArticles (lang : Str) (company : Option Str) (sections : List Str)
    (day : Option Int) : Nat := (t.listed lang company sections day).length

def views (lang : Str) (id : Uuid) : Nat :=
  t.events.countP fun e => e.view && e.lang = lang && now - popularDays * dayMicros ≤ e.createdAt &&
    e.articleId = id

def popularArticles (lang : Str) (company : Option Str) (limit : Nat) :
    List PublicArticleSummary :=
  let read := (t.listed lang company [] none).filter fun r => 0 < t.views now lang r.article.id
  let ordered := read.insertionSort fun r q =>
    t.views now lang q.article.id < t.views now lang r.article.id ∨
      t.views now lang q.article.id = t.views now lang r.article.id ∧
        q.publication.at_ ≤ r.publication.at_
  (ordered.take (min (max limit 1) 10)).map t.summary

def publishedDays (lang : Str) (year : Int) (month : Nat) (company : Option Str)
    (sections : List Str) : List PublicDay :=
  let start := (taipeiDay (monthDays year month).1).1
  let end_ := (taipeiDay (monthDays year month).2).1
  let days := ((t.listed lang company sections none).filter fun r =>
    start ≤ r.publication.at_ && r.publication.at_ < end_).map fun r => localDay r.publication.at_
  (days.dedup.insertionSort (· ≤ ·)).map fun d => ⟨d, days.count d⟩

/-- `_mentioning` -/
def mentioning (lang : Str) (terms : List Str) (company : Option Str) : List Row :=
  (t.published lang).filter fun r => names lib terms r.version && company.all (t.ofCompany · r)

def publishedArticlesMentioning (lang : Str) (terms : List Str) (company : Option Str)
    (limit offset : Nat) : List PublicArticleSummary :=
  (pageOf (newestFirst (t.mentioning lib lang terms company)) limit offset).map t.summary

def countArticlesMentioning (lang : Str) (terms : List Str) (company : Option Str) : Nat :=
  (t.mentioning lib lang terms company).length

/-- The page of a row, for a reader. -/
def page (lang : Str) (reader : Reader) (row : Row) (sources : List PublicSource) :
    PublicArticle :=
  let lock := lockFor row.article.access row.section_
  let locked := !mayRead lock reader
  let company := t.companies.find? (·.id = row.article.companyId)
  { t.summary row with
    locked
    lock
    blocks := (if locked then preview row.version.body.val else row.version.body.val).map
      fun b => ⟨b.type, b.text⟩
    sources := if locked then [] else sources
    langs := row.article.publishedLangs.map fun l => (l, articlePath l row.article.slug)
    company := (company.map (·.name)).getD []
    companyId := row.article.companyId
    companySlug := (company.map (·.slug)).getD []
    newer := (t.neighbours lang row).1
    older := (t.neighbours lang row).2 }

/-- The outer none is an exception, the inner one an article that is not there. -/
def publishedArticle (lang slug : Str) (reader : Reader) : Option (Option PublicArticle) :=
  match (t.published lang).find? (·.article.slug = slug) with
  | none => some none
  | some row => (t.sourcesOf lib row.version.body.val).map fun sources =>
      some (t.page lang reader row sources)

def readerFor (cookie : Option Str) : Option Uuid :=
  (cookie.filter (· ≠ [])).bind fun token =>
    ((t.sessions.find? (·.tokenHash = lib.hashToken token)).filter fun s =>
      s.revokedAt = none && now < s.expiresAt).bind fun s => t.readers.find? (· = s.readerId)

def customerRef (reader : Uuid) : Str := lit "reader:" ++ reader.str

def accessUntil (companyId : Uuid) (ref : Str) : Option Time :=
  ((t.memberships.filter fun m => m.companyId = companyId && now < m.expiresAt &&
    t.customers.any fun c => c.id = m.customerId && c.externalRef = ref).map (·.expiresAt)).max?

/-- `securities.find` -/
def find (symbol : Str) : Option Stock :=
  let symbol := lib.upper symbol
  match stocks.find? (·.symbol = symbol) with
  | some curated => some curated
  | none => (marketOf lib symbol).bind fun market =>
      (t.securities.find? fun s => s.market = market && s.symbol = symbol).map asStock

end Tables

/-! Requests and their answers. -/

inductive Request where
  | list (lang : Str) (company : Option Str) (sections : List Str) (limit offset : Nat)
      (day : Option Int)
  | popular (lang : Str) (company : Option Str) (limit : Nat)
  | calendar (lang : Str) (year : Int) (month : Nat) (company : Option Str) (sections : List Str)
  | article (lang slug : Str)
  | stock (symbol lang : Str) (company : Option Str) (offset : Nat)
  deriving DecidableEq, Repr

inductive Response where
  | list (total : Nat) (page : List PublicArticleSummary)
  | popular (page : List PublicArticleSummary)
  | calendar (days : List PublicDay)
  | article (page : PublicArticle)
  | stock (symbol : Str) (market : Market) (name : Str) (articles : List PublicArticleSummary)
      (total : Nat)
  | notFound (detail : Str)
  | failed
  deriving DecidableEq, Repr

section

variable (lib : Library) (t : Tables) (now : Time)

/-- `await published_article(...) or article` -/
def again (article : PublicArticle) : Option (Option PublicArticle) → Response
  | some (some page) => .article page
  | some none => .article article
  | none => .failed

def getArticle (cookie : Option Str) (lang slug : Str) : Response :=
  match t.publishedArticle lib lang slug .anyone with
  | none => .failed
  | some none => .notFound (lit "no published article " ++ slug ++ lit " in " ++ lang)
  | some (some article) =>
    if !article.locked then .article article
    else match t.readerFor lib now cookie with
      | none => .article article
      | some reader =>
        if article.lock = some .signIn then
          again article (t.publishedArticle lib lang slug .signedIn)
        else if t.accessUntil now article.companyId (Tables.customerRef reader) = none then
          .article article
        else again article (t.publishedArticle lib lang slug .member)

/-- The articles of a stock's page. -/
def getStock (symbol lang : Str) (company : Option Str) (offset : Nat) : Response :=
  match t.find lib symbol with
  | none => .notFound (lit "no page for " ++ symbol)
  | some s =>
    match company.filter fun slug => !t.companies.any (·.slug = slug) with
    | some slug => .notFound (lit "no company " ++ slug)
    | none => .stock s.symbol s.market (if isChinese lang then s.zh else s.en)
        (t.publishedArticlesMentioning lib lang (termsOf s) company 10 offset)
        (t.countArticlesMentioning lib lang (termsOf s) company)

def respond (cookie : Option Str) : Request → Response
  | .list lang company sections limit offset day =>
    .list (t.countPublishedArticles lang company sections day)
      (t.publishedArticles lang company sections limit offset day)
  | .popular lang company limit => .popular (t.popularArticles now lang company limit)
  | .calendar lang year month company sections =>
    .calendar (t.publishedDays lang year month company sections)
  | .article lang slug => getArticle lib t now cookie lang slug
  | .stock symbol lang company offset => getStock lib t symbol lang company offset

end

end Autora.Site
