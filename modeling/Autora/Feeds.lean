import Autora.Events

/-! What a poll reads: feeds, the two sources that answer in JSON, and the identity of an
entry. Python's library is a parameter; the errors it may raise are part of its answers. -/

namespace Autora.Sources

abbrev Bytes := List UInt8

/-- Microseconds since the epoch; the first day there is comes long before it. -/
abbrev Moment := Int

/-- An exception by what a poll does with it: the three errors it knows, the one that is no
failure, and every other one. -/
inductive Raised where
  | fetchError (message : String)
  | feedError (message : String)
  | searchError (message : String)
  | gdeltBusy (message : String)
  | other (kind message : String)
  deriving DecidableEq, Repr

structure FeedEntry where
  externalId : String
  url : String
  title : String
  summary : Option String
  publishedAt : Option Moment
  deriving DecidableEq, Repr

inductive Element where
  | mk (tag : String) (attributes : List (String × String)) (text : String)
    (children : List Element)

inductive XmlError where
  | parse (message : String)
  | other (kind message : String)
  deriving DecidableEq, Repr

inductive JsonError where
  | value
  | other (kind message : String)
  deriving DecidableEq, Repr

/-- What making a date of a text may raise: an error the readers of dates pass over, or not. -/
inductive DateError where
  | noDate
  | overflow (message : String)
  deriving DecidableEq, Repr

structure UrlParts where
  scheme : String
  hostname : String
  /-- `parts.port`, which raises when it is no port. -/
  port : Except String (Option Nat)
  path : String
  query : String

structure Library where
  fromstring : Bytes → Except XmlError Element
  loads : Bytes → Except JsonError Json
  /-- `str(v or "")`. -/
  str : Json → String
  strip : String → String
  lower : String → String
  /-- `_clean`: without tags, unescaped, with single spaces. -/
  clean : String → String
  /-- A subject on one line; a title without loose punctuation. -/
  oneLine : String → String
  tidy : String → String
  /-- `_SPACE.sub(" ", title).strip().lower()`. -/
  normalize : String → String
  parsedate : String → Except DateError Moment
  fromisoformat : String → Except DateError Moment
  /-- `datetime.strptime(text, "%Y%m%dT%H%M%SZ")`. -/
  seendate : String → Except DateError Moment
  /-- `datetime(year, month, day, hour, minute, second)` in Taipei, of the digits of a text. -/
  rocDate : String → String → Except DateError Moment
  /-- `%Y%m%dT%H%M%SZ`, and the time and the day in Taipei. -/
  stamp : Moment → String
  taipeiTime : Moment → String
  taipeiDay : Moment → String
  urlsplit : String → Except String UrlParts
  parseQsl : String → List (String × String)
  urlencode : List (String × String) → Except String String
  urlunsplit : String → String → String → String → String
  /-- `_TRACKING.match`. -/
  tracking : String → Bool
  /-- `hashlib.sha256(text.encode()).hexdigest()`. -/
  sha256 : String → Except String String
  isdigit : String → Bool

variable (lib : Library)

def valueError {α : Type} : Except String α → Except Raised α
  | .ok a => .ok a
  | .error message => .error (.other "ValueError" message)

/-! Feeds. -/

namespace Element

def tag : Element → String
  | mk t _ _ _ => t

def attr (name : String) : Element → Option String
  | mk _ as _ _ => as.lookup name

def children : Element → List Element
  | mk _ _ _ cs => cs

def findall (e : Element) (name : String) : List Element := e.children.filter fun c => c.tag = name

def find (e : Element) (name : String) : Option Element := e.children.find? fun c => c.tag = name

end Element

def atom (name : String) : String := "\x7bhttp://www.w3.org/2005/Atom\x7d" ++ name

def rdf (name : String) : String := "\x7bhttp://www.w3.org/1999/02/22-rdf-syntax-ns#\x7d" ++ name

def rss1 : String := "\x7bhttp://purl.org/rss/1.0/\x7d"

def dc (name : String) : String := "\x7bhttp://purl.org/dc/elements/1.1/\x7d" ++ name

def contentNs (name : String) : String :=
  "\x7bhttp://purl.org/rss/1.0/modules/content/\x7d" ++ name

def summaryLimit : Nat := 1000

def first (n : Nat) (text : String) : String := String.ofList (text.toList.take n)

def orElse (a b : String) : String := if a = "" then b else a

/-- `_text`. -/
def textOf : Option Element → String
  | some (.mk _ _ text _) => lib.strip text
  | none => ""

/-- `_date`: the first reader that can read it. -/
def dateOf (value : String) : Except Raised (Option Moment) :=
  if value = "" then .ok none
  else match lib.parsedate value with
    | .ok m => .ok (some m)
    | .error (.overflow message) => .error (.other "OverflowError" message)
    | .error .noDate => match lib.fromisoformat value with
      | .ok m => .ok (some m)
      | .error (.overflow message) => .error (.other "OverflowError" message)
      | .error .noDate => .ok none

def isHttp (url : String) : Bool := "http://".isPrefixOf url || "https://".isPrefixOf url

/-- What `_entry` is given. -/
structure Texts where
  externalId : String
  url : String
  title : String
  summary : String
  published : String

def Texts.entry (t : Texts) (publishedAt : Option Moment) : FeedEntry :=
  let summary := first summaryLimit (lib.clean t.summary)
  { externalId := first 500 (orElse t.externalId t.url)
    url := t.url
    title := orElse (first 500 (lib.clean t.title)) t.url
    summary := if summary = "" then none else some summary
    publishedAt := publishedAt }

/-- `_entry`. -/
def entryOf (t : Texts) : Except Raised (Option FeedEntry) :=
  if isHttp t.url then do
    let publishedAt ← dateOf lib t.published
    pure (some (t.entry lib publishedAt))
  else .ok none

/-- `_rss_item`, up to what it gives `_entry`. -/
def rssItem (ns : String) (item : Element) : Texts :=
  let guid := item.find "guid"
  let permalink := guid.any fun g => (g.attr "isPermaLink").getD "true" ≠ "false"
  let link := textOf lib (item.find (ns ++ "link"))
  let link := if link = "" ∧ permalink then textOf lib guid else link
  let about := (item.attr (rdf "about")).getD ""
  { externalId := orElse (orElse (textOf lib guid) about) link
    url := orElse link about
    title := textOf lib (item.find (ns ++ "title"))
    summary := orElse (textOf lib (item.find (ns ++ "description")))
      (textOf lib (item.find (contentNs "encoded")))
    published := orElse (textOf lib (item.find "pubDate")) (textOf lib (item.find (dc "date"))) }

/-- `_atom_entry`, likewise. -/
def atomEntry (entry : Element) : Texts :=
  let links := entry.findall (atom "link")
  let alternate := links.filter fun l => (l.attr "rel").getD "alternate" = "alternate"
  let href := ((alternate ++ links).findSome? fun l =>
    (l.attr "href").bind fun h => if h = "" then none else some h).getD ""
  { externalId := textOf lib (entry.find (atom "id"))
    url := href
    title := textOf lib (entry.find (atom "title"))
    summary := orElse (textOf lib (entry.find (atom "summary")))
      (textOf lib (entry.find (atom "content")))
    published := orElse (textOf lib (entry.find (atom "published")))
      (textOf lib (entry.find (atom "updated"))) }

def upper (b : UInt8) : UInt8 := if 97 ≤ b ∧ b ≤ 122 then b - 32 else b

/-- `needle in hay`. -/
def occurs (needle hay : Bytes) : Bool := hay.tails.any fun tail => needle.isPrefixOf tail

def doctype : Bytes := "<!DOCTYPE".toUTF8.toList

def entity : Bytes := "<!ENTITY".toUTF8.toList

/-- The entries' elements with the way they are read; none for a format that is not known. -/
def feedItems (root : Element) : Option (List (Element × Option String)) :=
  if root.tag = "rss" then
    some ((((root.find "channel").map fun c => c.findall "item").getD []).map (·, some ""))
  else if root.tag = rdf "RDF" then some ((root.findall (rss1 ++ "item")).map (·, some rss1))
  else if root.tag = atom "feed" then some ((root.findall (atom "entry")).map (·, none))
  else none

def textsOf (item : Element × Option String) : Texts :=
  match item.2 with
  | some ns => rssItem lib ns item.1
  | none => atomEntry lib item.1

def parseFeed (body : Bytes) : Except Raised (List FeedEntry) :=
  if occurs doctype ((body.take 4096).map upper) ∨ occurs entity (body.map upper) then
    .error (.feedError "feeds with a DTD or entity declarations are not accepted")
  else match lib.fromstring body with
    | .error (.parse message) => .error (.feedError ("not well-formed XML: " ++ message))
    | .error (.other kind message) => .error (.other kind message)
    | .ok root => match feedItems root with
      | none => .error (.feedError ("unknown feed format: <" ++ root.tag ++ ">"))
      | some items => do
        let entries ← items.mapM fun item => entryOf lib (textsOf lib item)
        pure (entries.filterMap id)

/-! The two sources that answer in JSON. -/

def twseUrl : String := "https://openapi.twse.com.tw/v1/opendata/t187ap04_L"

def load (body : Bytes) (who : String) : Except Raised Json :=
  match lib.loads body with
  | .ok value => .ok value
  | .error .value => .error (.feedError (who ++ " did not answer JSON"))
  | .error (.other kind message) => .error (.other kind message)

/-- `_roc_moment`. -/
def rocMoment (day time : String) : Except Raised (Option Moment) :=
  let day := lib.strip day
  if lib.isdigit day ∧ 6 ≤ day.length then
    match lib.rocDate day (lib.strip time) with
    | .ok m => .ok (some m)
    | .error .noDate => .ok none
    | .error (.overflow message) => .error (.other "OverflowError" message)
  else .ok none

def rocDay (day : String) : Except Raised String := do
  match ← rocMoment lib day "" with
  | some m => pure (lib.taipeiDay m)
  | none => pure (lib.strip day)

abbrev Row := List (String × String)

/-- A key that comes twice has its last value. -/
def Row.get (row : Row) (key : String) : String := (row.reverse.lookup key).getD ""

def contains (word text : String) : Bool :=
  text.toList.tails.any fun tail => word.toList.isPrefixOf tail

def subjectOf (row : Row) : String := lib.oneLine (Row.get row "主旨")

/-- A row that says nothing, or nothing of what is asked for. -/
def passedOver (codes keywords : List String) (row : Row) : Bool :=
  Row.get row "公司代號" = "" || subjectOf lib row = "" ||
    ((codes ≠ [] || keywords ≠ []) && Row.get row "公司代號" ∉ codes &&
      keywords.all fun w => !contains w (subjectOf lib row))

def twseEntry (codes keywords : List String) (row : Row) : Except Raised (Option FeedEntry) :=
  let code := Row.get row "公司代號"
  let name := Row.get row "公司名稱"
  let subject := subjectOf lib row
  if passedOver lib codes keywords row then .ok none
  else do
    let saidOn := Row.get row "發言日期"
    let moment ← rocMoment lib saidOn (Row.get row "發言時間")
    let stamp := (moment.map lib.stamp).getD saidOn
    let digest ← valueError (lib.sha256 (subject ++ "\n" ++ Row.get row "說明"))
    let digest := first 10 digest
    let query ← valueError (lib.urlencode [("co_id", code), ("at", stamp), ("id", digest)])
    let happened := Row.get row "事實發生日"
    let happened ← if happened = "" then pure "" else rocDay lib happened
    let lines := [name ++ "（" ++ code ++ "）重大訊息：" ++ subject,
      (moment.map fun m => "發言時間：" ++ lib.taipeiTime m ++ "（台北）").getD "",
      (if Row.get row "符合條款" = "" then "" else "符合條款：" ++ Row.get row "符合條款"),
      (if happened = "" then "" else "事實發生日：" ++ happened), "說明：", Row.get row "說明",
      "資料來源：臺灣證券交易所 公開資訊觀測站 上市公司每日重大訊息"]
    pure (some {
      externalId := "twse:" ++ code ++ ":" ++ stamp ++ ":" ++ digest
      url := twseUrl ++ "?" ++ query
      title := name ++ "（" ++ code ++ "）" ++ subject
      summary := some ("\n".intercalate (lines.filter fun l => l ≠ ""))
      publishedAt := moment })

def rowOf : Json → Option Row
  | .dict kvs => some (kvs.map fun (k, v) => (lib.strip k, lib.strip (lib.str v)))
  | _ => none

def words (given : List String) : List String :=
  (given.map lib.strip).filter fun w => w ≠ ""

def parseTwse (body : Bytes) (codes keywords : List String) :
    Except Raised (List FeedEntry) := do
  match ← load lib body "TWSE" with
  | .list rows =>
    let entries ← (rows.filterMap (rowOf lib)).mapM
      (twseEntry lib (words lib codes) (words lib keywords))
    pure (entries.filterMap id)
  | _ => .error (.feedError "TWSE answered something other than a list of announcements")

def isSpace (b : UInt8) : Bool := b = 32 || (9 ≤ b && b ≤ 13)

def field (kvs : List (String × Json)) (key : String) : String :=
  lib.str ((kvs.lookup key).getD .null)

/-- An article is kept when it has a link and a title; a date that cannot be read is none. -/
def gdeltEntry : Json → Except Raised (Option FeedEntry)
  | .dict kvs =>
    let url := field lib kvs "url"
    let title := lib.tidy (field lib kvs "title")
    if isHttp url = false ∨ title = "" then .ok none
    else do
      let published ← match lib.seendate (field lib kvs "seendate") with
        | .ok m => .ok (some m)
        | .error .noDate => .ok none
        | .error (.overflow message) => .error (.other "OverflowError" message)
      let domain := lib.strip (field lib kvs "domain")
      pure (some ⟨url, url, title, if domain = "" then none else some domain, published⟩)
  | _ => .ok none

def parseGdelt (body : Bytes) : Except Raised (List FeedEntry) :=
  if body.all isSpace then .ok []
  else if "Please limit requests".toUTF8.toList.isPrefixOf (body.dropWhile isSpace) then
    .error (.gdeltBusy "GDELT asked for fewer requests")
  else do
    let answer ← load lib body "GDELT"
    let articles := match answer with
      | .dict kvs => some ((kvs.lookup "articles").getD (.list []))
      | _ => none
    match articles with
    | some (.list articles) => do
      let entries ← articles.mapM (gdeltEntry lib)
      pure (entries.filterMap id)
    | _ => .error (.feedError "GDELT answered without a list of articles")

/-! The identity of an item. -/

def rstripSlash (path : String) : String :=
  String.ofList (path.toList.reverse.dropWhile (· = '/')).reverse

def defaultPort (scheme : String) (port : Nat) : Bool :=
  (scheme = "http" && port = 80) || (scheme = "https" && port = 443)

def canonicalUrl (url : String) : Except Raised String := do
  let parts ← valueError (lib.urlsplit (lib.strip url))
  let scheme := lib.lower parts.scheme
  let host := lib.lower parts.hostname
  let port ← valueError parts.port
  let port := port.filter fun p => p ≠ 0 && !defaultPort scheme p
  let host := match port with
    | some p => host ++ ":" ++ toString p
    | none => host
  let query ← valueError
    (lib.urlencode ((lib.parseQsl parts.query).filter fun kv => !lib.tracking kv.1))
  let path := orElse parts.path "/"
  let path := if 1 < path.length then rstripSlash path else path
  pure (lib.urlunsplit scheme host path query)

def contentHash (url title : String) : Except Raised String := do
  let canonical ← canonicalUrl lib url
  valueError (lib.sha256 (canonical ++ "\n" ++ lib.normalize title))

end Autora.Sources
