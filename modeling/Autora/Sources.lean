import Autora.Lib.Systems
import Autora.Feeds

/-! `SourcePoller`: the sources that are due are all read first, then each one's answer is
written, in one transaction. -/

namespace Autora.Sources

open Systems

inductive SourceKind where
  | rss (url : String)
  | urlList (urls : List String)
  | searchQuery (query : String) (k : Nat) (recencyDays : Option Nat) (domains : List String)
  | twseAnnouncements (url : Option String) (codes keywords : List String)
  | gdelt (query : String) (maxrecords : Nat) (timespan : String)
  deriving DecidableEq, Repr

inductive SourceStatus where
  | active
  | paused
  deriving DecidableEq, Repr

/-- A failed poll, by the class of the error and its message. -/
structure PollError where
  busy : Bool
  text : String
  deriving DecidableEq, Repr

/-- `poll_interval_seconds` is kept at a minute or more by the table. -/
structure Source where
  companyId : Id
  kind : SourceKind
  titlePrefix : String
  maxAgeDays : Option Nat
  pollIntervalSeconds : Nat
  interval : 60 ≤ pollIntervalSeconds
  status : SourceStatus
  nextPollAt : Moment
  lastPolledAt : Option Moment
  consecutiveFailures : Nat
  lastError : Option PollError
  deriving DecidableEq, Repr

structure SourceItem where
  companyId : Id
  sourceId : Id
  externalId : String
  url : String
  title : String
  summary : Option String
  publishedAt : Option Moment
  contentHash : String
  deriving DecidableEq, Repr

inductive Event where
  | itemDiscovered (sourceId : Id) (url title : String)
  | polled (sourceId : Id) (count seen : Nat) (costUsd : Option Rat) (error : Option PollError)
  | paused (sourceId : Id) (reason : String) (failures : Nat)
  deriving DecidableEq, Repr

/-- A row's id is its place in its table. -/
structure Newswire where
  sources : List Source
  items : List SourceItem
  events : List Event
  deriving DecidableEq, Repr

structure SearchResult where
  url : String
  title : String
  snippet : String
  publishedAt : Option Moment
  deriving DecidableEq, Repr

structure SearchResponse where
  results : List SearchResult
  costUsd : Rat
  deriving DecidableEq, Repr

/-- What the network answers: each source's page or the error its fetch raises, with whether it
was a 429, and each query's results. -/
structure Answers where
  fetch : Id → Except (Raised × Bool) Bytes
  search : Id → Except Raised SearchResponse

structure SourcePoller where
  lib : Library
  /-- A text the database takes. -/
  storable : String → Bool
  maxItems : Nat
  pauseAfter : Nat
  positive : 0 < pauseAfter
  batchSize : Nat

structure Gathered where
  entries : List FeedEntry
  costUsd : Option Rat
  error : Option PollError
  deriving DecidableEq, Repr

section

variable (poller : SourcePoller) (answers : Answers)

def fetched (id : Id) : Except Raised Bytes :=
  match answers.fetch id with
  | .ok body => .ok body
  | .error (e, _) => .error e

/-- `_gdelt`: a 429 is a request to ask less often. -/
def gdelt (id : Id) : Except Raised (List FeedEntry) := do
  let body ← match answers.fetch id with
    | .ok body => .ok body
    | .error (_, true) => .error (.gdeltBusy "GDELT answered 429: asked for fewer requests")
    | .error (e, false) => .error e
  let entries ← parseGdelt poller.lib body
  entries.mapM fun e => do
    let canonical ← canonicalUrl poller.lib e.url
    pure { e with externalId := canonical }

def searchEntry (r : SearchResult) : Except Raised FeedEntry := do
  let canonical ← canonicalUrl poller.lib r.url
  pure ⟨canonical, r.url, r.title, if r.snippet = "" then none else some r.snippet,
    r.publishedAt⟩

/-- The entries of a source and what they cost. -/
def read (id : Id) (source : Source) : Except Raised (List FeedEntry × Option Rat) :=
  match source.kind with
  | .rss _ => do
    let body ← fetched answers id
    pure (← parseFeed poller.lib body, none)
  | .twseAnnouncements _ codes keywords => do
    let body ← fetched answers id
    pure (← parseTwse poller.lib body codes keywords, none)
  | .gdelt _ _ _ => do pure (← gdelt poller answers id, none)
  | .urlList urls => do
    let urls ← urls.mapM (canonicalUrl poller.lib)
    pure (urls.dedup.map fun u => ⟨u, u, u, none, none⟩, none)
  | .searchQuery _ _ _ _ => do
    let response ← answers.search id
    let entries ← response.results.mapM (searchEntry poller)
    pure (entries, if response.costUsd = 0 then none else some response.costUsd)

/-- `_gather`: the errors it knows become the answer, and every other one is raised. -/
def gather (id : Id) (source : Source) : Except Raised Gathered :=
  match read poller answers id source with
  | .ok (entries, cost) => .ok ⟨entries, cost, none⟩
  | .error (.gdeltBusy m) => .ok ⟨[], none, some ⟨true, "GdeltBusy: " ++ m⟩⟩
  | .error (.fetchError m) => .ok ⟨[], none, some ⟨false, first 500 ("FetchError: " ++ m)⟩⟩
  | .error (.feedError m) => .ok ⟨[], none, some ⟨false, first 500 ("FeedError: " ++ m)⟩⟩
  | .error (.searchError m) => .ok ⟨[], none, some ⟨false, first 500 ("SearchError: " ++ m)⟩⟩
  | .error (.other kind m) => .error (.other kind m)

def emit (e : Event) (w : Newswire) : Newswire := { w with events := w.events ++ [e] }

def setSource (id : Id) (f : Source → Source) (w : Newswire) : Newswire :=
  { w with sources := w.sources.modify id f }

def dayMicros : Int := 86400000000

/-- `datetime.min`. -/
def earliest : Moment := -62135596800000000

/-- `now - timedelta(days=max_age)`; there is no date before the first one. -/
def oldest (source : Source) (now : Moment) : Except Raised (Option Moment) :=
  match source.maxAgeDays with
  | none => .ok none
  | some 0 => .ok none
  | some days =>
    if now - days * dayMicros < earliest then .error (.other "OverflowError" "date value out of range")
    else .ok (some (now - days * dayMicros))

def published (e : FeedEntry) : Moment := e.publishedAt.getD earliest

/-- The entries a poll writes: not too old, newest first, at most `max_items` of them. -/
def newestFirst (oldest : Option Moment) (entries : List FeedEntry) : List FeedEntry :=
  ((entries.filter fun e => match oldest, e.publishedAt with
    | some o, some p => o ≤ p
    | _, _ => true).mergeSort fun a b => decide (published b ≤ published a)).take poller.maxItems

def titleOf (source : Source) (e : FeedEntry) : String :=
  if source.titlePrefix = "" then e.title
  else first 1000 (source.titlePrefix ++ " " ++ e.title)

/-- The row of an entry, or what its link and its texts raise. -/
def rowOfEntry (id : Id) (source : Source) (e : FeedEntry) : Except Raised SourceItem := do
  let url ← canonicalUrl poller.lib e.url
  let title := titleOf source e
  let hash ← contentHash poller.lib url title
  if poller.storable e.externalId ∧ poller.storable url ∧ poller.storable title ∧
      e.summary.all poller.storable then
    pure ⟨source.companyId, id, e.externalId, url, title, e.summary, e.publishedAt, hash⟩
  else .error (.other "DBAPIError" "invalid byte sequence")

/-- The unique constraints of a source's items. -/
def clashes (a b : SourceItem) : Bool :=
  a.sourceId = b.sourceId && (a.externalId = b.externalId || a.contentHash = b.contentHash)

/-- `INSERT … ON CONFLICT DO NOTHING`, and the event of a row that was inserted. -/
def insert (item : SourceItem) (w : Newswire) : Newswire :=
  if w.items.any (clashes item) then w
  else emit (.itemDiscovered item.sourceId item.url (first 300 item.title))
    { w with items := w.items ++ [item] }

def insertAll (id : Id) (source : Source) :
    List FeedEntry → Newswire → Except Raised Newswire
  | [], w => .ok w
  | e :: rest, w => do
    let item ← rowOfEntry poller id source e
    insertAll id source rest (insert item w)

def Source.polledAt (now : Moment) (s : Source) : Source :=
  { s with
    lastPolledAt := some now
    nextPollAt := now + s.pollIntervalSeconds * 1000000 }

def Source.failed (error : PollError) (s : Source) : Source :=
  { s with
    consecutiveFailures := if error.busy then s.consecutiveFailures else s.consecutiveFailures + 1
    lastError := some error }

def Source.succeeded (s : Source) : Source :=
  { s with consecutiveFailures := 0, lastError := none }

/-- A poll that failed. -/
def applyError (id : Id) (source : Source) (error : PollError) (w : Newswire) : Newswire :=
  let failures := (source.failed error).consecutiveFailures
  let w := setSource id (Source.failed error) w
  let w := emit (.polled id 0 0 none (some error)) w
  if poller.pauseAfter ≤ failures then
    emit (.paused id (first 500 (toString failures ++ " failed polls in a row; last: " ++
      error.text)) failures)
      (setSource id (fun s => { s with status := .paused }) w)
  else w

/-- `_apply`. -/
def apply (id : Id) (source : Source) (g : Gathered) (now : Moment) (w : Newswire) :
    Except Raised Newswire :=
  let w := setSource id (Source.polledAt now) w
  match g.error with
  | some error => .ok (applyError poller id source error w)
  | none => do
    let w := setSource id Source.succeeded w
    let oldest ← oldest source now
    let before := w.items.length
    let w ← insertAll poller id source (newestFirst poller oldest g.entries) w
    pure (emit (.polled id (w.items.length - before) g.entries.length g.costUsd none) w)

def applyAll (now : Moment) : List ((Id × Source) × Gathered) → Newswire → Except Raised Newswire
  | [], w => .ok w
  | ((id, source), g) :: rest, w => do
    let w ← apply poller id source g now w
    applyAll now rest w

/-- The sources a poll takes: active and due, those due first before the others. -/
def due (w : Newswire) (company : Id) (now : Moment) : List (Id × Source) :=
  ((w.sources.zipIdx.filterMap fun (s, i) =>
    if s.companyId = company ∧ s.status = .active ∧ s.nextPollAt ≤ now then some (i, s)
    else none).mergeSort fun a b => decide (a.2.nextPollAt ≤ b.2.nextPollAt)).take poller.batchSize

/-- `poll_due`: `now` when the sources are chosen, `later` when the answers are there. -/
def pollDue (company : Id) (now later : Moment) (w : Newswire) : Except Raised Newswire := do
  let sources := due poller w company now
  let gathered ← sources.mapM fun x => gather poller answers x.1 x.2
  applyAll poller later (sources.zip gathered) w

end

/-! Runs. -/

inductive Act where
  | addSource (source : Source)
  | configure (id : Id) (given : Source)
  | pollDue (company : Id) (now later : Moment) (answers : Answers)

/-- What a source is, told anew; its history stays. -/
def Source.configured (given s : Source) : Source :=
  { s with
    kind := given.kind
    titlePrefix := given.titlePrefix
    maxAgeDays := given.maxAgeDays
    pollIntervalSeconds := given.pollIntervalSeconds
    interval := given.interval }

/-- A source is added active and never polled. A poll that raises is rolled back. -/
def step (poller : SourcePoller) (w : Newswire) : Act → Option Newswire
  | .addSource s =>
    if s.status = .active ∧ s.consecutiveFailures = 0 ∧ s.lastPolledAt = none then
      some { w with sources := w.sources ++ [s] }
    else none
  | .configure id given => some (setSource id (Source.configured given) w)
  | .pollDue company now later answers =>
    if now ≤ later then
      match pollDue poller answers company now later w with
      | .ok t => some t
      | .error _ => some w
    else none

end Autora.Sources
