import Mathlib.Data.List.Sort
import Autora.Lib.Untyped

/-! Clustering source items into stories: the items of a run are matched one by one, by their URL
first and by meaning second. -/

namespace Autora

namespace Clusters

open Untyped

/-- Microseconds. -/
abbrev Time := Int

def HOUR : Time := 3600000000

/-- The first and the last moment of a `datetime`. -/
def MIN_TIME : Time := 0
def MAX_TIME : Time := 315537897599999999

def PENDING_WINDOW : Time := 7 * 24 * HOUR
def MATCH_WINDOW : Time := 30 * 24 * HOUR

/-- The largest number of an `INTEGER`. -/
def MAX_INTEGER : Nat := 2 ^ 31 - 1

structure Source where
  companyId : Nat
  /-- `config.own_story` and `config.match_hours`. -/
  ownStory : Bool
  matchHours : Option Nat
  deriving DecidableEq, Repr

structure SourceItem where
  companyId : Nat
  sourceId : Nat
  externalId : Str
  url : Str
  title : Str
  summary : Option Str
  publishedAt : Option Time
  createdAt : Time
  contentHash : Str
  deriving DecidableEq, Repr

/-- Both ways to start a story give it an embedding and the model's name. -/
structure Story (V : Type) where
  companyId : Nat
  title : Str
  summary : Option Str
  firstSeenAt : Time
  lastItemAt : Time
  itemsCount : Nat
  sourcesCount : Nat
  embedding : V
  embeddingModel : Str

structure StoryItem where
  storyId : Nat
  sourceItemId : Nat
  companyId : Nat
  similarity : Option Rat
  deriving DecidableEq, Repr

/-- A row's id is its place in its table. -/
structure Tables (V : Type) where
  sources : List Source
  items : List SourceItem
  stories : List (Story V)
  storyItems : List StoryItem

/-- Vectors of the embedding model; a similarity may be no number. -/
structure Vectors (V : Type) where
  normalized : V → V
  /-- `[o * count + v for o, v in zip(old, vector)]`. -/
  blend : V → Nat → V → V
  similarity : V → V → Option Rat
  rounded : Rat → Rat

structure StoryDesk (V : Type) where
  vectors : Vectors V
  modelId : Str
  threshold : Rat
  batchSize : Nat

/-- What a run is answered: the embeddings, the order of rows that tie, which row of several
`LIMIT 1` gives, and which candidate the index finds nearest, if any. -/
structure Answers (V : Type) where
  embed : Str → V
  tie : Nat → Nat
  anyOf : List Nat → Nat
  nearest : V → List Nat → Nat

inductive RunError where
  /-- A moment beyond the years 1 to 9999. -/
  | overflowError
  /-- A number beyond the column's type. -/
  | dataError
  deriving DecidableEq, Repr

variable {V : Type}

def SourceItem.seenAt (item : SourceItem) : Time := item.publishedAt.getD item.createdAt

def textOf (item : SourceItem) : Str :=
  match item.summary with
  | none => item.title
  | some [] => item.title
  | some summary => item.title ++ [10] ++ summary

namespace Tables

variable (t : Tables V)

def ownStory (item : SourceItem) : Bool := (t.sources[item.sourceId]?).any (·.ownStory)

def matchHours (item : SourceItem) : Option Nat := (t.sources[item.sourceId]?).bind (·.matchHours)

def hasStory (i : Nat) : Bool := t.storyItems.any fun si => si.sourceItemId = i

/-- The items of a company that are in no story yet, from the window on, with their ids. -/
def pending (company : Nat) (now : Time) : List (SourceItem × Nat) :=
  t.items.zipIdx.filter fun (item, i) =>
    item.companyId = company && !t.hasStory i && decide (now - PENDING_WINDOW ≤ item.createdAt)

/-- The stories of the company's other items with this URL. -/
def sameUrl (company : Nat) (x : SourceItem × Nat) : List Nat :=
  t.storyItems.filterMap fun si => (t.items[si.sourceItemId]?).bind fun other =>
    if other.companyId = company ∧ other.url = x.1.url ∧ si.sourceItemId ≠ x.2 then
      some si.storyId else none

/-- When the first item of a story was seen. -/
def firstSeen (s : Nat) : Option Time :=
  (t.storyItems.filterMap fun si =>
    if si.storyId = s then (t.items[si.sourceItemId]?).map (·.seenAt) else none).min?

/-- The stories an item may join by meaning. -/
def candidates (modelId : Str) (company : Nat) (now : Time) (window : Option (Time × Time)) :
    List (Story V × Nat) :=
  t.stories.zipIdx.filter fun (story, s) =>
    story.companyId = company && story.embeddingModel = modelId &&
      decide (now - MATCH_WINDOW ≤ story.lastItemAt) &&
      window.all fun (since, until_) => (t.firstSeen s).any fun first =>
        decide (since ≤ first) && decide (first ≤ until_)

end Tables

/-- `order_by(coalesce(published_at, created_at), created_at)`, ties as the database has them. -/
def before (tie : Nat → Nat) (x y : SourceItem × Nat) : Prop :=
  x.1.seenAt < y.1.seenAt ∨ x.1.seenAt = y.1.seenAt ∧
    (x.1.createdAt < y.1.createdAt ∨ x.1.createdAt = y.1.createdAt ∧ tie x.2 ≤ tie y.2)

instance (tie : Nat → Nat) : DecidableRel (before tie) :=
  fun _ _ => inferInstanceAs (Decidable (_ ∨ _))

namespace StoryDesk

variable (desk : StoryDesk V)

/-- The items a run takes. -/
def batch (company : Nat) (now : Time) (answers : Answers V) (t : Tables V) :
    List (SourceItem × Nat) :=
  ((t.pending company now).insertionSort (before answers.tie)).take desk.batchSize

/-- The span of time in which a story must have begun; none where the source asks for none. -/
def window (t : Tables V) (item : SourceItem) : Except RunError (Option (Time × Time)) :=
  match t.matchHours item with
  | none => .ok none
  | some hours =>
    let span := hours * HOUR
    if item.seenAt - span < MIN_TIME ∨ MAX_TIME < item.seenAt + span then .error .overflowError
    else .ok (some (item.seenAt - span, item.seenAt + span))

/-- `_match`: the story an item joins and how close it is. -/
def match_ (company : Nat) (now : Time) (answers : Answers V) (x : SourceItem × Nat) (vector : V)
    (t : Tables V) : Except RunError (Option (Nat × Rat)) :=
  let same := t.sameUrl company x
  match same[answers.anyOf same % same.length]? with
  | some s => .ok (some (s, 1))
  | none =>
    if t.ownStory x.1 then .ok none
    else match window t x.1 with
      | .error e => .error e
      | .ok span =>
        let found := t.candidates desk.modelId company now span
        match found[answers.nearest vector (found.map Prod.snd)]? with
        | none => .ok none
        | some (story, s) => match desk.vectors.similarity story.embedding vector with
          | none => .ok none
          | some close => if desk.threshold ≤ close then .ok (some (s, desk.vectors.rounded close))
            else .ok none

def newStory (company : Nat) (now : Time) (title : Str) (summary : Option Str) (lastItemAt : Time)
    (vector : V) : Story V where
  companyId := company
  title := title.take 500
  summary := summary
  firstSeenAt := now
  lastItemAt := lastItemAt
  itemsCount := 0
  sourcesCount := 0
  embedding := desk.vectors.normalized vector
  embeddingModel := desk.modelId

/-- The story moves towards a vector that joins it. -/
def drawn (vector : V) (seenAt : Time) (story : Story V) : Story V :=
  { story with
    embedding := desk.vectors.normalized
      (desk.vectors.blend story.embedding story.itemsCount vector)
    lastItemAt := max story.lastItemAt seenAt }

/-- The item joins its story, which is new when none was found. -/
def join (company : Nat) (now : Time) (x : SourceItem × Nat) (vector : V)
    (found : Option (Nat × Rat)) (t : Tables V) : Nat × Tables V :=
  let seenAt := x.1.publishedAt.getD now
  let s := match found with
    | none => t.stories.length
    | some (s, _) => s
  let stories := match found with
    | none => t.stories ++ [desk.newStory company now x.1.title x.1.summary seenAt vector]
    | some _ => t.stories.modify s (desk.drawn vector seenAt)
  (s, { t with
    stories := stories.modify s fun story => { story with itemsCount := story.itemsCount + 1 }
    storyItems := t.storyItems ++ [⟨s, x.2, company, found.map Prod.snd⟩] })

/-- The loop of a run: which item joined which story. -/
def clusterItems (company : Nat) (now : Time) (answers : Answers V) :
    List (SourceItem × Nat) → Tables V → Except RunError (List (Nat × Nat) × Tables V)
  | [], t => .ok ([], t)
  | x :: xs, t =>
    let vector := answers.embed (textOf x.1)
    match desk.match_ company now answers x vector t with
    | .error e => .error e
    | .ok found =>
      let (s, t') := desk.join company now x vector found t
      match clusterItems company now answers xs t' with
      | .error e => .error e
      | .ok (joined, t'') => .ok ((x.2, s) :: joined, t'')

/-- The distinct sources of a story; its score is left out. -/
def rescore (t : Tables V) (s : Nat) : Tables V :=
  let sourceIds := t.storyItems.filterMap fun si =>
    if si.storyId = s then (t.items[si.sourceItemId]?).map (·.sourceId) else none
  { t with stories := t.stories.modify s fun story =>
      { story with sourcesCount := sourceIds.dedup.length } }

/-- `cluster_pending`. -/
def clusterPending (company : Nat) (now : Time) (answers : Answers V) (t : Tables V) :
    Except RunError (List (Nat × Nat) × Tables V) :=
  let items := desk.batch company now answers t
  if items.any fun x => (t.matchHours x.1).any fun hours => MAX_INTEGER < hours then
    .error .dataError
  else match desk.clusterItems company now answers items t with
    | .error e => .error e
    | .ok (joined, t') => .ok (joined, ((joined.map Prod.snd).dedup).foldl rescore t')

/-- `create`: a story someone starts by hand. -/
def create (company : Nat) (now : Time) (title : Str) (summary : Option Str) (vector : V)
    (t : Tables V) : Tables V :=
  let stories := t.stories ++ [desk.newStory company now title summary now vector]
  rescore { t with stories } t.stories.length

end StoryDesk

/-- A poll keeps one row for each `external_id` and one for each `content_hash` of a source. -/
def insertItem (t : Tables V) (item : SourceItem) : Tables V :=
  if t.items.any fun other => other.sourceId = item.sourceId ∧
      (other.contentHash = item.contentHash ∨ other.externalId = item.externalId) then t
  else { t with items := t.items ++ [item] }

/-! One call after another. -/

inductive Call (V : Type) where
  /-- Sources are added and their settings changed. -/
  | sources (sources : List Source)
  | poll (found : List SourceItem)
  | create (company : Nat) (now : Time) (title : Str) (summary : Option Str) (vector : V)
  | cluster (company : Nat) (now : Time) (answers : Answers V)

/-- What a call leaves, and for a run which item joined which story; a run that raises is rolled
back. -/
def call (desk : StoryDesk V) (t : Tables V) :
    Call V → Except RunError (List (Nat × Nat)) × Tables V
  | .sources sources => (.ok [], { t with sources })
  | .poll found => (.ok [], found.foldl insertItem t)
  | .create company now title summary vector =>
    (.ok [], desk.create company now title summary vector t)
  | .cluster company now answers => match desk.clusterPending company now answers t with
    | .error e => (.error e, t)
    | .ok (joined, t') => (.ok joined, t')

end Clusters

end Autora
