import Autora.Lib.Untyped

/-! Stories' cover photos: the row of a cover is part of a transaction, the object it names is
kept in a store that no transaction takes back. -/

namespace Autora

namespace Covers

open Untyped

def WIDTH : Nat := 1200
def HEIGHT : Nat := 630
def KEEP_CANDIDATES : Nat := 6

structure Uuid where
  text : Str
  length_eq : text.length = 36
  deriving DecidableEq

structure Photo where
  provider : Str
  id : Str
  pageUrl : Str
  imageUrl : Str
  width : Nat
  height : Nat
  tags : Str
  credit : Str
  kind : Str
  previewUrl : Str
  deriving DecidableEq

inductive CoverState where
  | active
  | removed
  deriving DecidableEq, Repr

structure Alt where
  zhTW : Str
  en : Str
  deriving DecidableEq

/-- A row of one company's covers. -/
structure StoryCover where
  storyId : Uuid
  state : CoverState
  provider : Str
  providerId : Str
  pageUrl : Str
  credit : Str
  key : Str
  url : Str
  width : Nat
  height : Nat
  bytes : Nat
  alt : Alt
  photo : Option Photo
  query : Str
  candidates : List Photo
  runId : Option Nat
  deriving DecidableEq

inductive Failure where
  | libraryError
  | coverError
  | other
  deriving DecidableEq, Repr

abbrev Data := List UInt8

/-- What a call is answered: by the database, the library, the image reader and the store. -/
structure Outside where
  reads : Bool
  download : Photo → Except Failure Data
  search : Str → Nat → Except Failure (List Photo)
  downloadAgain : Photo → Except Failure Data
  cutCover : Data → Except Failure Data
  put : Str → Data → Except Failure Str
  deletes : Bool
  flushes : Bool
  commits : Bool

/-- `c.isalnum()`. -/
abbrev Alnum := Nat → Bool

structure Stored where
  key : Str
  url : Str
  width : Nat
  height : Nat
  size : Nat

variable (isAlnum : Alnum)

/-- The photos another of the company's stories has as its cover. -/
def usedElsewhere (covers : List StoryCover) (story : Option Uuid) (photos : List Photo) :
    List Str :=
  (covers.filter fun r => r.providerId ∈ photos.map (·.id) ∧ r.state = .active ∧
    story.all (r.storyId ≠ ·)).map (·.providerId)

def coverOf (covers : List StoryCover) (story : Uuid) : Option StoryCover :=
  covers.find? fun r => r.storyId = story

def keyOf (story : Uuid) (photo : Photo) : Str :=
  let safe := photo.id.map fun c => if isAlnum c ∨ c = 45 ∨ c = 95 then c else 45
  lit "covers/" ++ story.text ++ lit "/" ++ photo.provider ++ lit "-" ++ safe ++ lit ".webp"

/-- `_store`: where the photo now is. -/
def store (out : Outside) (story : Uuid) (photo : Photo) (data : Option Data) :
    Except Failure Stored :=
  let given : Except Failure Data := match data with
    | some data => .ok data
    | none => out.download photo
  match given with
  | .error e => .error e
  | .ok data => match out.cutCover data with
    | .error e => .error e
    | .ok webp => match out.put (keyOf isAlnum story photo) webp with
      | .error e => .error e
      | .ok url => .ok ⟨keyOf isAlnum story photo, url, WIDTH, HEIGHT, webp.length⟩

/-- `_forget`: a refusal is of no matter. -/
def forget (out : Outside) (key : Str) (objects : List Str) : List Str :=
  if out.deletes then objects.filter (· ≠ key) else objects

/-- The objects after a new one is stored and the old one forgotten. -/
def exchange (out : Outside) (old : Option Str) (key : Str) (objects : List Str) : List Str :=
  match old with
  | none => key :: objects
  | some old => if old ≠ key then forget out old (key :: objects) else key :: objects

/-- `_show`. -/
def StoryCover.show_ (row : StoryCover) (photo : Photo) (s : Stored) : StoryCover :=
  { row with
    provider := photo.provider
    providerId := photo.id
    pageUrl := photo.pageUrl
    credit := photo.credit
    photo := some photo
    key := s.key
    url := s.url
    width := s.width
    height := s.height
    bytes := s.size }

/-- The arguments of `set_cover`. -/
structure Choice where
  storyId : Uuid
  photo : Photo
  candidates : List Photo
  alt : Alt
  query : Str
  runId : Option Nat
  data : Option Data

/-- A new row: what is not given here is written before it is stored. -/
def newCover (story : Uuid) : StoryCover :=
  ⟨story, .active, [], [], [], [], [], [], 0, 0, 0, ⟨[], []⟩, none, [], [], none⟩

/-- The row `set_cover` writes. -/
def Choice.shown (c : Choice) (row : Option StoryCover) (s : Stored) : StoryCover :=
  { (row.getD (newCover c.storyId)).show_ c.photo s with
    alt := c.alt
    query := c.query
    runId := c.runId
    candidates := (c.candidates.filter fun p => p.id ≠ c.photo.id).take KEEP_CANDIDATES }

def setCover (out : Outside) (covers : List StoryCover) (objects : List Str) (c : Choice) :
    Except Failure StoryCover × List Str :=
  if out.reads = false then (.error .other, objects)
  else
    let row := coverOf covers c.storyId
    if row.any fun r => r.state = .removed then (.error .coverError, objects)
    else match row.filter fun r => r.provider = c.photo.provider ∧ r.providerId = c.photo.id with
      | some same => (.ok same, objects)
      | none =>
        if usedElsewhere covers (some c.storyId) [c.photo] ≠ [] then (.error .coverError, objects)
        else match store isAlnum out c.storyId c.photo c.data with
          | .error e => (.error e, objects)
          | .ok s =>
            (if out.flushes then .ok (c.shown row s) else .error .other,
              exchange out (row.map (·.key)) s.key objects)

/-- `{p.id: p for p in found}.get(id)` -/
def freshOf (found : List Photo) (id : Str) : Option Photo := found.reverse.find? fun p => p.id = id

/-- The `i`-th candidate downloaded; where its link is too old, the list is looked up again. -/
def fetch (out : Outside) (row : StoryCover) (photo : Photo) (i : Nat) :
    Except Failure (StoryCover × Photo × Data) :=
  match out.download photo with
  | .ok data => .ok (row, photo, data)
  | .error .libraryError => match out.search row.query 20 with
    | .error e => .error e
    | .ok found =>
      if (freshOf found photo.id).isNone then .error .coverError
      else
        let renew := fun p : Photo => (freshOf found p.id).getD p
        let row := { row with
          candidates := row.candidates.map renew
          photo := row.photo.map renew }
        match row.candidates[i]? with
        | none => .error .other
        | some photo => match out.downloadAgain photo with
          | .error e => .error e
          | .ok data => .ok (row, photo, data)
  | .error e => .error e

/-- The row `swap_cover` writes. -/
def StoryCover.swapped (row : StoryCover) (photo : Photo) (i : Nat) (s : Stored) : StoryCover :=
  { row.show_ photo s with
    candidates := row.candidates.eraseIdx i ++ row.photo.toList
    alt := ⟨lit "示意圖：" ++ photo.tags, lit "Illustration: " ++ photo.tags⟩
    state := .active }

/-- The first candidate that no other story shows. -/
def nextFree (covers : List StoryCover) (row : StoryCover) : Option (Photo × Nat) :=
  let taken := usedElsewhere covers (some row.storyId) row.candidates
  row.candidates.zipIdx.find? fun (p, _) => p.id ∉ taken

/-- The photo a swap will show, downloaded and stored. -/
def prepared (out : Outside) (covers : List StoryCover) (row : StoryCover) :
    Except Failure (StoryCover × Stored) :=
  match nextFree covers row with
  | none => .error .coverError
  | some (photo, i) => match fetch out row photo i with
    | .error e => .error e
    | .ok (row, photo, data) => match store isAlnum out row.storyId photo (some data) with
      | .error e => .error e
      | .ok s => .ok (row.swapped photo i s, s)

def swapCover (out : Outside) (covers : List StoryCover) (objects : List Str) (row : StoryCover) :
    Except Failure StoryCover × List Str :=
  if out.reads = false then (.error .other, objects)
  else match prepared isAlnum out covers row with
    | .error e => (.error e, objects)
    | .ok (row', s) => (if out.flushes then .ok row' else .error .other,
        exchange out (some row.key) s.key objects)

def removeCover (out : Outside) (objects : List Str) (row : StoryCover) :
    Except Failure StoryCover × List Str :=
  (if out.flushes then .ok { row with state := .removed } else .error .other,
    forget out row.key objects)

/-! One transaction after another. -/

structure World where
  covers : List StoryCover
  objects : List Str

inductive Call where
  | set (choice : Choice) (out : Outside)
  | swap (story : Uuid) (out : Outside)
  | remove (story : Uuid) (out : Outside)

/-- A cover's row written over the story's old one, or added. -/
def write (row : StoryCover) (covers : List StoryCover) : List StoryCover :=
  if covers.any fun r => r.storyId = row.storyId then
    covers.map fun r => if r.storyId = row.storyId then row else r
  else covers ++ [row]

/-- What is committed of a call's outcome; the objects are as the call left them. -/
def World.after (w : World) (out : Outside) : Except Failure StoryCover × List Str → World
  | (.error _, objects) => ⟨w.covers, objects⟩
  | (.ok row, objects) => ⟨if out.commits then write row w.covers else w.covers, objects⟩

def call (w : World) : Call → World
  | .set choice out => w.after out (setCover isAlnum out w.covers w.objects choice)
  | .swap story out => match coverOf w.covers story with
    | none => w
    | some row => w.after out (swapCover isAlnum out w.covers w.objects row)
  | .remove story out => match coverOf w.covers story with
    | none => w
    | some row => w.after out (removeCover out w.objects row)

end Covers

end Autora
