import Mathlib.Data.String.Basic
import Autora.Feeds
import Autora.OfficialTrades

/-! Investors' 13F filings: the filer's list and the information tables read, two quarters
compared, and the run that replaces each source's positions. -/

namespace Autora.Disclosures

open Untyped Loops
open Sources (Element XmlError occurs doctype entity)
open Models (storable)

/-- What `int(Decimal(text))` meets. -/
inductive Numeral where
  | whole (n : Int)
  | invalid
  | infinite
  | nan
  -- an exponent no memory holds
  | tooLarge
  deriving DecidableEq, Repr

structure FilingLibrary extends Library where
  /-- `json.loads`. -/
  loads : Bytes → Except Error Value
  /-- `ElementTree.fromstring`. -/
  fromstring : Bytes → Except XmlError Element
  /-- `date.fromisoformat`. -/
  fromIso : Str → Option Date
  decimal : String → Numeral
  /-- `Decimal(value) / amount`, rounded; `none` where it overflows. -/
  quotient : Int → Int → Option Rat
  stripText : String → String
  upperText : String → String

variable (lib : FilingLibrary)

/-! ## The filer's list of filings -/

structure ListedFiling where
  cik : Str
  accession : Str
  form : Value
  filed : Date
  period : Option Date

structure Filer where
  cik : Str
  name : Str
  filings : List ListedFiling

/-- `_ACCESSION`: ten digits, two and six; a line's end may follow. -/
def isAccession (text : Str) : Bool :=
  let text := if text.getLast? = some 10 then text.dropLast else text
  text.length = 20 && (text.take 10).all lib.isDigit && text[10]? = some 45 &&
    ((text.drop 11).take 2).all lib.isDigit && text[13]? = some 45 && (text.drop 14).all lib.isDigit

def isoDateOf : Value → Except Error Date
  | .str s => match lib.fromIso s with
    | some date => .ok date
    | none => .error .valueError
  | _ => .error .typeError

def filingOf (cik : Str) (accession form filed period : Value) :
    Except Error (Option ListedFiling) :=
  match accession with
  | .str a =>
    if isAccession lib a = true then do
      let filedOn ← isoDateOf lib filed
      let endedOn ← if period.truthy = true then some <$> isoDateOf lib period else pure none
      pure (some ⟨cik, a, form, filedOn, endedOn⟩)
    else pure none
  | _ => .error .typeError

def column (recent : Value) (name : String) : Except Error (List Value) := do
  let values ← recent.item (lit name)
  values.iter

/-- `zip(..., strict=True)`, of the four columns. -/
def listedFilings (cik : Str) (recent : Value) : Except Error (List ListedFiling) := do
  let accessions ← column recent "accessionNumber"
  let forms ← column recent "form"
  let filed ← column recent "filingDate"
  let periods ← column recent "reportDate"
  if accessions.length = forms.length ∧ forms.length = filed.length ∧
      filed.length = periods.length then do
    let filings ← (accessions.zip (forms.zip (filed.zip periods))).mapM fun row =>
      filingOf lib cik row.1 row.2.1 row.2.2.1 row.2.2.2
    pure (filings.filterMap id)
  else .error .valueError

def filerOf (body : Bytes) : Except Error Filer := do
  let data ← lib.loads body
  let filings ← data.item (lit "filings")
  let recent ← filings.item (lit "recent")
  let number ← data.item (lit "cik")
  let n ← intOfValue lib.toLibrary number
  let cik := lit (toString n)
  let listed ← listedFilings lib cik recent
  let name ← data.item (lit "name")
  pure ⟨cik, asText lib.toLibrary name, listed⟩

def parseSubmissions (body : Bytes) : Except Raised Filer :=
  match filerOf lib body with
  | .ok filer => .ok filer
  | .error .keyError | .error .typeError | .error .valueError => .error .filingError
  | .error e => .error (.of e)

/-- An original 13F-HR, with the period it reports. -/
def original (f : ListedFiling) : Option (Date × ListedFiling) :=
  match f.form with
  | .str form => if form = lit "13F-HR" then f.period.map (·, f) else none
  | _ => none

/-- `max(..., key=(period, filed))`: the first of the greatest. -/
def latest : List (Date × ListedFiling) → Option (Date × ListedFiling)
  | [] => none
  | x :: xs => some (xs.foldl (fun best y =>
      if best.1 < y.1 ∨ best.1 = y.1 ∧ best.2.filed < y.2.filed then y else best) x)

/-- The latest filing of each filer, one more looked at. -/
def choose : List ListedFiling → ListedFiling → List ListedFiling
  | [], f => [f]
  | g :: chosen, f =>
    if g.cik = f.cik then (if g.filed < f.filed then f else g) :: chosen else g :: choose chosen f

def previousQuarter (period : Date) (filers : List Filer) : List ListedFiling :=
  let earlier := (filers.flatMap fun filer => filer.filings.filterMap original).filter fun f =>
    f.1 < period
  match (earlier.map Prod.fst).max? with
  | none => []
  | some last =>
    let chosen := (earlier.filter fun f => f.1 = last).foldl (fun chosen f => choose chosen f.2) []
    chosen.mergeSort fun f g => !decide (g.cik < f.cik)

/-! ## One filing's holdings -/

structure Position where
  name : String
  titleOfClass : String
  cusip : String
  putCall : String
  kind : String
  amount : Int
  value : Int
  deriving DecidableEq

def Position.key (p : Position) : String × String × String := (p.cusip, p.putCall, p.kind)

structure Holdings where
  manager : String
  reportType : String
  positions : List Position
  inThousands : Bool
  deriving DecidableEq

def Holdings.totalValue (h : Holdings) : Int := (h.positions.map Position.value).sum

/-- Rows for the same position are added up. -/
def addUp : List Position → Position → List Position
  | [], p => [p]
  | held :: rest, p =>
    if held.key = p.key then
      { held with amount := held.amount + p.amount, value := held.value + p.value } :: rest
    else held :: addUp rest p

def matchesTag (tag : String) (text : Bytes) : Bool :=
  let tag := tag.toUTF8.toList
  tag.isPrefixOf ((text.take tag.length).map Sources.upper)

def isBlank (b : UInt8) : Bool := b = 32 || (9 ≤ b && b ≤ 13)

/-- What stands before the next closing tag, and what follows it. -/
def untilClosed : Bytes → Option (Bytes × Bytes)
  | [] => none
  | b :: text =>
    if matchesTag "</XML>" (b :: text) then some ([], (b :: text).drop 6)
    else (untilClosed text).map fun block => (b :: block.1, block.2)

def blocksFrom : Nat → Bytes → List Bytes
  | 0, _ | _, [] => []
  | n + 1, b :: text =>
    if matchesTag "<XML>" (b :: text) then
      match untilClosed ((b :: text).drop 5) with
      | some (block, rest) => (block.dropWhile isBlank).rdropWhile isBlank :: blocksFrom n rest
      | none => []
    else blocksFrom n text

/-- `_XML_BLOCK.findall`. -/
def xmlBlocks (body : Bytes) : List Bytes := blocksFrom body.length body

/-- `_parse_xml`. -/
def parseXml (block : Bytes) : Except Raised Element :=
  if occurs doctype (block.map Sources.upper) ∨ occurs entity (block.map Sources.upper) then
    .error .filingError
  else match lib.fromstring block with
    | .ok root => .ok root
    | .error (.parse _) => .error .filingError
    | .error (.other kind _) => .error (.other kind)

/-- `_local`: the tag without its namespace. -/
def localName (tag : String) : String :=
  String.ofList (tag.toList.rtakeWhile fun c => c ≠ Char.ofNat 125)

mutual

/-- `element.iter()`. -/
def preorder : Element → List Element
  | .mk tag attributes text children =>
    .mk tag attributes text children :: preorderAll children

def preorderAll : List Element → List Element
  | [] => []
  | e :: es => preorder e ++ preorderAll es

end

def childText (e : Element) (name : String) : String :=
  match (preorder e).find? fun x => localName x.tag = name with
  | some (.mk _ _ text _) => lib.stripText text
  | none => ""

def Numeral.int : Numeral → Except Raised Int
  | .whole n => .ok n
  | .invalid | .infinite => .error .filingError
  | .nan => .error .valueError
  | .tooLarge => .error (.other "MemoryError")

/-- The number in a cell of the information table, as `_int` reads it. -/
def numeralIn (row : Element) (name : String) : Numeral :=
  lib.decimal (String.ofList ((childText lib row name).toList.filter (· ≠ ',')))

def positionOf (row : Element) : Except Raised Position := do
  let amount ← (numeralIn lib row "sshPrnamt").int
  let value ← (numeralIn lib row "value").int
  let kind := lib.upperText (childText lib row "sshPrnamtType")
  pure {
    name := childText lib row "nameOfIssuer"
    titleOfClass := childText lib row "titleOfClass"
    cusip := lib.upperText (childText lib row "cusip")
    putCall := lib.upperText (childText lib row "putCall")
    kind := if kind = "" then "SH" else kind
    amount := amount
    value := value }

/-- The positions whose price per share counts. -/
def priced (positions : List Position) : List Position :=
  positions.filter fun p => p.kind = "SH" ∧ p.putCall = "" ∧ 0 < p.amount

def priceOf (p : Position) : Except Raised Rat :=
  match lib.quotient p.value p.amount with
  | some price => .ok price
  | none => .error (.other "Overflow")

def looksLikeThousands (positions : List Position) : Except Raised Bool := do
  let prices ← (priced positions).mapM (priceOf lib)
  let sorted := prices.mergeSort fun a b => a ≤ b
  pure (sorted[sorted.length / 2]?.any fun price => price < 1)

def named (name : String) (roots : List Element) : Option Element :=
  (roots.filter fun root => localName root.tag = name).getLast?

/-- The rows of the information table. -/
def infoRows (table : Element) : List Element :=
  table.children.filter fun row => localName row.tag = "infoTable"

/-- The holdings of a table's rows. -/
def tableHoldings (cover table : Element) : Except Raised Holdings := do
  let rows ← (infoRows table).mapM (positionOf lib)
  let positions := rows.foldl addUp []
  let inThousands ← looksLikeThousands lib positions
  pure {
    manager := childText lib cover "name"
    reportType := childText lib cover "reportType"
    positions := if inThousands = true then
      positions.map fun p => { p with value := p.value * 1000 } else positions
    inThousands := inThousands }

def parseFiling (body : Bytes) : Except Raised Holdings := do
  let roots ← (xmlBlocks body).mapM (parseXml lib)
  match named "edgarSubmission" roots with
  | none => .error .filingError
  | some cover => match named "informationTable" roots with
    -- a notice: somebody else reports these holdings
    | none => pure ⟨childText lib cover "name", childText lib cover "reportType", [], false⟩
    | some table => tableHoldings lib cover table

def combine (parts : List Holdings) : Holdings where
  manager := " + ".intercalate (parts.map Holdings.manager)
  reportType := match parts with
    | part :: _ => part.reportType
    | [] => ""
  positions := (parts.flatMap Holdings.positions).foldl addUp []
  inThousands := parts.any Holdings.inThousands

/-! ## Two quarters -/

inductive PositionChange where
  | new | increased | decreased | unchanged | soldOut
  deriving DecidableEq, Repr

structure Change where
  now : Option Position
  before : Option Position
  held : Position
  deriving DecidableEq

def Change.amounts (c : Change) : Int × Int :=
  ((c.now.map Position.amount).getD 0, (c.before.map Position.amount).getD 0)

def Change.kind (c : Change) : PositionChange :=
  if c.before.isNone then .new
  else if c.now.isNone then .soldOut
  else if 0 < c.amounts.1 - c.amounts.2 then .increased
  else if c.amounts.1 - c.amounts.2 < 0 then .decreased
  else .unchanged

/-- Every position of either quarter; the order of the keys only breaks ties. -/
def changes (now before : List Position) : List Change :=
  (now.map fun p => ⟨some p, before.find? fun q => q.key = p.key, p⟩) ++
    (before.filter fun q => now.all fun p => p.key ≠ q.key).map fun q => ⟨none, some q, q⟩

/-- The side a group is sorted by. -/
def Change.ranked (c : Change) : Int × String :=
  match c.kind with
  | .soldOut => (((c.before.map Position.value).getD 0), c.held.name)
  | _ => (((c.now.map Position.value).getD 0), c.held.name)

/-- One of `compare`'s groups, largest first. -/
def group (kind : PositionChange) (all : List Change) : List Change :=
  (all.filter fun c => c.kind = kind).mergeSort fun a b =>
    b.ranked.1 < a.ranked.1 || (a.ranked.1 = b.ranked.1 && !decide (b.ranked.2 < a.ranked.2))

/-! ## The positions stored -/

structure Source where
  id : Id
  companyId : Id
  url : Option Str
  /-- `config`: whether it is a primary source, the section it is for, and the filers that
  reported the same holdings before. -/
  primary : Bool
  section_ : Option String
  predecessors : List Str
  deriving DecidableEq

structure InvestorPosition where
  companyId : Id
  sourceId : Id
  filer : Str
  cik : Str
  accession : Str
  period : Date
  previousPeriod : Option Date
  held : Position
  amount : Int
  valueUsd : Int
  previousAmount : Int
  previousValueUsd : Int
  change : PositionChange
  portfolioValueUsd : Int
  deriving DecidableEq

/-- `Numeric(20, 0)` columns, and the filer's name. -/
def InvestorPosition.storable (p : InvestorPosition) : Bool :=
  [p.amount, p.valueUsd, p.previousAmount, p.previousValueUsd, p.portfolioValueUsd].all
      (fun n => n.natAbs < 100000000000000000000) &&
    Models.storable p.filer && Models.storable p.accession

def stripZeros (cik : Str) : Str :=
  match cik.dropWhile (· = 48) with
  | [] => lit "0"
  | digits => digits

def submissionsUrl (cik : Str) : Str :=
  let digits := stripZeros cik
  lit "https://data.sec.gov/submissions/CIK" ++ List.replicate (10 - digits.length) 48 ++ digits ++
    lit ".json"

def textUrl (f : ListedFiling) : Str :=
  lit "https://www.sec.gov/Archives/edgar/data/" ++ f.cik ++ lit "/" ++
    f.accession.filter (· ≠ 45) ++ lit "/" ++ f.accession ++ lit ".txt"

/-- What the outside serves for an address. -/
abbrev Fetch := Str → Except Raised Bytes

def fetchFiler (fetch : Fetch) (cik : Str) : Except Raised Filer := do
  let body ← fetch (submissionsUrl cik)
  parseSubmissions lib body

def fetchFiling (fetch : Fetch) (f : ListedFiling) : Except Raised Holdings := do
  let body ← fetch (textUrl f)
  parseFiling lib body

/-- `filers.setdefault(other.cik, other)`. -/
def addFiler (filers : List Filer) (other : Filer) : List Filer :=
  if filers.any (fun filer => filer.cik = other.cik) then filers else filers ++ [other]

def rowsFor (source : Source) (filer : Filer) (period : Date) (current : ListedFiling)
    (before : List ListedFiling) (now prior : Holdings) : List InvestorPosition :=
  let all := changes now.positions prior.positions
  [.new, .increased, .decreased, .unchanged, .soldOut].flatMap fun kind =>
    (group kind all).map fun c => {
      companyId := source.companyId
      sourceId := source.id
      filer := filer.name
      cik := filer.cik
      accession := current.accession
      period := period
      previousPeriod := before.head?.bind ListedFiling.period
      held := c.held
      amount := (c.now.map Position.amount).getD 0
      valueUsd := (c.now.map Position.value).getD 0
      previousAmount := (c.before.map Position.amount).getD 0
      previousValueUsd := (c.before.map Position.value).getD 0
      change := kind
      portfolioValueUsd := now.totalValue }

/-- The two quarters of a filing that is new, as rows; none when it reports nothing. -/
def readFiling (fetch : Fetch) (source : Source) (filer : Filer) (period : Date)
    (current : ListedFiling) : Except Raised (Option (List InvestorPosition)) := do
  let others ← source.predecessors.mapM (fetchFiler lib fetch)
  let before := previousQuarter period (others.foldl addFiler [filer])
  let now ← fetchFiling lib fetch current
  if now.positions.isEmpty = true then pure none
  else do
    let parts ← before.mapM (fetchFiling lib fetch)
    pure (some (rowsFor source filer period current before now (combine parts)))

/-- What `refresh_source` reads for a source whose stored rows have the given accession. -/
def readSource (fetch : Fetch) (source : Source) (cik : Str) (stored : Option Str) :
    Except Raised (Option (List InvestorPosition)) := do
  let filer ← fetchFiler lib fetch cik
  match latest (filer.filings.filterMap original) with
  | none => pure none
  | some (period, current) =>
    if stored = some current.accession then pure none
    else readFiling lib fetch source filer period current

structure Investors where
  sources : List Source
  positions : List InvestorPosition
  deriving DecidableEq

def Investors.accessionOf (t : Investors) (source : Id) : Option Str :=
  (t.positions.find? fun p => p.sourceId = source).map InvestorPosition.accession

def Investors.replace (t : Investors) (source : Id) (rows : List InvestorPosition) : Investors :=
  { t with positions := (t.positions.filter fun p => p.sourceId ≠ source) ++ rows }

/-- Whether rows were written, and the table after it. -/
def refreshSource (fetch : Fetch) (source : Source) (cik : Str) (t : Investors) :
    Except Raised (Bool × Investors) := do
  let read ← readSource lib fetch source cik (t.accessionOf source.id)
  match read with
  | none => pure (false, t)
  | some rows =>
    if rows.all InvestorPosition.storable = true then pure (true, t.replace source.id rows)
    else .error (.other "DBAPIError")

/-- `_CIK`: the digits after `CIK=` in a query, without leading zeros. -/
def cikIn : Str → Option Str
  | [] => none
  | c :: rest =>
    let digits := (rest.drop 4).takeWhile lib.isDigit
    if (c = 63 ∨ c = 38) ∧ lit "CIK=" = lib.upper (rest.take 4) ∧ digits ≠ [] then
      some (stripZeros digits)
    else cikIn rest

def thirteenfSources (sources : List Source) : List (Source × Str) :=
  sources.filterMap fun source => match cikIn lib (source.url.getD []) with
    | some cik =>
      if source.primary = true ∧ source.section_ = some "holdings" then some (source, cik) else none
    | none => none

/-- One pass of the loop over the sources: one that cannot be read is skipped. -/
def takeSource (fetch : Id → Fetch) (x : Source × Str) (s : Nat × Investors) :
    Except Raised (ForInStep (Nat × Investors)) :=
  match refreshSource lib (fetch x.1.id) x.1 x.2 s.2 with
  | .ok (written, t) => .ok (.yield (s.1 + (if written = true then 1 else 0), t))
  | .error .filingError | .error .fetchError => .ok (.yield s)
  | .error e => .error e

def refreshHoldings (companyId : Id) (fetch : Id → Fetch) (t : Investors) :
    Except Raised (Nat × Investors) :=
  forIn (thirteenfSources lib (t.sources.filter fun s => s.companyId = companyId)) (0, t)
    (takeSource lib fetch)

end Autora.Disclosures
