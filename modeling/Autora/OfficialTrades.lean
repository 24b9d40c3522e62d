import Mathlib.Data.List.DropRight
import Autora.Lib.Loops
import Autora.ModelGateway

/-! Officials' transaction reports: a transcribed row checked, a report read page by page,
and the run that stores the new ones. -/

namespace Autora.Disclosures

open Untyped Loops
open Models (storable)

abbrev Bytes := List UInt8

/-- A day, counted from some first one. -/
abbrev Date := Int

/-- An exception, by what the two refreshes do with it. -/
inductive Raised where
  | transcribeError
  | httpError
  | valueError
  | filingError
  | fetchError
  | other (name : String)
  deriving DecidableEq, Repr

def Raised.of : Error → Raised
  | .valueError => .valueError
  | .attributeError => .other "AttributeError"
  | .keyError => .other "KeyError"
  | .indexError => .other "IndexError"
  | .typeError => .other "TypeError"
  | .overflowError => .other "OverflowError"
  | .recursionError => .other "RecursionError"
  | .validationError => .other "ValidationError"

/-- What Python and pypdf make of texts and files. -/
structure Library where
  /-- `\d`, `\w` and `str.isspace`, of one character. -/
  isDigit : Nat → Bool
  isWord : Nat → Bool
  isSpace : Nat → Bool
  lower : Str → Str
  upper : Str → Str
  /-- `str(value)` of what is no text. -/
  toStr : Value → Str
  /-- `int(text)`; `none` for its `ValueError`. -/
  intOf : Str → Option Int
  /-- `int(x)`: an infinity overflows. -/
  truncated : Float → Except Error Int
  /-- `datetime.strptime(text, "%m/%d/%Y").date()`. -/
  mdy : Str → Option Date
  isoformat : Date → Str
  /-- `PdfReader(io.BytesIO(pdf)).pages`, each written to a file of its own. -/
  pagesOf : Bytes → Except Raised (List Bytes)

variable (lib : Library)

/-! ## Texts -/

def asText : Value → Str
  | .str s => s
  | v => lib.toStr v

/-- `int(value)`. -/
def intOfValue : Value → Except Error Int
  | .bool b => .ok (if b then 1 else 0)
  | .int n => .ok n
  | .float x => lib.truncated x
  | .str s => match lib.intOf s with
    | some n => .ok n
    | none => .error .valueError
  | _ => .error .typeError

def strip (text : Str) : Str := (text.dropWhile lib.isSpace).rdropWhile lib.isSpace

/-- `text.split()`. -/
def words (text : Str) : List Str := (text.splitOnP lib.isSpace).filter fun word => !word.isEmpty

/-- `" ".join(text.split())`. -/
def squeezed (text : Str) : Str := (lit " ").intercalate (words lib text)

def isUpper (c : Nat) : Bool := 65 ≤ c && c ≤ 90

/-- `[A-Z]{1,5}(?:\.[A-Z])?`. -/
def isSymbol (text : Str) : Bool :=
  let letters := text.takeWhile isUpper
  1 ≤ letters.length && letters.length ≤ 5 && match text.drop letters.length with
    | [] => true
    | [dot, c] => dot = 46 && isUpper c
    | _ => false

def symbolChar (c : Nat) : Bool := isUpper c || c = 46

/-- `_TICKER`: a symbol at the end, after a dash of its own. -/
def endTicker (text : Str) : Option Str :=
  let text := text.rdropWhile lib.isSpace
  let symbol := text.rtakeWhile symbolChar
  match (text.rdropWhile symbolChar).reverse with
  | after :: 45 :: before :: _ =>
    if lib.isSpace after ∧ lib.isSpace before ∧ isSymbol symbol then some symbol else none
  | _ => none

/-- `_HOUSE_TICKER`: a symbol in parentheses, with a stock's, an option's or a fund's code. -/
def houseTickerAt : Str → Option Str
  | 40 :: rest =>
    let symbol := rest.takeWhile symbolChar
    match rest.drop symbol.length with
    | 41 :: after =>
      if isSymbol symbol ∧ [lit "[ST]", lit "[OP]", lit "[EF]"].any fun code =>
          code.isPrefixOf (after.dropWhile lib.isSpace) then some symbol else none
    | _ => none
  | _ => none

/-- Whether the text has the word, with no letter of another one at either end. -/
def saysWord (word : Str) : Option Nat → Str → Bool
  | previous, [] => word.isEmpty && !previous.any lib.isWord
  | previous, c :: rest =>
    (!previous.any lib.isWord && word.isPrefixOf (c :: rest) &&
      !((c :: rest).drop word.length).head?.any lib.isWord) || saysWord word (some c) rest

def saysAny (wanted : List String) (text : Str) : Bool :=
  wanted.any fun word => saysWord lib (lit word) none text

/-- `_DEBT`. -/
def isDebt (text : Str) : Bool :=
  text.elem 37 ||
    saysAny lib ["DUE", "NOTE", "NOTES", "BOND", "BONDS", "DEB", "B/E", "REG S"] text

def issuers : List (String × List String) := [
  ("NVDA", ["NVIDIA CORP"]),
  ("AAPL", ["APPLE INC"]),
  ("GOOGL", ["ALPHABET INC"]),
  ("MSFT", ["MICROSOFT CORP"]),
  ("AMZN", ["AMAZON.COM INC", "AMAZON COM INC", "AMAZON INC"]),
  ("TSM", ["TAIWAN SEMICONDUCTOR MFG", "TAIWAN SEMICONDUCTOR MANUFACTURING"]),
  ("META", ["META PLATFORMS"]),
  ("AVGO", ["BROADCOM INC"]),
  ("TSLA", ["TESLA INC"]),
  ("MU", ["MICRON TECHNOLOGY"]),
  ("AMD", ["ADVANCED MICRO DEVICES"]),
  ("QQQ", ["INVESCO QQQ"]),
  ("VOO", ["VANGUARD S&P 500 ETF", "VANGUARD INDEX FDS S&P 500"])]

def tickerOf (description : Str) : Option Str :=
  match (endTicker lib description).or (description.tails.findSome? (houseTickerAt lib)) with
  | some symbol => some symbol
  | none =>
    let upper := lib.upper description
    if isDebt lib upper then none
    else (issuers.find? fun issuer =>
      issuer.2.any fun name => (lit name).isPrefixOf upper).map fun issuer => lit issuer.1

/-- `is_option`. -/
def isOption (description : Str) : Bool :=
  description.tails.any (fun tail => (lit "[OP]").isPrefixOf tail) ||
    saysAny lib ["CALL", "CALLS", "PUT", "PUTS"] (lib.upper description)

/-! ## A row, checked -/

def amountRanges : List (Int × Int) := [
  (1001, 15000), (15001, 50000), (50001, 100000), (100001, 250000), (250001, 500000),
  (500001, 1000000), (1000001, 5000000), (5000001, 25000000), (25000001, 50000000)]

def top : Int := 50000000

/-- `_NUMBER.findall`: a run of digits and commas, from its first digit. -/
def numerals (text : Str) : List Str :=
  ((text.splitOnP fun c => !(lib.isDigit c || c = 44)).map fun run =>
    run.dropWhile (· = 44)).filter fun run => !run.isEmpty

/-- The bounds, and whether the text is one of the form's ranges. -/
def parseAmount (text : Str) : Except Error (Option Int × Option Int × Bool) := do
  let numbers ← (numerals lib text).mapM fun n => intOfValue lib (.str (n.filter (· ≠ 44)))
  if (lit "over").isPrefixOf (lib.lower (strip lib text)) ∧ numbers = [top] then
    pure (some (top + 1), none, true)
  else match numbers with
    | [low, high] =>
      if amountRanges.lookup low = some high then pure (some low, some high, true)
      else pure (none, none, false)
    | _ => pure (none, none, false)

def parseDate (text : Str) : Option Date := lib.mdy (strip lib text)

def kinds : List (String × String) := [
  ("purchase", "purchase"), ("sale", "sale"), ("sale (partial)", "partial sale"),
  ("partial sale", "partial sale"), ("exchange", "exchange"), ("p", "purchase"), ("s", "sale"),
  ("s (partial)", "partial sale"), ("e", "exchange")]

def kindOf (kind : Str) : Str :=
  match kinds.find? fun k => lit k.1 = kind with
  | some k => lit k.2
  | none => if kind.isEmpty then lit "unknown" else kind

structure Row where
  number : Int
  description : Str
  ticker : Option Str
  kind : Str
  tradedOn : Option Date
  late : Option Bool
  amountMin : Option Int
  amountMax : Option Int
  amountText : Str
  owner : Option Str
  note : Option Str
  deriving DecidableEq

def Row.readable (r : Row) : Bool := r.tradedOn.isSome && r.amountMin.isSome

/-- `str(raw.get(key) or "")`. -/
def cell (raw : Value) (key : String) : Str := asText lib ((raw.field (lit key)).orElse (.str []))

/-- The row that has a number. -/
def numberedRow (raw : Value) (number : Int) : Except Error (Option Row) :=
  let description := squeezed lib (cell lib raw "description")
  if description.isEmpty = true then pure none
  else do
    let amountText := squeezed lib (cell lib raw "amount")
    let amount ← parseAmount lib amountText
    let late := lib.lower (strip lib (cell lib raw "late"))
    let owner := lib.upper (strip lib (cell lib raw "owner"))
    let note := squeezed lib (cell lib raw "details")
    pure (some {
      number := number
      description := description
      ticker := tickerOf lib description
      kind := kindOf (squeezed lib (lib.lower (cell lib raw "type")))
      tradedOn := parseDate lib (cell lib raw "date")
      late := if late = lit "yes" then some true
        else if late = lit "no" then some false else none
      amountMin := amount.1
      amountMax := amount.2.1
      amountText := amountText
      owner := if [lit "SP", lit "JT", lit "DC"].elem owner then some owner else none
      note := if note.isEmpty then none else some note })

/-- A transcribed row; none when it is not a transaction at all. -/
def parseRow (raw : Value) : Except Error (Option Row) :=
  match raw.get (lit "number") >>= intOfValue lib with
  | .error .typeError | .error .valueError => .ok none
  | .error e => .error e
  | .ok number => numberedRow lib raw number

/-! ## A report, read -/

structure Listed where
  filer : Str
  person : Str
  form : Str
  url : Str
  receivedOn : Date
  deriving DecidableEq

/-- What the outside gives for one listed report: the file, and for each of its pages the rows
the model gives, or its failure. -/
structure Served where
  file : Except Raised Bytes
  transcribe : Nat → Option (List Value)

abbrev Doc := Listed × Served

def splitPages (pdf : Bytes) : Except Raised (List Bytes) := lib.pagesOf pdf

/-- Every page's rows, with the page each is on. -/
def rowsOf (transcribed : List (List Value)) : Except Error (List (Nat × Row)) := do
  let pages ← (transcribed.zipIdx 1).mapM fun page =>
    page.1.mapM fun raw => do
      let row ← parseRow lib raw
      pure (row.map (page.2, ·))
  pure (pages.flatten.filterMap id)

def readReport (served : Served) (pdf : Bytes) : Except Raised (Nat × List (Nat × Row)) :=
  match splitPages lib pdf with
  | .error e => .error e
  | .ok pages => match (List.range pages.length).mapM served.transcribe with
    | none => .error .transcribeError
    | some transcribed => match rowsOf lib transcribed with
      | .error e => .error (.of e)
      | .ok rows => .ok (pages.length, rows)

/-! ## What is stored -/

inductive ReportStatus where
  | pending | approved | rejected
  deriving DecidableEq, Repr

structure OfficialReport where
  id : Id
  companyId : Id
  person : Str
  filer : Str
  form : Str
  url : Str
  receivedOn : Date
  pages : Nat
  status : ReportStatus
  approvalId : Option Id
  model : Str
  deriving DecidableEq

/-- One transaction of a report: its page and the row on it. -/
structure OfficialTrade where
  id : Id
  companyId : Id
  reportId : Id
  page : Nat
  row : Row
  deriving DecidableEq

/-- What the person who checks a report needs. -/
structure Payload where
  report : Str
  person : Str
  receivedOn : Str
  pages : Nat
  rows : Nat
  unreadable : Nat
  stockRows : Nat
  stocks : List Str
  deriving DecidableEq

structure Approval where
  id : Id
  companyId : Id
  kind : String
  refType : String
  refId : Id
  action : String
  summary : Str
  payload : Payload
  deriving DecidableEq

def stockLine (page : Nat) (r : Row) (ticker : Str) : Str :=
  lit "p." ++ lit (toString page) ++ lit " #" ++ lit (toString r.number) ++ lit " " ++ ticker ++
    (match r.owner with
      | some owner => lit " [" ++ owner ++ lit "]"
      | none => []) ++
    (if isOption lib r.description then lit " option" else []) ++
    lit " " ++ r.kind ++ lit " " ++ ((r.tradedOn.map lib.isoformat).getD (lit "?")) ++
    lit " " ++ (if r.amountText.isEmpty then lit "?" else r.amountText)

def approvalPayload (report : OfficialReport) (rows : List (Nat × Row)) : Payload :=
  let stocks := rows.filterMap fun row => row.2.ticker.map fun ticker => (row, ticker)
  { report := report.url
    person := report.person
    receivedOn := lib.isoformat report.receivedOn
    pages := report.pages
    rows := rows.length
    unreadable := (rows.filter fun row => !row.2.readable).length
    stockRows := stocks.length
    stocks := (stocks.take 60).map fun stock => stockLine lib stock.1.1 stock.1.2 stock.2 }

/-- `_summary`. -/
def summaryOf (person : Str) (receivedOn : Date) (payload : Payload) : Str :=
  lit "核對" ++ person ++ lit " " ++ lib.isoformat receivedOn ++ lit " 交易申報的轉錄：" ++
    lit (toString payload.rows) ++ lit " 筆，其中 " ++ lit (toString payload.stockRows) ++
    lit " 筆有股票代號、" ++ lit (toString payload.unreadable) ++ lit " 筆讀不清"

structure Reports where
  nextId : Id
  reports : List OfficialReport
  trades : List OfficialTrade
  approvals : List Approval
  deriving DecidableEq

def Row.storable (r : Row) : Bool :=
  -2147483648 ≤ r.number && r.number ≤ 2147483647 &&
    ([r.description, r.kind, r.amountText] ++ r.note.toList).all Models.storable

def Listed.storable (l : Listed) : Bool :=
  [l.person, l.filer, l.form, l.url].all Models.storable

/-- Whose run it is, and the model that transcribes. -/
structure Setting where
  companyId : Id
  model : Str

variable (c : Setting)

/-- The report with its rows and its approval, where the columns take them. -/
def Reports.store (t : Reports) (listed : Listed) (pages : Nat) (rows : List (Nat × Row)) :
    Except Raised Reports :=
  if listed.storable = true ∧ storable c.model = true ∧ pages ≤ 2147483647 ∧
      rows.all (fun row => row.2.storable) = true then
    let approvalId := t.nextId + 1 + rows.length
    let report : OfficialReport := {
      id := t.nextId
      companyId := c.companyId
      person := listed.person
      filer := listed.filer
      form := listed.form
      url := listed.url
      receivedOn := listed.receivedOn
      pages := pages
      status := .pending
      approvalId := some approvalId
      model := c.model }
    let payload := approvalPayload lib report rows
    .ok {
      nextId := approvalId + 1
      reports := t.reports ++ [report]
      trades := t.trades ++ rows.zipIdx.map fun row => {
        id := t.nextId + 1 + row.2
        companyId := c.companyId
        reportId := report.id
        page := row.1.1
        row := row.1.2 }
      approvals := t.approvals ++ [{
        id := approvalId
        companyId := c.companyId
        kind := "official_report"
        refType := "official_report"
        refId := report.id
        action := "approve_official_report"
        summary := summaryOf lib listed.person listed.receivedOn payload
        payload := payload }] }
  else .error (.other "DBAPIError")

/-! ## A run -/

structure Progress where
  reports : Reports
  known : List Str
  stored : Nat
  budget : Int
  /-- How many pages went to the model, report by report. -/
  sent : List Nat

def Progress.sending (p : Progress) (pdf : Bytes) : Progress :=
  match splitPages lib pdf with
  | .ok pages => { p with sent := p.sent ++ [pages.length] }
  | .error _ => p

/-- `stored and len(split_pages(pdf)) > budget`. -/
def overBudget (p : Progress) (pdf : Bytes) : Except Raised Bool :=
  if p.stored = 0 then .ok false
  else do
    let pages ← splitPages lib pdf
    pure (p.budget < pages.length)

/-- The two `except` clauses. -/
def passOver (p : Progress) : Raised → Except Raised (ForInStep Progress)
  | .transcribeError => .ok (.done p)
  | .httpError | .valueError => .ok (.yield p)
  | e => .error e

/-- One pass of the loop over the listed reports. -/
def takeReport (d : Doc) (p : Progress) : Except Raised (ForInStep Progress) :=
  if d.1.url ∈ p.known then .ok (.yield p)
  else match d.2.file with
    | .error e => passOver p e
    | .ok pdf => match overBudget lib p pdf with
      | .error e => passOver p e
      | .ok true => .ok (.done p)
      | .ok false =>
        let p := p.sending lib pdf
        match readReport lib d.2 pdf with
        | .error e => passOver p e
        | .ok (pages, rows) => do
          let reports ← p.reports.store lib c d.1 pages rows
          let p : Progress := {
            reports := reports
            known := d.1.url :: p.known
            stored := p.stored + 1
            budget := p.budget - pages
            sent := p.sent }
          pure (if p.budget ≤ 0 then .done p else .yield p)

def Reports.known (t : Reports) (companyId : Id) : List Str :=
  (t.reports.filter fun r => r.companyId = companyId).map OfficialReport.url

def Progress.start (pagesPerRun : Nat) (t : Reports) : Progress where
  reports := t
  known := t.known c.companyId
  stored := 0
  budget := pagesPerRun
  sent := []

/-- `refresh_official_trades`, on what `list_reports` gave. -/
def refreshOfficialTrades (pagesPerRun : Nat) (docs : List Doc) (t : Reports) :
    Except Raised Progress :=
  forIn docs (Progress.start c pagesPerRun t) (takeReport lib c)

end Autora.Disclosures
