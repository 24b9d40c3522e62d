import Autora.Filings
import Autora.PriceHistory

/-! Two quarters' 13F holdings compared, and the text that becomes evidence. -/

namespace Autora.Disclosures

open Untyped

/-! ## What was filed -/

/-- A filing by its cover and the rows of its information table. -/
structure Filed where
  manager : String
  reportType : String
  rows : List Position

/-- A position's key. -/
abbrev Key := String × String × String

structure Quantized where
  negative : Bool
  tenths : Nat

structure CompareLibrary extends FilingLibrary where
  /-- `(Decimal(part) * 100 / Decimal(whole)).quantize(Decimal("0.1"), ROUND_HALF_UP)`; `none`
  where that raises. -/
  quantized : Int → Int → Option Quantized

/-- The holdings `parse_filing` makes of the rows. -/
def holdingsOf (lib : FilingLibrary) (f : Filed) : Except Raised Holdings := do
  let positions := f.rows.foldl addUp []
  let inThousands ← looksLikeThousands lib positions
  pure {
    manager := f.manager
    reportType := f.reportType
    positions := if inThousands = true then
      positions.map fun p => { p with value := p.value * 1000 } else positions
    inThousands := inThousands }

theorem tableHoldings_eq (lib : FilingLibrary) (cover table : Sources.Element) :
    tableHoldings lib cover table = ((infoRows table).mapM (positionOf lib) >>= fun rows =>
      holdingsOf lib ⟨childText lib cover "name", childText lib cover "reportType", rows⟩) := rfl

/-- The holdings of one side: several filers' are added up. -/
def side (lib : FilingLibrary) (filings : List Filed) : Except Raised Holdings := do
  let parts ← filings.mapM (holdingsOf lib)
  pure (combine parts)

/-! ## Two quarters -/

/-- `positions.get(key)`. -/
def find (positions : List Position) (key : Key) : Option Position :=
  positions.find? fun p => p.key = key

def changeAt (now before : List Position) (key : Key) : Option Change :=
  match find now key, find before key with
  | some p, b => some ⟨some p, b, p⟩
  | none, some q => some ⟨none, some q, q⟩
  | none, none => none

/-- An order in which the set of both sides' keys may be gone through. -/
structure IsOrder (keys : List Key) (now before : Holdings) : Prop where
  nodup : keys.Nodup
  mem : ∀ key, key ∈ keys ↔
    key ∈ now.positions.map Position.key ∨ key ∈ before.positions.map Position.key

structure Comparison where
  new : List Change
  soldOut : List Change
  increased : List Change
  decreased : List Change
  unchanged : List Change

def changesIn (keys : List Key) (now before : Holdings) : List Change :=
  keys.filterMap (changeAt now.positions before.positions)

def compare (keys : List Key) (now before : Holdings) : Comparison :=
  let all := changesIn keys now before
  ⟨group .new all, group .soldOut all, group .increased all, group .decreased all,
    group .unchanged all⟩

def Comparison.get (c : Comparison) : PositionChange → List Change
  | .new => c.new
  | .soldOut => c.soldOut
  | .increased => c.increased
  | .decreased => c.decreased
  | .unchanged => c.unchanged

def Change.delta (c : Change) : Int := c.amounts.1 - c.amounts.2

def Change.values (c : Change) : Int × Int :=
  ((c.now.map Position.value).getD 0, (c.before.map Position.value).getD 0)

/-! ## The text -/

/-- A comma after every third digit, from the last one. -/
def grouped : Str → Str
  | a :: b :: c :: d :: rest => a :: b :: c :: 44 :: grouped (d :: rest)
  | digits => digits

def digitsOf (n : Nat) : Str := lit (toString n)

def commas (n : Nat) : Str := (grouped (digitsOf n).reverse).reverse

/-- `f"{n:,}"` with the sign given; an integer of more than 4300 digits is refused. -/
def formatted (sign : Str) (n : Int) : Option Str :=
  if n.natAbs < 10 ^ 4300 then some (sign ++ commas n.natAbs) else none

/-- `_n`. -/
def numberText (n : Int) : Option Str := formatted (if n < 0 then [45] else []) n

/-- `f"{n:+,}"` -/
def signedText (n : Int) : Option Str := formatted (if n < 0 then [45] else [43]) n

def usd (n : Int) : Option Str := (numberText n).map (lit "US$" ++ ·)

def pct (lib : CompareLibrary) (part whole : Int) (signed : Bool) : Option Str :=
  if whole = 0 then some (lit "n/a")
  else match lib.quantized part whole with
    | none => none
    | some q =>
      if q.tenths = 0 ∧ part ≠ 0 then some (lit "under 0.1%")
      else some ((if q.negative then [45] else if signed then [43] else []) ++
        digitsOf (q.tenths / 10) ++ [46] ++ digitsOf (q.tenths % 10) ++ [37])

def units (p : Position) : Str := if p.kind = "SH" then lit "shares" else lit "principal"

def Position.label (p : Position) : Str :=
  lit p.name ++ lit " (" ++ lit p.titleOfClass ++
    (if p.putCall ≠ "" then 32 :: lit p.putCall else []) ++ lit ", CUSIP " ++ lit p.cusip ++ lit ")"

/-- How every line about a position begins. -/
def Change.opening (c : Change) : Str := lit "- " ++ c.held.label ++ lit ": "

/-- What a position is worth, of everything reported. -/
def worth (lib : CompareLibrary) (total : Int) (c : Change) : Option Str := do
  let value ← usd c.values.1
  let share ← pct lib c.values.1 total false
  pure (value ++ lit ", " ++ share ++ lit " of reported value.")

def heldLine (lib : CompareLibrary) (total : Int) (between : String) (c : Change) :
    Option Str := do
  let amount ← numberText c.amounts.1
  let now ← worth lib total c
  pure (c.opening ++ amount ++ lit " " ++ units c.held ++ lit between ++ now)

def movedLine (lib : CompareLibrary) (total : Int) (verb : String) (c : Change) : Option Str := do
  let amount ← numberText c.amounts.1
  let before ← numberText c.amounts.2
  let delta ← signedText c.delta
  let moved ← pct lib c.delta c.amounts.2 true
  let now ← worth lib total c
  pure (c.opening ++ amount ++ lit " " ++ units c.held ++ lit ", " ++ lit verb ++ lit " from " ++
    before ++ lit " (" ++ delta ++ lit " " ++ units c.held ++ lit ", " ++ moved ++
    lit "); value " ++ now)

def soldLine (c : Change) : Option Str := do
  let amount ← numberText c.amounts.2
  let value ← usd c.values.2
  pure (c.opening ++ lit "all " ++ amount ++ lit " " ++ units c.held ++
    lit " sold; value at the previous quarter's end " ++ value ++ lit ".")

def lineOf (lib : CompareLibrary) (total : Int) : PositionChange → Change → Option Str
  | .new, c => heldLine lib total ", value " c
  | .soldOut, c => soldLine c
  | .increased, c => movedLine lib total "up" c
  | .decreased, c => movedLine lib total "down" c
  | .unchanged, c => heldLine lib total "; value " c

/-- One section of the text. -/
def sectionLines (lib : CompareLibrary) (total : Int) (kind : PositionChange) (title : String)
    (changes : List Change) : Option (List Str) := do
  let lines ← changes.mapM (lineOf lib total kind)
  pure ([[], lit title ++ lit " (" ++ digitsOf changes.length ++ lit "):"] ++ lines ++
    if changes = [] then [lit "- none"] else [])

def sections : List (PositionChange × String) :=
  [(.new, "New positions"), (.soldOut, "Sold out"), (.increased, "Increased"),
    (.decreased, "Decreased"), (.unchanged, "Unchanged")]

/-- A filing of a filer's list whose period is known. -/
structure Reported where
  cik : Str
  accession : Str
  filed : Prices.Date
  period : Prices.Date

/-- What the text says of the filings themselves. -/
structure Caption where
  filer : Str
  cik : Str
  now : Reported
  /-- The previous quarter's filings, each with its filer's name. -/
  first : Str × Reported
  others : List (Str × Reported)

def padded (width n : Nat) : Str :=
  List.replicate (width - (digitsOf n).length) 48 ++ digitsOf n

/-- `str(date)` -/
def isoText (d : Prices.Date) : Str :=
  padded 4 d.year ++ [45] ++ padded 2 d.month ++ [45] ++ padded 2 d.day

def quarterLabel (d : Prices.Date) : Str :=
  digitsOf d.year ++ lit "Q" ++ digitsOf ((d.month - 1) / 3 + 1)

def indexUrl (l : Reported) : Str :=
  lit "https://www.sec.gov/Archives/edgar/data/" ++ l.cik ++ lit "/" ++
    l.accession.filter (· ≠ 45) ++ lit "/" ++ l.accession ++ lit "-index.htm"

def filingLine (l : Reported) : Str :=
  lit "period ended " ++ isoText l.period ++ lit ", filed " ++ isoText l.filed ++
    lit ", accession " ++ l.accession ++ lit ", " ++ indexUrl l

def Caption.before (c : Caption) : List (Str × Reported) := c.first :: c.others

def openingLines (c : Caption) : List Str :=
  let quarter := quarterLabel c.now.period
  let quarterBefore := quarterLabel c.first.2.period
  [c.filer ++ lit ": 13F holdings, " ++ quarter ++ lit " (quarter ended " ++
      isoText c.now.period ++ lit ") compared with " ++ quarterBefore ++ lit " (quarter ended " ++
      isoText c.first.2.period ++ lit ").",
    lit "When writing about it, name the quarters as " ++ quarter ++ lit " and " ++ quarterBefore ++
      lit ", never only 'this quarter' or 'last quarter': a reader meets the article months " ++
      lit "later, when those words mean another quarter.",
    lit "Computed by this newsroom's code from the " ++ digitsOf (c.before.length + 1) ++
      lit " SEC filings below. Every figure is copied from them or calculated from them (sums of " ++
      lit "each filing's rows, differences, percentages); the text is not SEC's own.",
    lit "Filer: " ++ c.filer ++ lit " (CIK " ++ c.cik ++ lit ").",
    lit "This quarter (" ++ quarter ++ lit "): " ++ filingLine c.now] ++
  c.before.map fun (name, listed) =>
    lit "Previous quarter (" ++ quarterLabel listed.period ++ lit "): " ++ name ++ lit " (CIK " ++
      listed.cik ++ lit "), " ++ filingLine listed

def addedUpLine (c : Caption) : Str :=
  lit "The previous quarter adds up the filings of " ++
    (lit " and ").intercalate (c.before.map Prod.fst) ++
    lit ": holdings they reported separately are reported by " ++ c.filer ++
    lit " from this quarter."

def thousandsLine (period : Prices.Date) : Str :=
  lit "Values for the quarter ended " ++ isoText period ++
    lit " were filed in thousands of dollars (read as dollars, most holdings would be worth " ++
    lit "under a dollar a share); they are shown here multiplied by 1,000."

def totalLines (c : Caption) (now before : Holdings) : Option (List Str) := do
  let total ← usd now.totalValue
  let totalBefore ← usd before.totalValue
  pure [lit "Reported value " ++ quarterLabel c.now.period ++ lit ": " ++ total ++ lit " in " ++
      digitsOf now.positions.length ++ lit " positions. " ++ quarterLabel c.first.2.period ++
      lit ": " ++ totalBefore ++ lit " in " ++ digitsOf before.positions.length ++
      lit " positions.",
    lit "What a 13F shows: long positions in US-listed securities at the end of the quarter, " ++
      lit "reported up to 45 days later. It does not show short positions, non-US holdings, or " ++
      lit "when during the quarter a trade was made."]

def headLines (c : Caption) (now before : Holdings) : Option (List Str) :=
  (totalLines c now before).map fun totals =>
    openingLines c ++ (if 1 < c.before.length then [addedUpLine c] else []) ++
      (if now.inThousands then [thousandsLine c.now.period] else []) ++
      (if before.inThousands then [thousandsLine c.first.2.period] else []) ++ totals

/-- `"\n".join(lines) + "\n"`. -/
def joined (lines : List Str) : Str := lines.flatMap (· ++ [10])

/-- The comparison as plain text; `none` where a number in it cannot be written. -/
def render (lib : CompareLibrary) (keys : List Key) (c : Caption) (now before : Holdings) :
    Option Str := do
  let head ← headLines c now before
  let diff := compare keys now before
  let parts ← sections.mapM fun s => sectionLines lib now.totalValue s.1 s.2 (diff.get s.1)
  pure (joined (head ++ parts.flatten))

end Autora.Disclosures
