import Autora.Events
import Autora.Gateway
import Mathlib.Data.List.Sort

/-! The event log and its writers: `emit` takes the company's lock before it takes a seq, and
keeps it until its transaction ends. -/

namespace Autora.Outbox

open Logs Systems
open Realtime (EventRecord EventHub)

/-- What `emit` and the readers look at of an envelope; `valid` says whether `read_envelope`
can read it back. -/
structure Envelope where
  seq : Option Nat
  ephemeral : Bool
  companyId : Id
  eventType : String
  agentId : Option Id
  runId : Option Id
  correlationId : Option Id
  valid : Bool
  deriving DecidableEq, Repr

/-- A row of the log. -/
structure Row where
  seq : Nat
  companyId : Id
  eventType : String
  agentId : Option Id
  runId : Option Id
  correlationId : Option Id
  valid : Bool
  deriving DecidableEq, Repr

def Envelope.row (e : Envelope) (seq : Nat) : Row :=
  ⟨seq, e.companyId, e.eventType, e.agentId, e.runId, e.correlationId, e.valid⟩

/-- Where a transaction stands: between two calls of `emit`, before the company's lock, or
before its insert. -/
inductive Stage where
  | idle
  | locking (e : Envelope)
  | inserting (e : Envelope)
  deriving DecidableEq, Repr

structure Writer where
  written : List Row
  stage : Stage
  deriving DecidableEq, Repr

/-- The arguments of `load_event_page`. -/
structure Query where
  companyId : Id
  untilSeq : Option Nat
  eventTypes : List String
  agentId : Option Id
  runId : Option Id
  correlationId : Option Id
  limit : Nat
  deriving DecidableEq, Repr

/-- A reader that goes on from page to page. -/
structure Reader where
  query : Query
  start : Nat
  after : Nat
  read : List Row
  hasMore : Bool
  deriving DecidableEq, Repr

structure State where
  /-- The identity column's next value: it is not given back by a rollback. -/
  nextSeq : Nat
  /-- What is committed, in the order of the commits. -/
  log : List Row
  writers : Id → Option Writer
  /-- Who holds the advisory lock of a key. -/
  locks : Nat → Option Id
  readers : Id → Option Reader

inductive Act where
  | begin_ (i : Id)
  | emit (i : Id) (e : Envelope)
  -- the next statement of `emit`
  | next (i : Id)
  | commit (i : Id)
  | rollback (i : Id)
  | follow (k : Id) (query : Query) (after : Nat)
  | page (k : Id)

/-! ## Reading -/

def Query.matches_ (q : Query) (r : Row) : Bool :=
  r.companyId = q.companyId && q.untilSeq.all (r.seq ≤ ·) &&
    (q.eventTypes.isEmpty || q.eventTypes.contains r.eventType) &&
    q.agentId.all (fun i => r.agentId = some i) && q.runId.all (fun i => r.runId = some i) &&
    q.correlationId.all fun i => r.correlationId = some i

-- `ORDER BY seq LIMIT`
def eventRows (log : List Row) (q : Query) (afterSeq limit : Nat) : List Row :=
  ((log.filter fun r => q.matches_ r && decide (afterSeq < r.seq)).mergeSort
    fun a b => a.seq ≤ b.seq).take limit

def readEnvelopes (rows : List Row) : List Row := rows.filter Row.valid

/-- One page: the events, the seq to go on after and whether there are more. -/
def loadEventPage (log : List Row) (q : Query) (afterSeq : Nat) : List Row × Nat × Bool :=
  let rows := eventRows log q afterSeq (q.limit + 1)
  let page := rows.take q.limit
  (readEnvelopes page, (page.getLast?.map Row.seq).getD afterSeq, q.limit < rows.length)

def Reader.page (r : Reader) (log : List Row) : Reader :=
  let p := loadEventPage log r.query r.after
  { r with read := r.read ++ p.1, after := p.2.1, hasMore := p.2.2 }

/-! ## Writing -/

section Steps

-- `hashtext` of a company
variable (key : Id → Nat)

namespace State

def put (s : State) (i : Id) (w : Writer) : State :=
  { s with writers := Function.update s.writers i (some w) }

-- the end of a transaction gives its locks back
def close (s : State) (i : Id) : State :=
  { s with
    writers := Function.update s.writers i none
    locks := fun k => if s.locks k = some i then none else s.locks k }

def advance (s : State) (i : Id) (w : Writer) : Option State :=
  match w.stage with
  | .idle => none
  | .locking e =>
    if s.locks (key e.companyId) = none ∨ s.locks (key e.companyId) = some i then
      some { s.put i { w with stage := .inserting e } with
        locks := Function.update s.locks (key e.companyId) (some i) }
    else none
  | .inserting e =>
    some { s.put i ⟨w.written ++ [e.row s.nextSeq], .idle⟩ with nextSeq := s.nextSeq + 1 }

def step (s : State) : Act → Option State
  | .begin_ i =>
    match s.writers i with
    | none => some (s.put i ⟨[], .idle⟩)
    | some _ => none
  | .emit i e => (s.writers i).bind fun w =>
      match w.stage with
      -- an ephemeral event, or one already persisted, raises
      | .idle =>
        if e.ephemeral ∨ e.seq.isSome then some s
        else some (s.put i { w with stage := .locking e })
      | _ => none
  | .next i => (s.writers i).bind (s.advance key i)
  | .commit i => (s.writers i).bind fun w =>
      match w.stage with
      | .idle => some { s.close i with log := s.log ++ w.written }
      | _ => none
  | .rollback i => (s.writers i).map fun _ => s.close i
  | .follow k query after =>
    some { s with readers :=
      Function.update s.readers k (some ⟨query, after, after, [], true⟩) }
  | .page k => (s.readers k).map fun r =>
      { s with readers := Function.update s.readers k (some (r.page s.log)) }

end State

/-- Any transactions and readers of a log that was empty. -/
def outbox : System State Act where
  init s := s.log = [] ∧ s.nextSeq = 1 ∧ s.writers = (fun _ => none) ∧
    s.locks = (fun _ => none) ∧ s.readers = fun _ => none
  step s a t := s.step key a = some t

end Steps

end Autora.Outbox
