import Autora.Lib.Logs
import Autora.Lib.Systems

/-! The event hub of one company: its sockets, the cursor it has fetched up to,
and the statements between two awaits. -/

namespace Autora.Realtime

open Logs Systems

/-- A row of `events`; `read_envelope` gives nothing for one that is not `valid`. -/
structure EventRecord where
  seq : Nat
  valid : Bool
  deriving DecidableEq, Repr

inductive SnapshotReason where
  | gapTooLarge
  | queueOverflow
  | unknownSince
  deriving DecidableEq, Repr

/-- What waits in the queue of a connection. -/
inductive Queued where
  | event (row : EventRecord)
  | snapshotRequired (reason : SnapshotReason)
  | ephemeral
  | heartbeat
  deriving DecidableEq, Repr

inductive Mode where
  | live
  | backlog
  | snapshotRequired
  deriving DecidableEq, Repr

inductive Message where
  | hello (headSeq : Nat) (mode : Mode)
  | events (items : List EventRecord)
  | backlogDone (headSeq : Nat)
  | queued (m : Queued)
  deriving DecidableEq, Repr

structure EventHub.Config where
  backlogMax : Nat
  batchSize : Nat
  fetchLimit : Nat
  /-- `0` is a queue without a bound. -/
  queueSize : Nat
  batch_pos : 0 < batchSize

def EventHub.default : EventHub.Config := ⟨5000, 200, 500, 1000, by decide⟩

/-- The await at which the task of a connection stands: `connect` first, then the sender. -/
inductive Await where
  | locking
  | tracking
  | heading
  | counting (head : Nat)
  | greeting (head : Nat) (reason : Option SnapshotReason)
  | refusing (reason : SnapshotReason)
  | paging
  | sendingPage (rows : List EventRecord) (last : Nat)
  | endingBacklog
  | getting
  | sending (m : Queued)
  | finished
  deriving DecidableEq, Repr

structure Connection where
  since : Option Int
  await : Await
  queue : List Queued
  lastSentSeq : Nat
  closing : Option SnapshotReason
  /-- The transport has not been closed. -/
  opened : Bool
  /-- What the transport was given. -/
  wire : List Message
  deriving DecidableEq, Repr

/-- Who holds the lock of the company, and how far the fetch is that holds it. -/
inductive Lock where
  | free
  | connecting (i : Nat)
  | fetchTracking
  | fetchQuerying (cursor : Nat)
  | fetchOffering (done : Nat) (rest : List EventRecord) (last : Nat) (full : Bool)
  deriving DecidableEq, Repr

structure EventHub where
  /-- The committed events, in the order of their commits. -/
  log : List EventRecord
  connections : Nat → Option Connection
  /-- The set `_connections`. -/
  registered : List Nat
  cursor : Option Nat
  lock : Lock
  /-- Fetches that wait for the lock. -/
  waiting : Nat

inductive Act where
  | commit (rows : List EventRecord)
  | connect (i : Nat) (since : Option Int)
  | proceed (i : Nat)
  | fail (i : Nat)
  | disconnect (i : Nat)
  | offer (i : Nat) (m : Queued) (droppable : Bool)
  | fetch
  | fetchEnter
  | fetchProceed
  | fetchFail
  deriving DecidableEq, Repr

variable (cfg : EventHub.Config)

def Connection.full (c : Connection) : Bool :=
  cfg.queueSize ≠ 0 && cfg.queueSize ≤ c.queue.length

/-- `Connection.offer`. -/
def Connection.offer (c : Connection) (m : Queued) (droppable : Bool) : Connection :=
  if c.closing ≠ none then c
  else if c.full cfg then
    if droppable then c
    else { c with closing := some .queueOverflow, queue := [.snapshotRequired .queueOverflow] }
  else { c with queue := c.queue ++ [m] }

/-- `_backlog_problem`, where it needs no query. -/
def sinceProblem (since : Option Int) (head : Nat) : Option SnapshotReason :=
  match since with
  | none => some .unknownSince
  | some n => if n < 0 ∨ (head : Int) < n then some .unknownSince else none

def Connection.start (c : Connection) : Nat := (c.since.getD 0).toNat

def Connection.send (c : Connection) (m : Message) : Connection :=
  { c with wire := c.wire ++ [m] }

/-- One await of `connect` or of `_send_forever`, given the committed events. `true`: the
connection is to be disconnected. -/
def Connection.proceed (log : List EventRecord) (c : Connection) : Option (Connection × Bool) :=
  match c.await with
  | .heading =>
    let head := head EventRecord.seq log
    match sinceProblem c.since head with
    | some reason => some ({ c with await := .greeting head (some reason) }, false)
    | none =>
      if c.since = some (head : Int) then some ({ c with await := .greeting head none }, false)
      else some ({ c with await := .counting head }, false)
  | .counting head =>
    let behind := ((after EventRecord.seq log c.start).take (cfg.backlogMax + 1)).length
    let reason := if cfg.backlogMax < behind then some .gapTooLarge else none
    some ({ c with await := .greeting head reason }, false)
  | .greeting head reason =>
    if c.opened = false then some ({ c with await := .finished }, false)
    else match reason with
    | some reason =>
      some ({ c.send (.hello head .snapshotRequired) with await := .refusing reason }, false)
    | none =>
      if c.since = some (head : Int) then
        some ({ c.send (.hello head .live) with lastSentSeq := c.start, await := .getting }, false)
      else
        some ({ c.send (.hello head .backlog) with lastSentSeq := c.start, await := .paging }, false)
  | .refusing reason =>
    if c.opened = false then some ({ c with await := .finished }, false)
    else
      some ({ c.send (.queued (.snapshotRequired reason)) with await := .finished }, true)
  | .paging =>
    let rows := (after EventRecord.seq log c.lastSentSeq).take cfg.batchSize
    match rows.getLast? with
    | none => some ({ c with await := .endingBacklog }, false)
    | some last => some ({ c with await := .sendingPage rows last.seq }, false)
  | .sendingPage rows last =>
    let next := if rows.length < cfg.batchSize then Await.endingBacklog else .paging
    match rows.filter EventRecord.valid with
    | [] => some ({ c with lastSentSeq := last, await := next }, false)
    | item :: items =>
      if c.opened = false then some ({ c with await := .finished }, false)
      else
        some ({ c.send (.events (item :: items)) with lastSentSeq := last, await := next }, false)
  | .endingBacklog =>
    if c.opened = false then some ({ c with await := .finished }, false)
    else some ({ c.send (.backlogDone c.lastSentSeq) with await := .getting }, false)
  | .getting =>
    match c.queue with
    | [] => none
    | .event row :: queue =>
      if row.seq ≤ c.lastSentSeq then some ({ c with queue := queue }, false)
      else
        some ({ c with queue := queue, lastSentSeq := row.seq, await := .sending (.event row) },
          false)
    | m :: queue => some ({ c with queue := queue, await := .sending m }, false)
  | .sending m =>
    match m with
    | .snapshotRequired _ => some ({ c.send (.queued m) with await := .finished }, true)
    | _ => some ({ c.send (.queued m) with await := .getting }, false)
  | .locking | .tracking | .finished => none

variable (hub : EventHub)

def EventHub.put (i : Nat) (c : Connection) : EventHub :=
  { hub with connections := Function.update hub.connections i (some c) }

/-- `disconnect`: the sender is cancelled, the transport closed. -/
def Connection.disconnect (c : Connection) : Connection :=
  { c with
    opened := false
    await := match c.await with
      | .getting | .sending _ => .finished
      | a => a }

/-- `disconnect` of the hub: nobody left, no cursor left. -/
def EventHub.disconnect (i : Nat) (c : Connection) : EventHub :=
  let registered := hub.registered.filter fun j => j ≠ i
  { hub.put i c.disconnect with
    registered := registered
    cursor := if registered = [] then none else hub.cursor }

/-- A row that is fetched goes to everybody who is registered. -/
def EventHub.offerAll (m : Queued) : EventHub :=
  { hub with connections := fun i => (hub.connections i).map fun c =>
      if i ∈ hub.registered then c.offer cfg m false else c }

def EventHub.head : Nat := Logs.head EventRecord.seq hub.log

/-- The lock of `_track`, and `proceed` of everything after it. -/
def EventHub.proceed (i : Nat) (c : Connection) : Option EventHub :=
  match c.await with
  | .locking =>
    match hub.lock, hub.cursor with
    | .free, some _ => some (hub.put i { c with await := .heading })
    | .free, none => some { hub.put i { c with await := .tracking } with lock := .connecting i }
    | _, _ => none
  | .tracking =>
    some { hub.put i { c with await := .heading } with cursor := some hub.head, lock := .free }
  | _ =>
    match c.proceed cfg hub.log with
    | none => none
    | some (c', false) => some (hub.put i c')
    | some (c', true) => some (hub.disconnect i c')

/-- The task of a connection raises: a sender disconnects, `connect` leaves the rest to
its caller. -/
def EventHub.fail (i : Nat) (c : Connection) : EventHub :=
  match c.await with
  | .getting | .sending _ => hub.disconnect i c
  | _ =>
    { hub.put i { c with await := .finished } with
      lock := if hub.lock = .connecting i then .free else hub.lock }

/-- What the fetch that holds the lock does next. -/
def EventHub.fetchProceed : Option EventHub :=
  match hub.lock with
  | .fetchTracking =>
    some { hub with cursor := some hub.head, lock := .fetchQuerying hub.head }
  | .fetchQuerying cursor =>
    let rows := (after EventRecord.seq hub.log cursor).take cfg.fetchLimit
    match rows.getLast? with
    | none => some { hub with lock := .free }
    | some last =>
      some { hub with lock := .fetchOffering cursor rows last.seq (rows.length = cfg.fetchLimit) }
  | .fetchOffering _ rest last full =>
    match rest with
    | [] =>
      some { hub with
        cursor := some last
        lock := if full then .fetchQuerying last else .free }
    | row :: rest =>
      let hub' := { hub with lock := .fetchOffering row.seq rest last full }
      some (if row.valid then hub'.offerAll cfg (.event row) else hub')
  | .free | .connecting _ => none

/-- Events are committed in the order of their seqs. -/
def EventHub.Later (rows : List EventRecord) : Prop :=
  Ascending EventRecord.seq rows ∧ ∀ row ∈ rows, hub.head < row.seq

instance (rows : List EventRecord) : Decidable (hub.Later rows) :=
  inferInstanceAs (Decidable (List.Pairwise _ rows ∧ _))

def Queued.isEvent : Queued → Bool
  | .event _ | .snapshotRequired _ => true
  | .ephemeral | .heartbeat => false

def EventHub.step (hub : EventHub) : Act → Option EventHub
  | .commit rows => if hub.Later rows then some { hub with log := hub.log ++ rows } else none
  | .connect i since =>
    match hub.connections i with
    | some _ => none
    | none =>
      some { hub.put i ⟨since, .locking, [], 0, none, true, []⟩ with
        registered := i :: hub.registered }
  | .proceed i => (hub.connections i).bind fun c => hub.proceed cfg i c
  | .fail i => (hub.connections i).map fun c => hub.fail i c
  | .disconnect i => (hub.connections i).map fun c => hub.disconnect i c
  | .offer i m droppable =>
    if m.isEvent then none
    else (hub.connections i).map fun c => hub.put i (c.offer cfg m droppable)
  | .fetch => if hub.registered = [] then some hub else some { hub with waiting := hub.waiting + 1 }
  | .fetchEnter =>
    match hub.lock, hub.waiting with
    | .free, n + 1 =>
      match hub.cursor with
      | some cursor => some { hub with waiting := n, lock := .fetchQuerying cursor }
      | none => some { hub with waiting := n, lock := .fetchTracking }
    | _, _ => none
  | .fetchProceed => hub.fetchProceed cfg
  | .fetchFail =>
    match hub.lock with
    | .fetchTracking | .fetchQuerying _ | .fetchOffering .. => some { hub with lock := .free }
    | .free | .connecting _ => none

/-- A company with any history, before its first socket. -/
def gateway : System EventHub Act where
  init hub := Ascending EventRecord.seq hub.log ∧ hub.connections = (fun _ => none) ∧
    hub.registered = [] ∧ hub.cursor = none ∧ hub.lock = .free ∧ hub.waiting = 0
  step hub a hub' := hub.step cfg a = some hub'

/-! What a socket has been sent. -/

def Queued.seqs : Queued → List Nat
  | .event row => [row.seq]
  | .snapshotRequired _ | .ephemeral | .heartbeat => []

def Message.seqs : Message → List Nat
  | .events items => items.map EventRecord.seq
  | .queued m => m.seqs
  | .hello _ _ | .backlogDone _ => []

def Message.isSnapshot : Message → Bool
  | .queued (.snapshotRequired _) => true
  | _ => false

/-- The durable seqs of a connection. -/
def Connection.durable (c : Connection) : List Nat := c.wire.flatMap Message.seqs

/-- The company's readable events after a seq. -/
def readable (log : List EventRecord) (since : Nat) : List Nat :=
  ((after EventRecord.seq log since).filter EventRecord.valid).map EventRecord.seq

end Autora.Realtime
