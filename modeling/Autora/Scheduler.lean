import Mathlib.Logic.Function.Basic
import Autora.Lib.Systems

/-! Schedules and the workers that fire them. A claim is a transaction of its own;
a firing holds the lock of its row from the check of the owner to the commit, and
the handler runs in between, on the same session. -/

namespace Autora.Schedules

open Systems

abbrev ScheduleId := Nat

abbrev WorkerId := Nat

structure Raised where
  kind : String
  text : String
  deriving DecidableEq, Repr

/-- What the scheduler asks of `croniter` and of the time zone database. -/
structure Croniter where
  isValid : String → Bool
  knows : String → Bool
  getNext : String → String → Int → Except Raised Int
  later : ∀ cron zone after t, getNext cron zone after = .ok t → after < t

def scheduleError (text : String) : Raised := ⟨"ScheduleError", text⟩

def quoted (s : String) : String := "'" ++ s ++ "'"

def nextFireTime (c : Croniter) (cron timezone : String) (after : Int) : Except Raised Int :=
  if c.isValid cron = false then
    .error (scheduleError ("invalid cron expression: " ++ quoted cron))
  else if c.knows timezone = false then
    .error (scheduleError ("unknown timezone: " ++ quoted timezone))
  else c.getNext cron timezone after

structure Lease where
  owner : WorkerId
  expires : Int
  deriving DecidableEq, Repr

/-- A row of `schedules`. The two lease columns are null together. -/
structure Schedule where
  name : String
  cron : String
  timezone : String
  handler : String
  enabled : Bool
  nextRunAt : Int
  lastRunAt : Option Int
  lastError : Option String
  consecutiveFailures : Nat
  lease : Option Lease
  deriving DecidableEq, Repr

/-- One worker's scheduler. -/
structure Scheduler where
  lease : Int
  retryBackoff : Int
  batchSize : Nat
  handlers : String → Bool

def Schedule.due (row : Schedule) (now : Int) : Bool :=
  row.enabled && row.nextRunAt ≤ now && row.lease.all fun l => l.expires < now

def Schedule.owned (row : Schedule) (w : WorkerId) : Bool := row.lease.any fun l => l.owner = w

variable {W : Type}

/-- A firing under way: the row as it was loaded and the handler's writes, those
of them that are not committed yet apart. A rollback expires the loaded row. -/
structure Run (W : Type) where
  id : ScheduleId
  scheduledFor : Int
  row : Schedule
  made : List W
  pending : List W
  expired : Bool
  deriving DecidableEq, Repr

/-- Where a worker's tick stands. -/
inductive Phase (W : Type) where
  | idle
  | ticking (claimed : List (ScheduleId × Int))
  | firing (run : Run W) (rest : List (ScheduleId × Int))
  | failing (id : ScheduleId) (exc : Raised) (rest : List (ScheduleId × Int))
  deriving DecidableEq, Repr

structure Claim where
  worker : WorkerId
  schedule : ScheduleId
  nextRunAt : Int
  deriving DecidableEq, Repr

/-- A committed firing: the slot, the time on the worker's clock and where it
moved the schedule. -/
structure Fired (W : Type) where
  schedule : ScheduleId
  name : String
  scheduledFor : Int
  worker : WorkerId
  time : Int
  movedTo : Int
  writes : List W
  deriving DecidableEq, Repr

/-- The committed rows and writes, the locks and the workers. The claims are kept
for the record. -/
structure Database (W : Type) where
  rows : ScheduleId → Option Schedule
  locks : ScheduleId → Option WorkerId
  phase : WorkerId → Phase W
  claims : List Claim
  fired : List (Fired W)
  written : List (ScheduleId × Int × W)

inductive Act (W : Type) where
  | create (id : ScheduleId) (name cron timezone handler : String) (now : Int)
  | claim (w : WorkerId) (now : Int) (ids : List ScheduleId)
  | begin (w : WorkerId)
  | write (w : WorkerId) (x : W)
  | handlerCommit (w : WorkerId)
  | handlerRollback (w : WorkerId)
  | handlerRaise (w : WorkerId) (exc : Raised)
  | commit (w : WorkerId) (now : Int)
  | record (w : WorkerId) (now : Int)
  | finish (w : WorkerId)
  | crash (w : WorkerId)
  deriving DecidableEq, Repr

namespace Database

variable (s : Database W)

def put (w : WorkerId) (p : Phase W) : Database W :=
  { s with phase := Function.update s.phase w p }

def store (id : ScheduleId) (row : Schedule) : Database W :=
  { s with rows := Function.update s.rows id (some row) }

def lock (w : WorkerId) (id : ScheduleId) : Database W :=
  { s with locks := Function.update s.locks id (some w) }

/-- The transaction of the worker is over. -/
def unlock (w : WorkerId) : Database W :=
  { s with locks := fun id => if s.locks id = some w then none else s.locks id }

def free (w : WorkerId) (id : ScheduleId) : Bool := s.locks id = none || s.locks id = some w

def create (c : Croniter) (id : ScheduleId) (name cron timezone handler : String) (now : Int) :
    Option (Database W) :=
  match s.rows id, nextFireTime c cron timezone now with
  | none, .ok t => some (s.store id
      { name := name, cron := cron, timezone := timezone, handler := handler, enabled := true
        nextRunAt := t, lastRunAt := none, lastError := none, consecutiveFailures := 0
        lease := none })
  | _, _ => none

/-- The update of the claimed rows, one after the other. A row that is locked is skipped. -/
def claimRows (w : WorkerId) (now until_ : Int) :
    List ScheduleId → Database W → Option (List (ScheduleId × Int) × Database W)
  | [], s => some ([], s)
  | id :: ids, s =>
    match s.rows id with
    | none => none
    | some row =>
      if row.due now = true ∧ s.locks id = none then
        (claimRows w now until_ ids { s.store id { row with lease := some ⟨w, until_⟩ } with
          claims := s.claims ++ [⟨w, id, row.nextRunAt⟩] }).map
            fun r => ((id, row.nextRunAt) :: r.1, r.2)
      else none

def claim (sch : Scheduler) (w : WorkerId) (now : Int) (ids : List ScheduleId) :
    Option (Database W) :=
  match s.phase w with
  | .idle =>
    if ids.length ≤ sch.batchSize ∧ ids.Nodup then
      (claimRows w now (now + sch.lease) ids s).map fun r => r.2.put w (.ticking r.1)
    else none
  | _ => none

/-- The firing is rolled back and its failure is to be recorded. -/
def fails (w : WorkerId) (id : ScheduleId) (exc : Raised) (rest : List (ScheduleId × Int)) :
    Database W :=
  (s.unlock w).put w (.failing id exc rest)

def begin (sch : Scheduler) (w : WorkerId) : Option (Database W) :=
  match s.phase w with
  | .ticking ((id, scheduledFor) :: rest) =>
    if s.free w id = true then
      match s.rows id with
      | none => some (s.put w (.ticking rest))
      | some row =>
        if row.owned w = false then some (s.put w (.ticking rest))
        else if sch.handlers row.handler = false then
          some (s.fails w id
            (scheduleError ("no handler registered for " ++ quoted row.handler)) rest)
        else some ((s.lock w id).put w (.firing ⟨id, scheduledFor, row, [], [], false⟩ rest))
    else none
  | _ => none

def write (w : WorkerId) (x : W) : Option (Database W) :=
  match s.phase w with
  | .firing run rest =>
    some (s.put w (.firing { run with made := run.made ++ [x], pending := run.pending ++ [x] } rest))
  | _ => none

/-- The handler commits the session: its writes so far are kept and the lock is gone. -/
def handlerCommit (w : WorkerId) : Option (Database W) :=
  match s.phase w with
  | .firing run rest =>
    some { (s.unlock w).put w (.firing { run with pending := [] } rest) with
      written := s.written ++ run.pending.map fun x => (run.id, run.scheduledFor, x) }
  | _ => none

def handlerRollback (w : WorkerId) : Option (Database W) :=
  match s.phase w with
  | .firing run rest =>
    some ((s.unlock w).put w (.firing { run with pending := [], expired := true } rest))
  | _ => none

def handlerRaise (w : WorkerId) (exc : Raised) : Option (Database W) :=
  match s.phase w with
  | .firing run rest => some (s.fails w run.id exc rest)
  | _ => none

/-- `UPDATE` names the columns that differ from the loaded row. -/
def firedRow (seen row : Schedule) (now next : Int) : Schedule :=
  { row with
    lastRunAt := some now
    nextRunAt := next
    lease := none
    lastError := if seen.lastError = none then row.lastError else none
    consecutiveFailures := if seen.consecutiveFailures = 0 then row.consecutiveFailures else 0 }

def fire (w : WorkerId) (now next : Int) (run : Run W) (row : Schedule)
    (rest : List (ScheduleId × Int)) : Database W :=
  { ((s.store run.id (firedRow run.row row now next)).unlock w).put w (.ticking rest) with
    fired := s.fired ++
      [⟨run.id, run.row.name, run.scheduledFor, w, now, next, run.made⟩]
    written := s.written ++ run.pending.map fun x => (run.id, run.scheduledFor, x) }

/-- From the handler's return to the commit. A row that a rollback expired cannot be read
outside the session's own calls. -/
def commit (c : Croniter) (w : WorkerId) (now : Int) : Option (Database W) :=
  match s.phase w with
  | .firing run rest =>
    if run.expired = true then
      some (s.fails w run.id ⟨"MissingGreenlet", "greenlet_spawn has not been called"⟩ rest)
    else
      match nextFireTime c run.row.cron run.row.timezone (max now run.scheduledFor) with
      | .error e => some (s.fails w run.id e rest)
      | .ok next =>
        if s.free w run.id = true then
          match s.rows run.id with
          | none => some (s.fails w run.id ⟨"StaleDataError", "0 were matched"⟩ rest)
          | some row => some (s.fire w now next run row rest)
        else none
  | _ => none

def failedRow (row : Schedule) (w : WorkerId) (expires : Int) (exc : Raised) : Schedule :=
  { row with
    lease := some ⟨w, expires⟩
    lastError := some (String.ofList ((exc.kind ++ ": " ++ exc.text).toList.take 2000))
    consecutiveFailures := row.consecutiveFailures + 1 }

def record (sch : Scheduler) (w : WorkerId) (now : Int) : Option (Database W) :=
  match s.phase w with
  | .failing id exc rest =>
    if s.free w id = true then
      match s.rows id with
      | none => some (s.put w (.ticking rest))
      | some row =>
        if row.owned w = false then some (s.put w (.ticking rest))
        else some ((s.store id (failedRow row w (now + sch.retryBackoff) exc)).put w
          (.ticking rest))
    else none
  | _ => none

def finish (w : WorkerId) : Option (Database W) :=
  match s.phase w with
  | .ticking [] => some (s.put w .idle)
  | _ => none

def crash (w : WorkerId) : Database W := (s.unlock w).put w .idle

def step (c : Croniter) (pool : WorkerId → Scheduler) : Act W → Option (Database W)
  | .create id name cron timezone handler now => s.create c id name cron timezone handler now
  | .claim w now ids => s.claim (pool w) w now ids
  | .begin w => s.begin (pool w) w
  | .write w x => s.write w x
  | .handlerCommit w => s.handlerCommit w
  | .handlerRollback w => s.handlerRollback w
  | .handlerRaise w exc => s.handlerRaise w exc
  | .commit w now => s.commit c w now
  | .record w now => s.record (pool w) w now
  | .finish w => s.finish w
  | .crash w => some (s.crash w)

/-- No worker has started. The rows are any, with any leases of workers that are gone. -/
structure Fresh : Prop where
  locks : ∀ id, s.locks id = none
  phase : ∀ w, s.phase w = .idle
  claims : s.claims = []
  fired : s.fired = []
  written : s.written = []

end Database

def workers (c : Croniter) (pool : WorkerId → Scheduler) : System (Database W) (Act W) where
  init := Database.Fresh
  step s a t := s.step c pool a = some t

/-- The firings of one schedule, each from where the one before it left the schedule and
past its own time, from `a` to `b`. -/
def Chained : Int → List (Fired W) → Int → Prop
  | a, [], b => a = b
  | a, f :: fs, b =>
    f.scheduledFor = a ∧ f.scheduledFor < f.movedTo ∧ f.time < f.movedTo ∧ Chained f.movedTo fs b

def firedOf (id : ScheduleId) (fs : List (Fired W)) : List (Fired W) :=
  fs.filter fun f => f.schedule = id

def writtenBy (fs : List (Fired W)) : List (ScheduleId × Int × W) :=
  fs.flatMap fun f => f.writes.map fun x => (f.schedule, f.scheduledFor, x)

structure ExactlyOnce (s : Database W) : Prop where
  apart : s.fired.Pairwise fun f g => f.schedule = g.schedule → f.movedTo ≤ g.scheduledFor
  claimed : ∀ f ∈ s.fired, ⟨f.worker, f.schedule, f.scheduledFor⟩ ∈ s.claims
  moves : ∀ id row, s.rows id = some row → ∃ t, Chained t (firedOf id s.fired) row.nextRunAt
  writes : s.written = writtenBy s.fired

/-- No handler commits the session it is given. -/
def keepsSession (_ : Database W) : Act W → Prop
  | .handlerCommit _ => False
  | _ => True

instance (s : Database W) : DecidablePred (keepsSession s) := fun a =>
  match a with
  | .handlerCommit _ => isFalse id
  | .create .. | .claim .. | .begin _ | .write .. | .handlerRollback _ | .handlerRaise ..
  | .commit .. | .record .. | .finish _ | .crash _ => isTrue trivial

end Autora.Schedules
