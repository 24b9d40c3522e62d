import Autora.Events
import Autora.Lib.Locks
import Autora.Lib.Systems
import Autora.Lib.TopRows
import Autora.Lib.Utf8
import Autora.Lifecycles
import Mathlib.Data.Nat.Digits.Defs

/-! The trace of agent runs: a row for each step under its run's lock, and the payload in a blob
that is written before the row. -/

namespace Autora.Steps

open Untyped Utf8 Systems Locks TopRows

structure AgentRun where
  companyId : Id
  state : AgentRunState
  stepsCount : Nat
  deriving DecidableEq, Repr

/-- `columns` are those the caller gives: kind, summary, tool calls, prompt hash and cost. -/
structure AgentStep (δ : Type) where
  companyId : Id
  runId : Id
  seq : Nat
  columns : δ
  blobKey : Option Str
  deriving DecidableEq, Repr

/-- `f"{seq:05d}"`. -/
def padded (seq : Nat) : Str :=
  let digits := Nat.digits 10 seq
  (List.replicate (5 - digits.length) 0 ++ digits.reverse).map (· + 48)

section Recorder

-- `str` of a UUID
variable (str : Id → Str) {δ : Type}

def stepBlobKey (companyId runId : Id) (seq : Nat) : Str :=
  lit "companies/" ++ str companyId ++ lit "/runs/" ++ str runId ++ lit "/steps/" ++ padded seq ++
    lit ".json"

/-- Before which statement of `record_step` a transaction stands. -/
inductive Stage (δ : Type) where
  | locking (columns : δ) (payload : Option Bytes)
  | putting (companyId : Id) (seq : Nat) (columns : δ) (payload : Bytes)
  | inserting (row : AgentStep δ) (payload : Option Bytes)
  | ready
  deriving DecidableEq, Repr

-- the blob is written only where there is a payload
def Stage.locked {δ : Type} (companyId run : Id) (seq : Nat) (columns : δ) :
    Option Bytes → Stage δ
  | some payload => .putting companyId seq columns payload
  | none => .inserting ⟨companyId, run, seq, columns, none⟩ none

/-- A transaction, and the steps it has recorded, each with what it was given to keep. -/
structure Recording (δ : Type) where
  run : Id
  pending : List (AgentStep δ × Option Bytes)
  stage : Stage δ
  deriving DecidableEq, Repr

structure State (δ : Type) where
  runs : Id → Option AgentRun
  steps : List (AgentStep δ)
  blobs : Str → Option Bytes
  calls : Id → Option (Recording δ)
  locks : Id → Option Id

inductive Act (δ : Type) where
  | begin_ (i run : Id) (columns : δ) (payload : Option Bytes)
  -- one more step in the same transaction
  | record (i : Id) (columns : δ) (payload : Option Bytes)
  | next (i : Id)
  -- with the state the transaction leaves the run in
  | commit (i : Id) (state : AgentRunState)
  | rollback (i : Id)
  -- other transactions: a run is claimed, a run changes state
  | create (run companyId : Id)
  | move (run : Id) (state : AgentRunState)
  deriving DecidableEq, Repr

namespace State

def put (s : State δ) (i : Id) (call : Recording δ) : State δ :=
  { s with calls := Function.update s.calls i (some call) }

def close (s : State δ) (i : Id) : State δ :=
  { s with calls := Function.update s.calls i none, locks := release s.locks i }

def setRun (s : State δ) (id : Id) (run : AgentRun) : State δ :=
  { s with runs := Function.update s.runs id (some run) }

def lock (s : State δ) (i run : Id) : State δ := { s with locks := take s.locks run i }

def store (s : State δ) (key : Str) (payload : Bytes) : State δ :=
  { s with blobs := Function.update s.blobs key (some payload) }

def next (s : State δ) (i : Id) (call : Recording δ) : Option (State δ) :=
  match call.stage with
  | .locking columns payload =>
    match s.runs call.run with
    -- "agent run … does not exist"
    | none => some (s.close i)
    | some run =>
      if Free s.locks call.run i then
        -- "its trace is closed"
        if run.state.isOpen = false then some (s.close i)
        else
          let seq := run.stepsCount + call.pending.length
          some ((s.lock i call.run).put i
            { call with stage := .locked run.companyId call.run seq columns payload })
      else none
  | .putting companyId seq columns payload =>
    let key := stepBlobKey str companyId call.run seq
    some ((s.store key payload).put i
      { call with
        stage := .inserting ⟨companyId, call.run, seq, columns, some key⟩ (some payload) })
  | .inserting row payload =>
    some (s.put i { call with pending := call.pending ++ [(row, payload)], stage := .ready })
  | .ready => none

def commit (s : State δ) (i : Id) (call : Recording δ) (state : AgentRunState) :
    Option (State δ) :=
  match call.stage, s.runs call.run with
  | .ready, some run =>
    some { (s.close i).setRun call.run
        { run with state, stepsCount := run.stepsCount + call.pending.length } with
      steps := s.steps ++ call.pending.map Prod.fst }
  | _, _ => none

def step (s : State δ) : Act δ → Option (State δ)
  | .begin_ i run columns payload =>
    match s.calls i with
    | none => some (s.put i ⟨run, [], .locking columns payload⟩)
    | some _ => none
  | .record i columns payload => (s.calls i).bind fun call =>
    match call.stage with
    | .ready => some (s.put i { call with stage := .locking columns payload })
    | _ => none
  | .next i => (s.calls i).bind (s.next str i)
  | .commit i state => (s.calls i).bind fun call => s.commit i call state
  | .rollback i => (s.calls i).map fun _ => s.close i
  | .create id companyId =>
    match s.runs id with
    | none => some (s.setRun id ⟨companyId, .created, 0⟩)
    | some _ => none
  | .move id state =>
    match s.runs id, s.locks id with
    | some run, none => some (s.setRun id { run with state })
    | _, _ => none

/-- What `_resume` reads: the blob of the run's last step that has one. -/
def resume (s : State δ) (run : Id) : Option (Option Bytes) :=
  (top AgentStep.seq (fun _ => 0) 1 (s.steps.filter fun row =>
    row.runId = run && row.blobKey.isSome)).head?.map fun row => row.blobKey.bind s.blobs

end State

/-- Runs, recorders and the store, from nothing. -/
def trace : System (State δ) (Act δ) where
  init s := s.runs = (fun _ => none) ∧ s.steps = [] ∧ s.blobs = (fun _ => none) ∧
    s.calls = (fun _ => none) ∧ s.locks = fun _ => none
  step s a t := s.step str a = some t

end Recorder

/-- The steps a commit adds, each with what it was given to keep. -/
def committed {δ : Type} (s : State δ) : Act δ → List (AgentStep δ × Option Bytes)
  | .commit i _ => ((s.calls i).map Recording.pending).getD []
  | _ => []

/-- What the committed transactions were told to record, in the order of their commits. -/
def told {δ : Type} (h : List (System.Taken (State δ) (Act δ))) :
    List (AgentStep δ × Option Bytes) :=
  h.flatMap fun taken => committed taken.before taken.label

end Autora.Steps
