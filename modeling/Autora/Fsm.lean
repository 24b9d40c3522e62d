import Mathlib.Data.List.Sort

/-! Lifecycle state machines: which moves are legal, which states are final,
and the shortest legal path between two states. -/

namespace Autora

/-- `fsm.StateMachine` without its guards. -/
structure StateMachine (S : Type) where
  entityType : String
  /-- `str(state)`, which is also the order moves are tried in. -/
  value : S → String
  transitions : S → List S

inductive FSMError where
  | illegalTransition (entityType from_ to_ : String) (allowed : List String)
  deriving DecidableEq, Repr

namespace StateMachine

variable {S : Type} [DecidableEq S]

def allowedFrom (m : StateMachine S) (state : S) : List S := m.transitions state

def can (m : StateMachine S) (from_ to_ : S) : Bool := to_ ∈ m.allowedFrom from_

def isTerminal (m : StateMachine S) (state : S) : Bool := (m.allowedFrom state).isEmpty

def illegal (m : StateMachine S) (from_ to_ : S) : FSMError :=
  .illegalTransition m.entityType (m.value from_) (m.value to_)
    (((m.allowedFrom from_).map m.value).insertionSort (· ≤ ·))

/-- `check`: raise if the entity may not move there. -/
def check (m : StateMachine S) (current target : S) : Except FSMError Unit :=
  if m.can current target then .ok () else .error (m.illegal current target)

/-- The states through which the search reached `s`, last first, up to `start`. -/
def trail (previous : List (S × S)) (start : S) : Nat → S → List S
  | 0, s => [s]
  | n + 1, s =>
    if s = start then [s]
    else match previous.lookup s with
      | some p => s :: trail previous start n p
      | none => [s]

/-- The moves out of one state of the frontier: a path when one of them is the
goal, else the search's record and the states to look at next. -/
def expand (start goal current : S) :
    List S → List (S × S) → List S → List (S × S) × List S × Bool
  | [], previous, frontier => (previous, frontier, false)
  | nxt :: rest, previous, frontier =>
    if (previous.lookup nxt).isSome || nxt = start then
      expand start goal current rest previous frontier
    else if nxt = goal then
      ((nxt, current) :: previous, frontier, true)
    else
      expand start goal current rest ((nxt, current) :: previous) (frontier ++ [nxt])

/-- The breadth-first search of `shortest_path`; the fuel counts frontier states. -/
def search (m : StateMachine S) (start goal : S) :
    Nat → List (S × S) → List S → Option (List S)
  | 0, _, _ => none
  | _ + 1, _, [] => none
  | n + 1, previous, current :: frontier =>
    let nexts := (m.allowedFrom current).insertionSort (fun a b => m.value a ≤ m.value b)
    match expand start goal current nexts previous frontier with
    | (found, _, true) => some (trail found start (found.length + 1) goal).reverse.tail
    | (previous', frontier', false) => search m start goal n previous' frontier'

/-- States to pass through, without `from_`, to reach `to_`; empty when already there. -/
def shortestPath (m : StateMachine S) (states : List S) (from_ to_ : S) :
    Except FSMError (List S) :=
  if from_ = to_ then .ok []
  else match search m from_ to_ (states.length + 1) [] [from_] with
    | some path => .ok path
    | none => .error (m.illegal from_ to_)

end StateMachine

end Autora
