import Mathlib
import Autora.Lib.Worklists
import Autora.Events

/-! Workflow templates: a declarative graph of nodes with loops and halts, the
checks a template has to pass, and what the engine reads off it. -/

namespace Autora

open Worklists

/-- `display_name` is kept as what `str.format` makes of it: the text for the
run's params, or the parameter that is missing. -/
structure NodeSpec where
  name : String
  displayName : Dict → Except String String
  requiredRole : String
  dependsOn : List String := []
  input : Dict := []
  outputSchemaRef : Option String := none
  budgetUsd : Option Usd := none
  maxAttempts : Nat := 3
  priority : Int := 100
  service : Option String := none

structure Loop where
  check : String
  backTo : String
  again : Dict → Bool
  carry : Dict → Dict := fun _ => []
  maxRounds : Int := 2
  /-- `round_label.format(name=..., round=...)`. -/
  roundLabel : String → Nat → Except String String :=
    fun name round => .ok (name ++ " (round " ++ toString round ++ ")")

structure Halt where
  check : String
  fires : Dict → Bool
  /-- `reason.format(name=...)`. -/
  reason : String → Except String String := fun name => .ok (name ++ " stopped the work")

structure TemplateSpec where
  name : String
  nodes : List NodeSpec
  loops : List Loop := []
  halts : List Halt := []

inductive InvalidTemplate where
  | templateName (name : String)
  | noNodes (template : String)
  | duplicateNames (template : String) (duplicates : List String)
  | nodeNameOrRole (template node : String)
  | unknownDependencies (template node : String) (unknown : List String)
  | dependencyCycle (template : String) (among : List String)
  | loopUnknownNodes (template check backTo : String)
  | doesNotLead (template backTo check : String)
  | haltUnknownNode (template check : String)
  deriving DecidableEq, Repr

/-! The two name patterns; as in Python, `$` also matches before a final newline. -/

def isNameStart (c : Char) : Bool := 'a' ≤ c && c ≤ 'z'

def isNameChar (c : Char) : Bool := isNameStart c || ('0' ≤ c && c ≤ '9') || c == '_'

def newline : Char := Char.ofNat 10

/-- `_TEMPLATE_NAME` when dots are allowed, `_NAME` when not; `start` says that a
lower-case letter must come next. -/
def matchesName (dots start : Bool) : List Char → Bool
  | [] => !start
  | c :: cs =>
    if start then isNameStart c && matchesName dots false cs
    else if dots && c == '.' then matchesName dots true cs
    else (c == newline && cs.isEmpty) || (isNameChar c && matchesName dots false cs)

namespace TemplateSpec

variable (t : TemplateSpec)

def names : List String := t.nodes.map (·.name)

def node? (name : String) : Option NodeSpec := t.nodes.find? (·.name = name)

def depsOf (name : String) : List String := ((t.node? name).map (·.dependsOn)).getD []

def edges : Nat := (t.names.map fun n => (t.depsOf n).length).sum

/-- Every node `name` depends on, directly or transitively. -/
def upstream (name : String) : List String :=
  explore t.depsOf ((t.depsOf name).length + t.edges) [] (t.depsOf name).reverse

/-- The rounds of `topological_order`: each takes the nodes whose dependencies are done. -/
def orderLoop : Nat → List String → List NodeSpec → Except (List NodeSpec) (List String)
  | _, done, [] => .ok done
  | 0, _, remaining => .error remaining
  | n + 1, done, remaining =>
    let ready := remaining.filter fun n => n.dependsOn.all (· ∈ done)
    if ready.isEmpty then .error remaining
    else orderLoop n (done ++ ready.map (·.name))
      (remaining.filter fun n => !n.dependsOn.all (· ∈ done))

def topologicalOrder : Except InvalidTemplate (List NodeSpec) :=
  match orderLoop t.nodes.length [] t.nodes with
  | .ok done => .ok (done.filterMap t.node?)
  | .error remaining => .error (.dependencyCycle t.name (remaining.map (·.name)))

/-- The nodes in order; a template that is accepted has one. -/
def order : List NodeSpec := t.topologicalOrder.toOption.getD []

/-- The names a loop repeats: on a path from `back_to` to `check`. -/
def inside (loop : Loop) (name : String) : Bool :=
  name = loop.backTo || name = loop.check ||
    (name ∈ t.upstream loop.check && loop.backTo ∈ t.upstream name)

def loopBody (loop : Loop) : List NodeSpec := t.order.filter fun n => t.inside loop n.name

def duplicates : List String :=
  ((t.names.filter fun n => 1 < t.names.count n).dedup).insertionSort (· ≤ ·)

def nodeProblems (node : NodeSpec) : List InvalidTemplate :=
  (if matchesName false true node.name.toList && matchesName false true node.requiredRole.toList
    then [] else [.nodeNameOrRole t.name node.name]) ++
  (if (node.dependsOn.filter (· ∉ t.names)).isEmpty then []
    else [.unknownDependencies t.name node.name (node.dependsOn.filter (· ∉ t.names))])

def loopProblems (loop : Loop) : List InvalidTemplate :=
  if loop.check ∉ t.names || loop.backTo ∉ t.names then
    [.loopUnknownNodes t.name loop.check loop.backTo]
  else if loop.backTo ∉ t.upstream loop.check && loop.backTo ≠ loop.check then
    [.doesNotLead t.name loop.backTo loop.check]
  else []

def haltProblems (halt : Halt) : List InvalidTemplate :=
  if halt.check ∈ t.names then [] else [.haltUnknownNode t.name halt.check]

/-- What `__post_init__` checks, in its order; it raises the first problem. -/
def problems : List InvalidTemplate :=
  (if matchesName true true t.name.toList then [] else [.templateName t.name]) ++
  (if t.nodes.isEmpty then [.noNodes t.name] else []) ++
  (if t.duplicates.isEmpty then [] else [.duplicateNames t.name t.duplicates]) ++
  t.nodes.flatMap t.nodeProblems ++
  (match t.topologicalOrder with | .ok _ => [] | .error e => [e]) ++
  t.loops.flatMap t.loopProblems ++
  t.halts.flatMap t.haltProblems

end TemplateSpec

/-- A template that passed `__post_init__`. -/
structure WorkflowTemplate extends TemplateSpec where
  valid : toTemplateSpec.problems = []

end Autora
