import CartGraph.Association
import CartGraph.Graph.Basic
import CartGraph.Event.Parameter
import CartGraph.Library.Control
import CartGraph.Text.Uppercase

/-!
# Pins of a node

A node has the pins of its definition and those derived from its properties.
-/
namespace CartGraph

namespace Node

/-- The id of a branch that an entry of the branch list gives. -/
def branchId? : Value → Option String
  | .text s => let id := Text.strip s; if id.isEmpty then none else some id
  | .table entries =>
    match Table.get entries "id" with
    | .text s => let id := Text.strip s; if id.isEmpty then none else some id
    | _ => none
  | _ => none

/-- The branches of a sequence, `a`, `b` and `c` when it lists none. -/
def branchIds (n : Node) : List String :=
  let ids := match n.properties.get "branches" with
    | .list items => Association.distinctBy (fun s => s) [] (items.filterMap branchId?)
    | _ => []
  if ids.isEmpty then ["a", "b", "c"] else ids

def parameters (n : Node) : List Parameter := Parameter.ofValue (n.properties.get "parameters")

end Node

namespace Graph

/-- The custom event that a call refers to. A list or a table is no reference. -/
def calledEvent? (g : Graph) (n : Node) : Except Error (Option Node) := do
  let id ← ((n.properties.get "eventId").orElse (.text "")).key
  return (g.node? id).filter fun t => t.definitionId == Library.customEventId

/-- The pins that a node derives from its properties. -/
def derivedPins (g : Graph) (d : Definition) (n : Node) : Except Error (List Pin) :=
  match d.derivedPins with
  | .none => .ok []
  | .branches => .ok (n.branchIds.map fun id => .branchOut id (Text.upper id))
  | .parameters => .ok (n.parameters.map fun p => .valueOut p.outputPin p.kind p.name)
  | .arguments => do
    match ← g.calledEvent? n with
    | some target => return target.parameters.map fun p => .valueIn p.inputPin p.kind p.name
    | none => return []

structure PinSet where
  inputs : List Pin
  outputs : List Pin

namespace PinSet

def all (ps : PinSet) : List Pin := ps.inputs ++ ps.outputs

/-- The pin that a value names. Only a text names a pin. -/
def find? (ps : PinSet) (id : Value) : Option Pin :=
  match id with
  | .text s => ps.all.find? fun p => p.id == s
  | _ => none

end PinSet

/-- All pins of a node of the graph. -/
def pinsOf (g : Graph) (id : Key) : Except Error PinSet := do
  let t ← g.typeOf id
  let n ← g.node id
  let derived ← g.derivedPins t.definition n
  return {
    inputs := t.definition.inputs ++ derived.filter fun p => p.direction == .input
    outputs := t.definition.outputs ++ derived.filter fun p => p.direction == .output }

def findPin? (g : Graph) (node : Key) (pin : Value) : Except Error (Option Pin) := do
  return (← g.pinsOf node).find? pin

end Graph

end CartGraph
