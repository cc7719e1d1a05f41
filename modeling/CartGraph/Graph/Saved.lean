import CartGraph.Graph.Edit
import CartGraph.Number.Reading

/-!
# Saved graphs

All nodes of a saved graph are added before its connections, since pins may depend on the
properties of other nodes.
-/
namespace CartGraph

namespace Node

/-- A coordinate of a position: a number, or text that denotes one. -/
def coordinate : Value → Except Error Binary64
  | .float x => .ok x
  | .bool b => .ok (if b then .ofDecimal false 1 0 else .zero)
  | .int n =>
    match Binary64.ofInt? n with
    | some x => .ok x
    | none => .error (.coordinateTooLarge n)
  | .text s =>
    match Number.binary64? s with
    | some x => .ok x
    | none => .error (.coordinateText s)
  | v => .error (.coordinateType v)

/-- A position is a table with `x` and `y` or a list that starts with them. Anything else is the
origin, and so is a coordinate of a table that is unset. -/
def positionOf : Value → Except Error (Binary64 × Binary64)
  | .table entries => do
    let x ← coordinate ((Table.get entries "x").orElse (.int 0))
    let y ← coordinate ((Table.get entries "y").orElse (.int 0))
    return (x, y)
  | .list (x :: y :: _) => do
    let x ← coordinate x
    let y ← coordinate y
    return (x, y)
  | _ => .ok (.zero, .zero)

end Node

namespace Graph

/-- A field that must be there. -/
def requireField (t : Table) (name : String) : Except Error Value :=
  match t.get? name with
  | some v => .ok v
  | none => .error (.missingField name)

/-- The entries of a list of the document. A list that is not there has none. -/
def listField (t : Table) (name : String) : Except Error (List Value) :=
  match t.get? name with
  | none => .ok []
  | some v =>
    match v.parts? with
    | some parts => .ok parts
    | none => .error (.notAList name)

/-- An entry of the named list. -/
def asTable (v : Value) (list : String) : Except Error Table :=
  match v with
  | .table entries => .ok entries
  | _ => .error (.entryNotATable list)

/-- The node that a saved entry describes. The type's defaults stand under the saved properties. -/
def readNode (catalogue : Catalogue) (v : Value) : Except Error Draft := do
  let raw ← asTable v "nodes"
  let t ← catalogue.require ((raw.get? "definitionId").getD (.text "")) (raw.get "id")
  let properties ← (raw.get "properties").entries
  let id ← requireField raw "id"
  let definitionId ← requireField raw "definitionId"
  let position ← Node.positionOf (raw.get "position")
  return {
    id, definitionId, position
    properties := t.definition.defaults.update properties
    isEntryPoint := raw.get "isEntryPoint"
    eventName := raw.get "eventName" }

def addSavedNode (g : Graph) (v : Value) : Except Error Graph := do
  g.addNode (← readNode g.catalogue v)

def addSavedConnection (g : Graph) (v : Value) : Except Error Graph := do
  let raw ← asTable v "connections"
  let sourceNode ← requireField raw "fromNode"
  let sourcePin ← requireField raw "fromPin"
  let targetNode ← requireField raw "toNode"
  let targetPin ← requireField raw "toPin"
  g.connect sourceNode sourcePin targetNode targetPin

/-- The graph that a document describes. -/
def load (document : Value) (catalogue : Catalogue) : Except Error Graph := do
  let document ← asTable document "document"
  let nodes ← listField document "nodes"
  let g ← nodes.foldlM addSavedNode (empty catalogue)
  let connections ← listField document "connections"
  connections.foldlM addSavedConnection g

/-- The saved form of a graph. -/
def save (g : Graph) : Table := [
  (.text "nodes", .list (g.nodes.map Node.toValue)),
  (.text "connections", .list (g.connections.map Connection.toValue))]

end Graph

end CartGraph
