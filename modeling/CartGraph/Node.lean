import CartGraph.Value.Display

/-!
# Nodes

A draft is a node as it is described. It becomes a node when its type is known and its id can name
it.
-/
namespace CartGraph

structure Draft where
  id : Value
  definitionId : Value
  properties : Table := []
  position : Binary64 × Binary64 := (.zero, .zero)
  /-- Overrides whether the node starts a function, `null` leaves it to the type. -/
  isEntryPoint : Value := .null
  /-- Overrides the event that the node answers to, `null` leaves it to the type. -/
  eventName : Value := .null

structure Node where
  id : Key
  definitionId : String
  properties : Table := []
  position : Binary64 × Binary64 := (.zero, .zero)
  isEntryPoint : Value := .null
  eventName : Value := .null

/-- A field that is saved only where it is set. -/
def Draft.optionalField (name : String) (v : Value) : List (String × Value) :=
  if v.isNull then [] else [(name, v)]

/-- The saved form of a draft. -/
def Draft.toValue (d : Draft) : Value := .object ([
  ("id", d.id),
  ("definitionId", d.definitionId),
  ("properties", .table d.properties),
  ("position", .object [("x", .float d.position.1), ("y", .float d.position.2)])] ++
  optionalField "isEntryPoint" d.isEntryPoint ++ optionalField "eventName" d.eventName)

namespace Node

/-- The node that a draft describes, under an id and a type that were found to be usable. -/
def ofDraft (id : Key) (definitionId : String) (d : Draft) : Node :=
  { id, definitionId, properties := d.properties, position := d.position
    isEntryPoint := d.isEntryPoint, eventName := d.eventName }

/-- The draft of a node that is as it was described. -/
def draft (n : Node) : Draft :=
  { id := n.id, definitionId := n.definitionId, properties := n.properties
    position := n.position, isEntryPoint := n.isEntryPoint, eventName := n.eventName }

/-- The saved form of a node. -/
def toValue (n : Node) : Value := n.draft.toValue

def describe (n : Node) : String :=
  "NodeInstance(" ++ n.id.display ++ ": " ++ n.definitionId ++ ")"

end Node

end CartGraph
