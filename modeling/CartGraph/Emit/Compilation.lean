import CartGraph.Emit.Progress
import CartGraph.Event.Signature
import CartGraph.Graph.Pins
import CartGraph.Lua.Limits
import CartGraph.Lua.Operator
import CartGraph.Settings

/-!
# What a compilation fixes

The graph, the settings, the names of the globals and the signatures of the custom events. The
functions here answer questions about one node that do not depend on the walk.
-/
namespace CartGraph

/-- Writes the literal of a value of some kind on behalf of a node. The text is the property that
messages name. -/
abbrev Writer := Key → Kind → Value → String → Except Error String

structure Compilation where
  graph : Graph
  settings : Settings := {}
  /-- The names of workspace variables by id. -/
  globals : List (String × String) := []
  /-- The signatures of custom events by node id in canonical form. -/
  events : List (Key × Signature) := []

namespace Compilation

/-- A line of a block of some depth. -/
def line (c : Compilation) (level : Int) (text : String) : Except Error String :=
  (c.settings.indent level).map (· ++ text)

/-- Refuses a count that passes a limit of the settings. -/
def checkLimit (name : String) (limit : Value) (count : Int) (node : Key) : Except Error Unit := do
  if ← Settings.passes name limit count then throw (.compile (.tooComplex name limit node))

/-- Counts a visit of a node. -/
def tick (c : Compilation) (node : Key) : Emit Unit := fun s =>
  let s' := { s with visits := s.visits + 1 }
  (checkLimit "max_steps" c.settings.maxSteps s'.visits node, s')

def checkDepth (c : Compilation) (depth : Int) (node : Key) : Emit Unit :=
  .lift (checkLimit "max_depth" c.settings.maxDepth depth node)

/-- A property of a node, the default of its definition where it is `null`. It must fit its
definition. What is still `null` is the given fallback. -/
def property (c : Compilation) (node key : Key) (fallback : Value) : Except Error Value := do
  let t ← c.graph.typeOf node
  let n ← c.graph.node node
  let stored := (n.properties.find? key).getD .null
  match t.definition.property? key with
  | none => return if stored.isNull then fallback else stored
  | some p =>
    let value := if stored.isNull then p.default else stored
    p.check value node
    return if value.isNull then fallback else value

/-- A property as a name. -/
def nameProperty (c : Compilation) (node : Key) (key fallback : String) : Except Error String := do
  let v ← c.property node key (.text fallback)
  return Lua.sanitize v.spelling

/-- A literal on behalf of a node. -/
def literal (_ : Compilation) (node : Key) (kind : Kind) (v : Value) (key : String) :
    Except Error String :=
  match Lua.literal kind v key with
  | .ok text => .ok text
  | .error (.invalidProperty .null key value _) =>
    .error (.compile (.invalidProperty node key value ("not a valid " ++ kind.name)))
  | .error e => .error (.compile e)

/-- A literal on behalf of a node, within the limits. -/
def literalOn (c : Compilation) (room : Room) : Writer := fun node kind v key =>
  room.within (Lua.limit? kind v) (c.literal node kind v key)

def comparison (_ : Compilation) (node : Key) (v : Value) : Except Error String :=
  (Lua.comparison v node).mapError Error.compile

/-- The global that a node names: by the id of a workspace variable, else by a name. -/
def variableName (c : Compilation) (node : Key) : Except Error String := do
  let n ← c.graph.node node
  let byName := Lua.sanitize ((n.properties.get "name").orElse (.text "var")).display
  match n.properties.get "variableId" with
  | .text id => return (c.globals.lookup id).getD byName
  | _ => return byName

/-- The signature of the custom event that a value refers to. Only texts refer to events. -/
def event? (c : Compilation) (v : Value) : Option Signature :=
  match v with
  | .text id => c.events.lookup (.text id)
  | _ => none

end Compilation

end CartGraph
