import CartGraph.Association
import CartGraph.Event.Parameter
import CartGraph.Node

/-!
# Signatures of custom events

Every entry node without an event name is compiled to a function of its own, named after what the
node is called.
-/
namespace CartGraph

structure Signature where
  nodeId : Key
  displayName : String
  functionName : String
  parameters : List Parameter
  deriving DecidableEq, Repr

namespace Signature

def parameterList (s : Signature) : String := ", ".intercalate (s.parameters.map Parameter.luaName)

def displayNameOf (n : Node) : String :=
  match n.properties.get "name" with
  | .text s =>
    let text := Text.strip s
    if text.isEmpty then "CustomEvent" else text
  | _ => "CustomEvent"

/-- The function name before numbering. -/
def baseName (displayName : String) : String :=
  let base := Lua.sanitize displayName
  if Text.startsWith "custom_" base then base else "custom_" ++ base

def ofNode (used : List String) (n : Node) : Signature :=
  let displayName := displayNameOf n
  { nodeId := n.id
    displayName
    functionName := Lua.fresh used (baseName displayName) 1
    parameters := Parameter.ofValue (n.properties.get "parameters") }

/-- Adds the signatures of nodes, given the function names in use. A node id that comes again takes
the place of the earlier one. -/
def collect (used : List String) (found : List (Key × Signature)) :
    List Node → List (Key × Signature)
  | [] => found
  | n :: rest =>
    let s := ofNode used n
    collect (s.functionName :: used) (Association.assign n.id.canonical s found) rest

/-- The signatures of entry nodes by node id in canonical form, in the order of the nodes. -/
def ofNodes (nodes : List Node) : List (Key × Signature) := collect [] [] nodes

def toValue (s : Signature) : Value := .object [
  ("nodeId", s.nodeId),
  ("displayName", .text s.displayName),
  ("functionName", .text s.functionName),
  ("parameterList", .text s.parameterList),
  ("parameters", .list (s.parameters.map Parameter.toValue))]

end Signature

end CartGraph
