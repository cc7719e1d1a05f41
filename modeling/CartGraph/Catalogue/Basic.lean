import CartGraph.Behaviour
import CartGraph.Node
import CartGraph.Value.Entries

/-!
# Catalogues

The node types that a graph may use, in order, each under its own id.
-/
namespace CartGraph

structure Catalogue where
  types : List NodeType
  distinct : (types.map NodeType.id).Nodup

namespace Catalogue

/-- Refuses a list in which an id occurs twice, naming the first id that comes again. -/
def ofTypes (types : List NodeType) : Except Error Catalogue :=
  if h : (types.map NodeType.id).Nodup then .ok ⟨types, h⟩
  else .error (.duplicateDefinition
    ((Definition.firstRepeated? [] (types.map NodeType.id)).getD ""))

def find? (c : Catalogue) (id : String) : Option NodeType := c.types.find? fun t => t.id == id

def contains (c : Catalogue) (id : String) : Bool := (c.find? id).isSome

def size (c : Catalogue) : Nat := c.types.length

def definitions (c : Catalogue) : List Definition := c.types.map NodeType.definition

/-- The type that a value names. Only texts name types, and lists and tables name nothing. -/
def named? (c : Catalogue) (id : Value) : Except Error (Option NodeType) := do
  match ← id.key with
  | .text s => return c.find? s
  | _ => return none

/-- The type that a value names, wanted by a node. -/
def require (c : Catalogue) (id node : Value) : Except Error NodeType := do
  match ← c.named? id with
  | some t => return t
  | none => throw (.compile (.unknownDefinition id.display node))

/-- The draft of a node of a type, with the type's defaults under the given properties. -/
def create (c : Catalogue) (definition node properties : Value) : Except Error Draft := do
  let t ← c.require definition node
  let entries ← properties.entries
  return { id := node, definitionId := definition
           properties := t.definition.defaults.update entries }

def entryTypes (c : Catalogue) : List NodeType := c.types.filter NodeType.isEntryPoint

def describe (c : Catalogue) : String := s!"NodeCatalogue({c.size} definitions)"

end Catalogue

end CartGraph
