/-!
# Faults of a saved document

Where a document is not of the saved form, and what is wrong there.
-/
namespace CartGraph.Document

inductive Place where
  | root
  | node (index : Nat)
  | connection (index : Nat)
  | variable (index : Nat)
  deriving DecidableEq, Repr

namespace Place

def text : Place → String
  | .root => "graph root"
  | .node i => s!"nodes[{i}]"
  | .connection i => s!"connections[{i}]"
  | .variable i => s!"variables[{i}]"

/-- What the entries of the list are called. -/
def entryName : Place → String
  | .root => "graph"
  | .node _ => "node"
  | .connection _ => "connection"
  | .variable _ => "variable"

/-- The name of a field at this place. Fields of the document itself stand alone. -/
def field (p : Place) (name : String) : String :=
  match p with
  | .root => name
  | _ => p.text ++ "." ++ name

end Place

inductive Fault where
  | notAnObject
  | missingField (place : Place) (name : String)
  | notAList (name : String)
  | entryNotAnObject (place : Place)
  | fieldNotText (place : Place) (name : String)
  | fieldNotAnObject (place : Place) (name : String)
  | fieldNotABoolean (place : Place) (name : String)
  | emptyId (place : Place)
  | duplicateId (place : Place) (id : String)
  | unknownDefinition (place : Place) (id : String)
  | unknownEndpoint (place : Place) (name id : String)
  deriving DecidableEq, Repr

def Fault.message : Fault → String
  | .notAnObject => "graph JSON must be a JSON object at the top level"
  | .missingField p name => p.text ++ s!": missing required field '{name}'"
  | .notAList name => name ++ " must be a list"
  | .entryNotAnObject p => p.text ++ ": each " ++ p.entryName ++ " must be a JSON object"
  | .fieldNotText p name => p.field name ++ " must be a string"
  | .fieldNotAnObject p name => p.field name ++ " must be an object"
  | .fieldNotABoolean p name => p.field name ++ " must be a boolean"
  | .emptyId p => p.field "id" ++ " must not be empty"
  | .duplicateId p id => p.text ++ s!": duplicate node id '{id}'"
  | .unknownDefinition p id => p.text ++ s!": unknown node definition '{id}'"
  | .unknownEndpoint p name id => p.text ++ s!": {name} '{id}' not found in nodes"

end CartGraph.Document
