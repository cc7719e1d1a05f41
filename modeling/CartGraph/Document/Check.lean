import CartGraph.Catalogue.Basic
import CartGraph.Document.Fault

/-!
# Checking saved documents

A document is checked from top to bottom, and the first fault is reported. A node of an unknown type
is a fault when the check is strict; otherwise it is only noted.
-/
namespace CartGraph.Document

/-- What a check found. -/
structure Verdict where
  /-- What was noted before the check ended. -/
  warnings : List Fault := []
  fault : Option Fault := none
  deriving DecidableEq, Repr

def requireFields (place : Place) (t : Table) : List String → Except Fault Unit
  | [] => .ok ()
  | name :: rest => if t.has name then requireFields place t rest else .error (.missingField place name)

/-- The text of a field. -/
def requireText (place : Place) (t : Table) (name : String) : Except Fault String :=
  match t.get name with
  | .text s => .ok s
  | _ => .error (.fieldNotText place name)

/-- A node entry, given the ids before it: its id and the id of its definition. -/
def checkNode (place : Place) (seen : List String) : Value → Except Fault (String × String)
  | .table t => do
    requireFields place t ["id", "definitionId"]
    let id ← requireText place t "id"
    let definition ← requireText place t "definitionId"
    if (Text.strip id).isEmpty then throw (.emptyId place)
    if seen.contains id then throw (.duplicateId place id)
    match Table.get t "properties" with
    | .null | .table _ => pure ()
    | _ => throw (.fieldNotAnObject place "properties")
    match Table.get t "isEntryPoint" with
    | .null | .bool _ => pure ()
    | _ => throw (.fieldNotABoolean place "isEntryPoint")
    match Table.get t "eventName" with
    | .null | .text _ => pure ()
    | _ => throw (.fieldNotText place "eventName")
    return (id, definition)
  | _ => .error (.entryNotAnObject place)

/-- Node entries from an index on, given the ids before them: what was noted, and all ids. -/
def checkNodes (catalogue : Option Catalogue) (strict : Bool) (index : Nat) (seen : List String) :
    List Value → List Fault × Except Fault (List String)
  | [] => ([], .ok seen)
  | v :: rest =>
    match checkNode (.node index) seen v with
    | .error fault => ([], .error fault)
    | .ok (id, definition) =>
      let unknown := catalogue.any fun c => !c.contains definition
      let fault := Fault.unknownDefinition (.node index) definition
      if unknown && strict then ([], .error fault)
      else
        let (warnings, result) := checkNodes catalogue strict (index + 1) (id :: seen) rest
        (if unknown then fault :: warnings else warnings, result)

def checkConnection (place : Place) (ids : List String) : Value → Except Fault Unit
  | .table t => do
    requireFields place t ["fromNode", "fromPin", "toNode", "toPin"]
    let source ← requireText place t "fromNode"
    let _ ← requireText place t "fromPin"
    let target ← requireText place t "toNode"
    let _ ← requireText place t "toPin"
    if !ids.contains source then throw (.unknownEndpoint place "fromNode" source)
    if !ids.contains target then throw (.unknownEndpoint place "toNode" target)
  | _ => .error (.entryNotAnObject place)

def checkConnections (ids : List String) (index : Nat) : List Value → Except Fault Unit
  | [] => .ok ()
  | v :: rest => do
    checkConnection (.connection index) ids v
    checkConnections ids (index + 1) rest

def checkVariables (index : Nat) : List Value → Except Fault Unit
  | [] => .ok ()
  | .table t :: rest => do
    requireFields (.variable index) t ["id"]
    checkVariables (index + 1) rest
  | _ :: _ => .error (.entryNotAnObject (.variable index))

/-- What stands beside nodes and connections. -/
def checkExtras (t : Table) : Except Fault Unit := do
  match t.get "variables" with
  | .null => pure ()
  | .list items => checkVariables 0 items
  | _ => throw (.notAList "variables")
  match t.get "settings" with
  | .null => pure ()
  | .table settings =>
    match Table.get? settings "use60Fps" with
    | none | some (.bool _) => pure ()
    | some _ => throw (.fieldNotABoolean .root "settings.use60Fps")
  | _ => throw (.fieldNotAnObject .root "settings")

/-- The lists of nodes and connections of a document. -/
def requireLists : Value → Except Fault (Table × List Value × List Value)
  | .table t => do
    requireFields .root t ["nodes", "connections"]
    match Table.get t "nodes", Table.get t "connections" with
    | .list nodes, .list connections => return (t, nodes, connections)
    | .list _, _ => throw (.notAList "connections")
    | _, _ => throw (.notAList "nodes")
  | _ => .error .notAnObject

def faultOf : Except Fault Unit → Option Fault
  | .ok _ => none
  | .error fault => some fault

/-- Checks a document, its definitions only if a catalogue is given. -/
def check (catalogue : Option Catalogue) (strict : Bool) (v : Value) : Verdict :=
  match requireLists v with
  | .error fault => { fault := some fault }
  | .ok (t, nodes, connections) =>
    match checkNodes catalogue strict 0 [] nodes with
    | (warnings, .error fault) => { warnings, fault := some fault }
    | (warnings, .ok ids) =>
      { warnings, fault := faultOf do checkConnections ids 0 connections; checkExtras t }

end CartGraph.Document
