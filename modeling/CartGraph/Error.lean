import CartGraph.Pin
import CartGraph.Document.Fault

/-!
# Errors

A `CompileError` is a fault of the graph that is compiled, and says which node and pin it concerns.
`Error` adds the faults of the calls themselves: documents of the wrong form, unknown names, wrong
settings.
-/
namespace CartGraph

/-- Why two pins can not be wired. -/
inductive WiringFault where
  | unknownNode (node : Key)
  | selfLoop (node : Key)
  | noPin (node : Key) (pin : Value)
  | notAnOutput (node pin : Key)
  | notAnInput (node pin : Key)
  | incompatible (source : Kind) (sourceNode sourcePin : Key) (target : Kind)
      (targetNode targetPin : Key)
  /-- The two pins are joined already, by the connection that is described. -/
  | duplicate (existing : String) (node pin : Key)
  | inputTaken (node pin : Key)
  | execTaken (node pin : Key)
  | reported (text : String) (node pin : Value)

namespace WiringFault

/-- How messages name a pin of a node. -/
def pinText (node pin : Key) : String := node.display ++ "." ++ pin.display

def message : WiringFault → String
  | .unknownNode node => "Connection references unknown node '" ++ node.display ++ "'"
  | .selfLoop node => "Node '" ++ node.display ++ "' can not be connected to itself"
  | .noPin node pin => "Node '" ++ node.display ++ "' has no pin '" ++ pin.display ++ "'"
  | .notAnOutput node pin => "Pin '" ++ pinText node pin ++ "' is not an output"
  | .notAnInput node pin => "Pin '" ++ pinText node pin ++ "' is not an input"
  | .incompatible source node pin target node' pin' =>
    "Can not connect " ++ source.name ++ " pin '" ++ pinText node pin ++ "' to " ++
      target.name ++ " pin '" ++ pinText node' pin' ++ "'"
  | .duplicate existing _ _ => "Duplicate connection " ++ existing
  | .inputTaken node pin => "Input '" ++ pinText node pin ++ "' already has a connection"
  | .execTaken node pin => "Exec output '" ++ pinText node pin ++ "' already has a consumer"
  | .reported text _ _ => text

def nodeId : WiringFault → Value
  | .unknownNode node | .selfLoop node | .noPin node _ | .notAnOutput node _
  | .notAnInput node _ | .incompatible _ _ _ _ node _ | .duplicate _ node _
  | .inputTaken node _ | .execTaken node _ => node
  | .reported _ node _ => node

def pinId : WiringFault → Value
  | .unknownNode _ | .selfLoop _ => .null
  | .noPin _ pin => pin
  | .notAnOutput _ pin | .notAnInput _ pin | .incompatible _ _ _ _ _ pin
  | .duplicate _ _ pin | .inputTaken _ pin | .execTaken _ pin => pin
  | .reported _ _ pin => pin

end WiringFault

/-- Nodes and pins are told as they were named, `null` where there is none to tell. -/
inductive CompileError where
  /-- A failure told in words, such as a node that can not be emitted where it stands. -/
  | general (text : String) (node pin : Value)
  /-- The catalogue has no such definition. -/
  | unknownDefinition (definition : String) (node : Value)
  /-- A required input has no wire, no inline value and no default. -/
  | missingInput (node pin : Value)
  /-- A chain of the named relation comes back to a node it started from. -/
  | cycle (node : Value) (relation : String)
  /-- An output was read where the local that holds it is not in scope. -/
  | danglingValue (node pin reader : Value)
  /-- A property can not be written as what it should be. -/
  | invalidProperty (node : Value) (key : String) (value : Value) (reason : String)
  /-- Several entry nodes answer to one event. -/
  | duplicateEntry (event : String) (nodes : List String)
  /-- A limit of the settings was passed. -/
  | tooComplex (limitName : String) (limit node : Value)
  | invalidConnection (fault : WiringFault)

namespace CompileError

def notAStatement (node : Key) (definition : String) : CompileError :=
  .general ("Node '" ++ node.display ++ "' (" ++ definition ++ ") can not be emitted as a statement")
    node .null

def notAValue (node : Key) (definition : String) (pin : Key) : CompileError :=
  .general ("Node '" ++ node.display ++ "' (" ++ definition ++ ") does not produce a value") node pin

def kindName : CompileError → String
  | .general .. => "CompileError"
  | .unknownDefinition .. => "UnknownNodeDefinition"
  | .missingInput .. => "MissingRequiredInput"
  | .cycle .. => "GraphCycleDetected"
  | .danglingValue .. => "DanglingValueReference"
  | .invalidProperty .. => "InvalidPropertyValue"
  | .duplicateEntry .. => "DuplicateEntryPoint"
  | .tooComplex .. => "GraphTooComplex"
  | .invalidConnection .. => "InvalidConnection"

/-- A part of a message about something that has a name, empty when the name is unset. -/
def naming (before : String) (name : Value) (after : String) : String :=
  if name.truthy then before ++ name.display ++ after else ""

def message : CompileError → String
  | .general text _ _ => text
  | .unknownDefinition definition node =>
    s!"Unknown node definition '{definition}'" ++ naming " (node '" node "')"
  | .missingInput node pin =>
    "Node '" ++ node.display ++ "' requires a value on input '" ++ pin.display ++ "'"
  | .cycle node relation => s!"Cyclic {relation} connection involving node '" ++ node.display ++ "'"
  | .danglingValue node pin reader =>
    "Output '" ++ pin.display ++ "' of node '" ++ node.display ++ "' was read" ++
      naming " by node '" reader "'" ++ " before it was emitted on the active exec path"
  | .invalidProperty node key value reason =>
    "Invalid value " ++ value.inspect ++ " for " ++ naming "node '" node "' " ++
      s!"property '{key}'" ++ (if reason.isEmpty then "" else ": " ++ reason)
  | .duplicateEntry event nodes =>
    s!"Event '{event}' has more than one entry node: " ++ ", ".intercalate nodes
  | .tooComplex limitName limit _ => s!"Graph exceeds the {limitName} limit of " ++ limit.display
  | .invalidConnection fault => fault.message

def nodeId : CompileError → Value
  | .general _ node _ | .unknownDefinition _ node | .invalidProperty node _ _ _
  | .tooComplex _ _ node | .missingInput node _ | .cycle node _ | .danglingValue node _ _ => node
  | .duplicateEntry _ [] => .null
  | .duplicateEntry _ (node :: _) => .text node
  | .invalidConnection fault => fault.nodeId

def pinId : CompileError → Value
  | .general _ _ pin | .missingInput _ pin | .danglingValue _ pin _ => pin
  | .invalidConnection fault => fault.pinId
  | _ => .null

/-- The report of an error: its kind, its message and what it concerns. -/
def report (e : CompileError) : Value := .object [
  ("error", .text e.kindName),
  ("message", .text e.message),
  ("nodeId", e.nodeId),
  ("pinId", e.pinId)]

end CompileError

inductive Error where
  | compile (e : CompileError)
  | document (fault : Document.Fault)
  -- definitions and the catalogue
  | unknownPropertyType (type key : String)
  | duplicatePin (pin definition : String)
  | listedAsInput (pin definition : String)
  | listedAsOutput (pin definition : String)
  | duplicateDefinition (id : String)
  | noStatements (behaviour : String)
  | noValues (behaviour : String)
  /-- A choice fits none of the options, and the options can not be told. -/
  | optionNotText (option : Value)
  -- names and graphs
  /-- A value with parts stands where a name or a key is needed. -/
  | notAKey (v : Value)
  | duplicateNode (id : Key)
  | absentNode (id : Key)
  | unknownNode (id : Key)
  | noSuchConnection
  | connectionIndex (index : Int)
  /-- A property of a new node can not be given under this key. -/
  | unusableKey (key : Key)
  -- documents that were not checked before they were loaded
  | missingField (name : String)
  | notAList (name : String)
  | entryNotATable (list : String)
  | misshapenField (name : String)
  /-- Properties that are neither a table nor a list of pairs. -/
  | notEntries (v : Value)
  /-- Something of another length where a pair is needed. -/
  | notAPair (v : Value)
  | coordinateText (text : String)
  | coordinateType (value : Value)
  | coordinateTooLarge (value : Int)
  | integerTooLong
  | nestedTooDeep
  -- events and emission
  /-- Event names of which some are texts and others numbers. -/
  | mixedEvents
  /-- A node whose id is not a text can not be told among others. -/
  | idNotText (id : Key)
  | noSuchPin (definition pin : String)
  | slotsWithoutPlaceholders
  | slotWithoutPlaceholder (index : Nat)
  | rootScope
  | walkTooDeep (node : Key)
  -- settings and files
  | settingNotAnInteger (name text : String)
  | settingNotPositive (name : String) (value : Int)
  | settingNotText (name : String)
  | unknownSetting (name : String)
  | limitNotANumber (name : String)
  | indentNotAnInteger
  | indentOutOfRange (width : Int)
  | indentTooWide (width : Int)
  | isDirectory (path : String)
  | notDirectory (path : String)
  | fileExists (path : String)

namespace Error

/-- The wording of an error, none for those that have no wording of their own. -/
def message? : Error → Option String
  | .compile e => some e.message
  | .document fault => some fault.message
  | .unknownPropertyType type key => some s!"Unknown property type '{type}' for property '{key}'"
  | .duplicatePin pin definition =>
    some s!"Duplicate pin id '{pin}' on node definition '{definition}'"
  | .listedAsInput pin definition =>
    some s!"Pin '{pin}' on '{definition}' is listed as an input but is an output"
  | .listedAsOutput pin definition =>
    some s!"Pin '{pin}' on '{definition}' is listed as an output but is an input"
  | .duplicateDefinition id => some s!"Node definition '{id}' is registered twice"
  | .noStatements behaviour => some s!"{behaviour} does not emit statements"
  | .noValues behaviour => some s!"{behaviour} does not produce values"
  | .duplicateNode id => some ("Node with id '" ++ id.display ++ "' already exists in the graph")
  | .absentNode id => some ("Node with id '" ++ id.display ++ "' does not exist in the graph")
  | .noSuchPin definition pin => some s!"Node definition '{definition}' has no pin '{pin}'"
  | .slotsWithoutPlaceholders => some "every argument slot needs a placeholder entry"
  | .slotWithoutPlaceholder i => some s!"argument slot {i} is omitted and has no placeholder"
  | .rootScope => some "can not pop the root scope"
  | .settingNotAnInteger name text => some (name ++ " must be an integer, got " ++ Text.quoted text)
  | .settingNotPositive name value => some s!"{name} must be positive, got {value}"
  | _ => none

end Error

/-- The key that a value is. -/
def Value.key (v : Value) : Except Error Key :=
  match Key.ofValue? v with
  | some k => .ok k
  | none => .error (.notAKey v)

@[simp] theorem Value.key_toValue (k : Key) : k.toValue.key = .ok k := by
  simp [Value.key]

end CartGraph
