import CartGraph.Pin
import CartGraph.Lua.Identifier
import CartGraph.Lua.FreshName

/-!
# Parameters of custom events

A custom event lists its parameters in a property. Each has an id, which names its pins, and a Lua
name, which is unique among the parameters of the event. Whatever the property holds, its list of
parameters is defined.
-/
namespace CartGraph

structure Parameter where
  id : String
  name : String
  luaName : String
  kind : Kind
  optional : Bool
  deriving DecidableEq, Repr

namespace Parameter

/-- The pin of the event that gives the parameter's value. -/
def outputPin (p : Parameter) : String := "param_" ++ p.id

/-- The pin of a call that takes the argument. -/
def inputPin (p : Parameter) : String := "arg_" ++ p.id

/-- The trimmed text of a field that is set, the fallback if nothing is left of it. -/
def fieldText (entry : Table) (name fallback : String) : String :=
  let text := Text.strip ((entry.get name).orElse (.text "")).display
  if text.isEmpty then fallback else text

/-- A number with at least two digits. -/
def twoDigits (n : Nat) : String := if n < 10 then "0" ++ toString n else toString n

/-- The kind of a parameter. Exec and table are not kinds of parameters. -/
def kindOf (entry : Table) : Kind :=
  match Kind.ofValue ((entry.get? "type").getD (.text "any")) with
  | .exec | .table => .any
  | kind => kind

/-- The parameter that an entry of the list describes. Entries are counted from zero. -/
def ofEntry (index : Nat) (used : List String) (v : Value) : Parameter :=
  let entry : Table := match v with
    | .table entries => entries
    | _ => []
  let name := fieldText entry "name" ("param" ++ toString (index + 1))
  { id := fieldText entry "id" ("param_" ++ twoDigits (index + 1))
    name
    luaName := Lua.fresh used (Lua.sanitize name) 2
    kind := kindOf entry
    optional := (entry.get "optional").truthy }

/-- The parameters of a list of entries, given the index of the first and the Lua names in use. -/
def ofEntries (index : Nat) (used : List String) : List Value → List Parameter
  | [] => []
  | v :: rest =>
    let p := ofEntry index used v
    p :: ofEntries (index + 1) (p.luaName :: used) rest

/-- The parameters that a property describes, none unless it is a list. -/
def ofValue : Value → List Parameter
  | .list items => ofEntries 0 [] items
  | _ => []

def toValue (p : Parameter) : Value := .object [
  ("id", .text p.id),
  ("name", .text p.name),
  ("luaName", .text p.luaName),
  ("kind", .text p.kind.name),
  ("optional", .bool p.optional),
  ("outputPin", .text p.outputPin),
  ("inputPin", .text p.inputPin)]

end Parameter

end CartGraph
