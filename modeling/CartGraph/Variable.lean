import CartGraph.Association
import CartGraph.Lua.FreshName
import CartGraph.Lua.Limits

/-!
# Workspace variables

Globals that the program declares before its functions, each under a name of its own.
-/
namespace CartGraph

structure Variable where
  id : String
  name : String
  kind : Kind
  default : Value

namespace Variable

/-- The kind of a variable. Exec is not a kind of variables. -/
def kindOf (v : Value) : Kind :=
  match Kind.ofValue (v.orElse (.text "any")) with
  | .exec => .any
  | kind => kind

/-- The variable that an entry of the document describes. Entries are counted from zero. -/
def ofTable (index : Nat) (t : Table) : Variable where
  id := ((t.get "id").orElse (.text ("variable_" ++ toString index))).display
  name := ((t.get "name").orElse (.text "")).display
  kind := kindOf (t.get "type")
  default := (t.get? "defaultValue").getD (t.get "default_value")

/-- The key of a row that was typed by hand. -/
def rowKey (key : String) : String :=
  if Lua.isIdentifier key || Lua.isBracketed key then key else "[" ++ key ++ "]"

/-- The trimmed text of a cell. -/
def cell (row : Table) (name : String) : String :=
  Text.strip ((row.get name).orElse (.text "")).display

/-- The field that a row of the table editor stands for. A row without a key is an item, and an
empty row is nothing. -/
def rowField? : Value → Option String
  | .table row =>
    let key := cell row "key"
    let text := cell row "value"
    if key.isEmpty then (if text.isEmpty then none else some text)
    else some (rowKey key ++ " = " ++ (if text.isEmpty then "nil" else text))
  | _ => none

/-- The table that the rows of the table editor describe. A single row that is a whole table stands
for itself. -/
def rowsLiteral (rows : List Value) : String :=
  match rows.filterMap rowField? with
  | [field] =>
    if Text.startsWith "\x7b" field && Text.endsWith "\x7d" field then field
    else Lua.braced [field]
  | fields => Lua.braced fields

/-- The name by which messages call the default of a variable. -/
def propertyKey (v : Variable) : String := "variable:" ++ (if v.name.isEmpty then v.id else v.name)

def defaultLiteral (v : Variable) : Lua.LiteralResult :=
  match v.kind, v.default with
  | .table, .list rows => .ok (rowsLiteral rows)
  | kind, .null => .ok (Lua.defaultLiteral kind)
  | kind, value => Lua.literal kind value v.propertyKey

/-- The name of a variable before numbering. -/
def baseName (index : Nat) (v : Variable) : String :=
  let name := Text.strip v.name
  Lua.sanitize
    (if !name.isEmpty then name else if !v.id.isEmpty then v.id else "var" ++ toString (index + 1))

/-- Declaration lines, and the name of each variable by id. -/
structure Declarations where
  lines : List String := []
  names : List (String × String) := []

/-- Declares variables, given the index of the first and the names in use. -/
def declareFrom (index : Nat) (used : List String) (found : Declarations) :
    List Variable → Except CompileError Declarations
  | [] => .ok found
  | v :: rest => do
    let name := Lua.fresh used (v.baseName index) 2
    let text ← v.defaultLiteral
    declareFrom (index + 1) (name :: used) {
      lines := found.lines ++ [name ++ " = " ++ text]
      names := Association.assign v.id name found.names } rest

def declare (globals : List Variable) : Except CompileError Declarations :=
  declareFrom 0 [] {} globals

/-- The limit that the default of a variable meets. Rows of the table editor are texts. -/
def limit? (v : Variable) (left : Nat) : Option Error :=
  match v.kind, v.default with
  | .table, .list _ => none
  | kind, value => Lua.limit? kind value left

/-- The first limit that is met, unless a variable before it is refused. -/
def firstLimit? (left : Nat) : List Variable → Option Error
  | [] => none
  | v :: rest =>
    (v.limit? left).or (if v.defaultLiteral.isOk then firstLimit? left rest else none)

/-- Declares variables within the limits. -/
def declareOn (room : Room) (globals : List Variable) : Except Error Declarations :=
  room.within (firstLimit? · globals) ((declare globals).mapError .compile)

end Variable

end CartGraph
