import CartGraph.Error
import CartGraph.Lua.Numeral

/-!
# Inspector properties

A property of a node type says what the inspector may store under its key. A property that was left
`null` always fits.
-/
namespace CartGraph

inductive PropertyType where
  | string
  | number
  | boolean
  | enum
  | multiline
  | table
  deriving DecidableEq, Repr

namespace PropertyType

def name : PropertyType → String
  | .string => "string"
  | .number => "number"
  | .boolean => "boolean"
  | .enum => "enum"
  | .multiline => "multiline"
  | .table => "table"

def ofName? (s : String) : Option PropertyType :=
  [string, number, boolean, enum, multiline, table].find? fun t => t.name == s

end PropertyType

structure Property where
  key : String
  label : String
  type : PropertyType := .string
  default : Value := .null
  options : List Value := []
  placeholder : String := ""

namespace Property

/-- A property whose type is given by name. -/
def ofTypeName (key label typeName : String) (default : Value) (options : List Value)
    (placeholder : String) : Except Error Property :=
  match PropertyType.ofName? typeName with
  | some type => .ok { key, label, type, default, options, placeholder }
  | none => .error (.unknownPropertyType typeName key)

/-- The options as texts. An option that is something else can be neither chosen nor told. -/
def optionTexts (p : Property) : Except Error (List String) :=
  p.options.mapM fun
    | .text s => .ok s
    | v => .error (.optionNotText v)

def hasOption (p : Property) (s : String) : Bool :=
  p.options.any fun
    | .text option => option == s
    | _ => false

/-- Why a value does not fit, none when it does. -/
def misfit? (p : Property) (v : Value) : Except Error (Option String) :=
  match p.type with
  | .enum =>
    if p.hasOption v.display then .ok none
    else p.optionTexts.map fun options => some ("expected one of " ++ ", ".intercalate options)
  | .number =>
    .ok (match v with
    | .int _ | .float _ => none
    | .text s => if Lua.isNumeral (Text.strip s).toList then none else some "expected a number"
    | _ => some "expected a number")
  | .boolean =>
    .ok (match v with
    | .bool _ => none
    | v =>
      if ["true", "false"].contains (Text.lower v.display) then none
      else some "expected a boolean")
  | .string | .multiline =>
    .ok (match v with
    | .text _ | .int _ | .float _ | .bool _ => none
    | _ => some "expected text")
  | .table => .ok none

/-- Refuses a value that does not fit, on behalf of a node. -/
def check (p : Property) (v node : Value) : Except Error Unit := do
  if v.isNull then return ()
  match ← p.misfit? v with
  | none => return ()
  | some reason => throw (.compile (.invalidProperty node p.key v reason))

end Property

end CartGraph
