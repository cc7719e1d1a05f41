import CartGraph.Error
import CartGraph.Lua.Identifier
import CartGraph.Lua.Numeral
import CartGraph.Lua.Quote

/-!
# Literals

The Lua literal of an inspector value for a pin of some kind. What is absent is `nil` whatever the
kind. A failure names the property it was asked for; inside a table that is `value`.
-/
namespace CartGraph.Lua

abbrev LiteralResult := Except CompileError String

def invalid (key : String) (v : Value) (reason : String) : LiteralResult :=
  .error (.invalidProperty .null key v reason)

def boolLiteral (b : Bool) : String := if b then "true" else "false"

/-- A whole double is written as the integer that it is. -/
def floatLiteral (key : String) (x : Binary64) : LiteralResult :=
  if !x.isFinite then invalid key (.float x) "number is not finite"
  else .ok (if x.isInteger then toString x.truncate else x.toText)

def numberLiteral (key : String) (v : Value) : LiteralResult :=
  match v with
  | .bool _ => invalid key v "expected a number, got a boolean"
  | .int n => .ok (toString n)
  | .float x => floatLiteral key x
  | .text s =>
    let text := Text.strip s
    if isNumeral text.toList then .ok text else invalid key v "expected a number"
  | _ => invalid key v "expected a number"

/-- Whether a text says true or false, in any case and between blanks. -/
def booleanText? (s : String) : Option Bool :=
  let text := Text.lower (Text.strip s)
  if text == "true" then some true else if text == "false" then some false else none

def booleanLiteral (key : String) (v : Value) : LiteralResult :=
  match v with
  | .bool b => .ok (boolLiteral b)
  | .text s =>
    match booleanText? s with
    | some b => .ok (boolLiteral b)
    | none => invalid key v "expected a boolean"
  | .int n =>
    if n == 0 then .ok "false" else if n == 1 then .ok "true"
    else invalid key v "expected a boolean"
  | _ => invalid key v "expected a boolean"

def stringLiteral (key : String) (v : Value) : LiteralResult :=
  match v with
  | .list _ | .table _ => invalid key v "expected text"
  | .bool b => .ok (quote (boolLiteral b))
  | v => .ok (quote v.display)

/-- Whether a text is a key that was typed in brackets. -/
def isBracketed (s : String) : Bool := Text.startsWith "[" s && Text.endsWith "]" s

/-- The key of a table field. A number key that is not finite has no literal. -/
def keyLiteral (k : Key) : LiteralResult :=
  match k with
  | .text s =>
    let text := Text.strip s
    .ok (if isIdentifier text || isBracketed text then text else "[" ++ quote text ++ "]")
  | .null => .ok "[nil]"
  | .bool b => .ok ("[" ++ boolLiteral b ++ "]")
  | .int n => .ok ("[" ++ toString n ++ "]")
  | .float x => (floatLiteral "value" x).map fun text => "[" ++ text ++ "]"

def braced (fields : List String) : String :=
  if fields.isEmpty then "\x7b\x7d" else "\x7b " ++ ", ".intercalate fields ++ " \x7d"

mutual

/-- The literal that the value itself suggests. -/
def anyLiteral (key : String) : Value → LiteralResult
  | .null => .ok "nil"
  | .omitted => .ok "nil"
  | .bool b => .ok (boolLiteral b)
  | .int n => .ok (toString n)
  | .float x => floatLiteral key x
  | .text s => .ok (quote s)
  | .list items => (itemLiterals items).map braced
  | .table entries => (entryLiterals entries).map braced

def itemLiterals : List Value → Except CompileError (List String)
  | [] => .ok []
  | v :: rest => do
    let text ← anyLiteral "value" v
    let texts ← itemLiterals rest
    return text :: texts

def entryLiterals : List (Key × Value) → Except CompileError (List String)
  | [] => .ok []
  | (k, v) :: rest => do
    let name ← keyLiteral k
    let text ← anyLiteral "value" v
    let texts ← entryLiterals rest
    return (name ++ " = " ++ text) :: texts

end

/-- A text stands for the table expression that was typed, blank text for the empty table. -/
def tableLiteral (key : String) (v : Value) : LiteralResult :=
  match v with
  | .text s =>
    let text := Text.strip s
    .ok (if text.isEmpty then "\x7b\x7d" else text)
  | .list _ | .table _ => anyLiteral key v
  | _ => invalid key v "expected a table"

def literal (kind : Kind) (v : Value) (key : String) : LiteralResult :=
  match v with
  | .null | .omitted => .ok "nil"
  | v => match kind with
    | .number => numberLiteral key v
    | .boolean => booleanLiteral key v
    | .string => stringLiteral key v
    | .table => tableLiteral key v
    | .any | .exec => anyLiteral key v

/-- The literal of a value of that kind that was never set. -/
def defaultLiteral : Kind → String
  | .number => "0"
  | .boolean => "false"
  | .string => "\"\""
  | .table => "\x7b\x7d"
  | .any | .exec => "nil"

end CartGraph.Lua
