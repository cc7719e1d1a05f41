import CartGraph.Value.Display
import CartGraph.Text.Blank
import CartGraph.Text.Lowercase

/-!
# Pins

A pin is a socket of a node. Wires of kind `exec` give the order of statements, all others carry
values.
-/
namespace CartGraph

inductive Kind where
  | exec
  | number
  | boolean
  | string
  | table
  | any
  deriving DecidableEq, Repr

namespace Kind

def name : Kind → String
  | .exec => "exec"
  | .number => "number"
  | .boolean => "boolean"
  | .string => "string"
  | .table => "table"
  | .any => "any"

/-- The kind of that name, `any` for an unknown name. -/
def ofName (s : String) : Kind :=
  match s with
  | "exec" => .exec
  | "number" => .number
  | "boolean" => .boolean
  | "string" => .string
  | "table" => .table
  | _ => .any

/-- Reads a kind from what a document says, in any case and between blanks. -/
def ofValue (v : Value) : Kind := ofName (Text.lower (Text.strip v.display))

/-- Whether an output of kind `source` may feed an input of kind `target`: exec only feeds exec,
and `any` stands for every kind of data. -/
def compatible (source target : Kind) : Bool :=
  if source == .exec || target == .exec then source == target
  else source == .any || target == .any || source == target

end Kind

inductive Direction where
  | input
  | output
  deriving DecidableEq, Repr

def Direction.name : Direction → String
  | .input => "input"
  | .output => "output"

structure Pin where
  id : String
  direction : Direction
  kind : Kind
  name : String := ""
  default : Value := .null
  description : String := ""
  required : Bool := false

namespace Pin

def isExec (p : Pin) : Bool := p.kind == .exec

def label (p : Pin) : String := if p.name.isEmpty then p.id else p.name

def execIn : Pin := { id := "exec_in", direction := .input, kind := .exec, name := "Exec" }

def execOut : Pin := { id := "exec_out", direction := .output, kind := .exec, name := "Exec" }

/-- An exec output that opens a branch of its own. -/
def branchOut (id name : String) : Pin := { id, direction := .output, kind := .exec, name }

def valueIn (id : String) (kind : Kind) (name : String) : Pin :=
  { id, direction := .input, kind, name }

def valueOut (id : String) (kind : Kind) (name : String) : Pin :=
  { id, direction := .output, kind, name }

def withDefault (p : Pin) (v : Value) : Pin := { p with default := v }

def withDescription (p : Pin) (text : String) : Pin := { p with description := text }

end Pin

end CartGraph
