import CartGraph.Value.Basic
import CartGraph.Number.Shortest
import CartGraph.Text.Quoted

/-!
# Values in messages and in names

`inspect` shows a value so that its type can be read off, as messages do: a text is quoted, a whole
double keeps its point. `display` is the plain text of a value: a text stands for itself.
-/
namespace CartGraph

def boolText (b : Bool) : String := if b then "True" else "False"

namespace Key

def inspect : Key → String
  | .null => "None"
  | .bool b => boolText b
  | .int n => toString n
  | .float x => x.toText
  | .text s => Text.quoted s

end Key

namespace Value

mutual

def inspect : Value → String
  | .null => "None"
  | .omitted => "OMIT"
  | .bool b => boolText b
  | .int n => toString n
  | .float x => x.toText
  | .text s => Text.quoted s
  | .list items => "[" ++ ", ".intercalate (inspectItems items) ++ "]"
  | .table entries => "\x7b" ++ ", ".intercalate (inspectEntries entries) ++ "\x7d"

def inspectItems : List Value → List String
  | [] => []
  | v :: rest => inspect v :: inspectItems rest

def inspectEntries : List (Key × Value) → List String
  | [] => []
  | (k, v) :: rest => (k.inspect ++ ": " ++ inspect v) :: inspectEntries rest

end

def display : Value → String
  | .text s => s
  | v => v.inspect

/-- The text from which a name is made: nothing for `null`, else the plain text. -/
def spelling (v : Value) : String := if v.isNull then "" else v.display

end Value

def Key.display (k : Key) : String := k.toValue.display

def Key.spelling (k : Key) : String := k.toValue.spelling

@[simp] theorem Key.display_text (s : String) : Key.display (.text s) = s := rfl

end CartGraph
