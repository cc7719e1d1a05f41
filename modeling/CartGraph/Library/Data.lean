import CartGraph.Behaviour

/-!
# Variables, literals and operators
-/
namespace CartGraph.Library

/-- How a node names a global: by the id of a workspace variable, else by a name. -/
def globalProperties : List Property := [
  { key := "variableId", label := "Variable", default := .text "" },
  { key := "name", label := "Variable Name", default := .text "score" }]

def setVariable : NodeType where
  definition := {
    id := "set_var"
    title := "Set Variable"
    category := "Logic"
    description := "Assign a value to a variable in the current scope."
    tags := ["set", "assign", "variable", "write"]
    inputs := [.execIn, .valueIn "value" .any "Value"]
    outputs := [.execOut]
    properties := globalProperties }
  behaviour := some { name := "SetVariable", statement := some .assign }

def getVariable : NodeType where
  definition := {
    id := "get_var"
    title := "Get Variable"
    category := "Logic"
    description := "Expose the current value of a variable."
    tags := ["get", "read", "variable", "access"]
    outputs := [.valueOut "value" .any "Value"]
    properties := globalProperties }
  behaviour := some { name := "GetVariable", expression := some .globalName }

def localName : Property := { key := "name", label := "Name", default := .text "localVar" }

def setLocal : NodeType where
  definition := {
    id := "set_local_var"
    title := "Set Local"
    category := "Logic"
    description := "Declare or assign a local variable with an inline literal."
    tags := ["local", "set", "assign", "variable"]
    inputs := [.execIn, (Pin.valueIn "value" .any "Value").withDescription
      "Optional override for the inline literal"]
    outputs := [.execOut]
    properties := [localName,
      { key := "variableType", label := "Type", type := .enum, default := .text "number"
        options := ["number", "string", "boolean", "table"] },
      { key := "value", label := "Value" }] }
  behaviour := some { name := "SetLocalVariable", statement := some .declare }

def getLocal : NodeType where
  definition := {
    id := "get_local_var"
    title := "Get Local"
    category := "Logic"
    description := "Access a local variable declared earlier in the flow."
    tags := ["local", "get", "variable", "read"]
    outputs := [.valueOut "value" .any "Value"]
    properties := [localName] }
  behaviour := some { name := "GetLocalVariable", expression := some .localName }

def constant (id title description : String) (tags : List String) (kind : Kind)
    (property : Property) (name : String) : NodeType where
  definition := {
    id, title, category := "Values", description, tags
    outputs := [.valueOut "value" kind "Value"], properties := [property] }
  behaviour := some { name, expression := some (.literal kind) }

def numberLiteral : NodeType :=
  constant "number_literal" "Number" "Constant numeric literal."
    ["number", "literal", "constant", "value"] .number
    { key := "value", label := "Number", type := .number, default := .int 0 } "NumberLiteral"

def stringLiteral : NodeType :=
  constant "string_literal" "String" "Constant string literal."
    ["string", "text", "literal", "constant"] .string
    { key := "value", label := "Text", type := .multiline, default := .text "" } "StringLiteral"

def booleanLiteral : NodeType :=
  constant "boolean_literal" "Boolean" "Constant boolean literal."
    ["boolean", "literal", "true", "false"] .boolean
    { key := "value", label := "Value", type := .boolean, default := .bool true } "BooleanLiteral"

def arithmetic (id title description : String) (tags : List String) (result resultName : String)
    (name operator identity : String) : NodeType where
  definition := {
    id, title, category := "Math", description, tags
    inputs := [.valueIn "a" .number "A", .valueIn "b" .number "B"]
    outputs := [.valueOut result .number resultName] }
  behaviour := some { name, expression := some (.binary operator identity) }

def add : NodeType :=
  arithmetic "add_number" "Add" "Add two numbers." ["add", "plus", "sum", "math"] "sum" "Sum"
    "AddNumber" "+" "0"

def multiply : NodeType :=
  arithmetic "multiply_number" "Multiply" "Multiply two numbers."
    ["multiply", "times", "product", "math"] "product" "Product" "MultiplyNumber" "*" "1"

def compare : NodeType where
  definition := {
    id := "compare"
    title := "Compare"
    category := "Logic"
    description := "Compare two values with a selected operator."
    tags := ["compare", "logic", "condition", "branch"]
    inputs := [.valueIn "a" .any "A", .valueIn "b" .any "B"]
    outputs := [.valueOut "res" .boolean "Result"]
    properties := [{
      key := "operator", label := "Operator", type := .enum, default := .text "=="
      options := ["==", "!=", ">", "<", ">=", "<="] }] }
  behaviour := some { name := "Compare", expression := some .compare }

def builtin (id title description : String) (tags : List String) (inputName : String)
    (name function fallback : String) : NodeType where
  definition := {
    id, title, category := "Math", description, tags
    inputs := [.valueIn "value" .number inputName]
    outputs := [.valueOut "result" .number "Result"] }
  behaviour := some { name, expression := some (.apply function "value" fallback) }

def random : NodeType :=
  builtin "math_rnd" "Random" "Random number from 0 up to (not including) the range."
    ["rnd", "random", "math"] "Range" "Rnd" "rnd" "1"

def floor : NodeType :=
  builtin "math_flr" "Floor" "Round a number down to the nearest integer."
    ["flr", "floor", "round", "math"] "Value" "Flr" "flr" "0"

def data : List NodeType := [
  setVariable, getVariable, setLocal, getLocal, numberLiteral, stringLiteral, booleanLiteral, add,
  multiply, compare, random, floor]

end CartGraph.Library
