import CartGraph.Emit.Input

/-!
# Expressions

Operands are put in brackets, so that the text of an expression can stand anywhere.
-/
namespace CartGraph

/-- The text of an operator between two operands. -/
def binaryText (operator a b : String) : String := "(" ++ a ++ ") " ++ operator ++ " (" ++ b ++ ")"

/-- The expression of a node's output, on behalf of a reader. -/
def Expression.emit (c : Compilation) (eval : Evaluate) (node pin reader : Key) (e : Expression)
    (write : Writer := c.literal) : Emit String :=
  match e with
  | .globalName => .lift (c.variableName node)
  | .localName => .lift (c.nameProperty node "name" "localVar")
  | .literal kind => .lift do
    let v ← c.property node "value" .null
    write node kind v "value"
  | .binary operator identity => do
    let a ← c.inputOr eval node "a" identity write
    let b ← c.inputOr eval node "b" identity write
    return binaryText operator a b
  | .compare => do
    let v ← .lift (c.property node "operator" (.text "=="))
    let operator ← .lift (c.comparison node v)
    let a ← c.inputOr eval node "a" "0" write
    let b ← c.inputOr eval node "b" "0" write
    return binaryText operator a b
  | .apply function argument fallback => do
    let text ← c.inputOr eval node argument fallback write
    return Lua.call function [text]
  | .call function slots => do
    let arguments ← c.slotArguments eval node slots write
    return Lua.call function arguments
  | .bound none => .boundOutput node pin reader
  | .bound (some output) => .boundOutput node output reader

/-- The frames that stand between the call for a node's output and what an input of the node is
asked for. -/
def Expression.inputFrames : Expression → Nat
  | .globalName | .localName | .literal _ | .bound _ => 0
  | .binary _ _ | .compare | .apply _ _ _ => 2
  | .call _ _ => 3

end CartGraph
