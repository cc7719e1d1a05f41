import CartGraph.Emit.Compilation
import CartGraph.Lua.Call

/-!
# Inputs of a node

An input is what its wire brings, else the value typed inline, else the default of the pin, else
nothing. Evaluating a wire is left to the caller, and so is writing a literal.
-/
namespace CartGraph

/-- Evaluates an output of a node. -/
abbrev Evaluate := Key → Key → Emit String

namespace Compilation

/-- The key under which the inline value of an input is stored. -/
def inlineKey (pin : Key) : String := "pin:" ++ pin.display

/-- An input that has no wire, none when it was left empty. Empty text is a value only where text
is wanted. -/
def unwired (c : Compilation) (node pin : Key) (write : Writer := c.literal) :
    Except Error (Option String) := do
  let p ← c.graph.findPin? node pin
  let n ← c.graph.node node
  match p with
  | none => throw (.noSuchPin n.definitionId pin.display)
  | some p =>
    let inline := n.properties.get (inlineKey pin)
    if !inline.isNull && !(inline.isEmptyText && p.kind != .string) then
      return some (← write node p.kind inline (inlineKey pin))
    else if !p.default.isNull then
      return some (← write node p.kind p.default pin.display)
    else if p.required then throw (.compile (.missingInput node pin))
    else return none

/-- What the wire of an input brings, the fallback if it has none. -/
def wired (c : Compilation) (eval : Evaluate) (node pin : Key) (fallback : Option String) :
    Emit (Option String) :=
  match c.graph.incoming? node pin with
  | some wire => do return some (← eval wire.sourceNode wire.sourcePin)
  | none => pure fallback

/-- The text of an input, none when it was left empty. -/
def input (c : Compilation) (eval : Evaluate) (node pin : Key) (write : Writer := c.literal) :
    Emit (Option String) :=
  match c.graph.incoming? node pin with
  | some wire => do return some (← eval wire.sourceNode wire.sourcePin)
  | none => .lift (c.unwired node pin write)

def inputOr (c : Compilation) (eval : Evaluate) (node pin : Key) (fallback : String)
    (write : Writer := c.literal) : Emit String := do
  return (← c.input eval node pin write).getD fallback

/-- The texts of several inputs, in order. -/
def inputs (c : Compilation) (eval : Evaluate) (node : Key) (pins : List Key)
    (write : Writer := c.literal) : Emit (List (Option String)) :=
  match pins with
  | [] => pure []
  | pin :: rest => do
    let text ← c.input eval node pin write
    let texts ← c.inputs eval node rest write
    return text :: texts

/-- The arguments of a call from inputs and their placeholders. -/
def callArguments (c : Compilation) (eval : Evaluate) (node : Key) (pins : List Key)
    (placeholders : List (Option String)) (write : Writer := c.literal) :
    Emit (List String) := do
  let slots ← c.inputs eval node pins write
  .lift (Lua.arguments slots placeholders)

def slotArguments (c : Compilation) (eval : Evaluate) (node : Key) (slots : List Slot)
    (write : Writer := c.literal) : Emit (List String) :=
  c.callArguments eval node (slots.map fun slot => slot.pin)
    (slots.map Slot.placeholder) write

end Compilation

end CartGraph
