import CartGraph.Definition

/-!
# Behaviours

How the nodes of a type become Lua: as a statement, as an expression, as both, or as neither. A
node that is both binds its outputs to locals in its statement, and its expression reads them back.
-/
namespace CartGraph

/-- An argument of a call: the pin that provides it and the text that stands for it when it is
empty and a later one is not. -/
structure Slot where
  pin : String
  placeholder : Option String := none
  deriving DecidableEq, Repr

inductive Statement where
  /-- Nothing but the chain that follows. -/
  | follow
  /-- The head of a custom event: its parameters become readable. -/
  | openEvent
  /-- A call of a custom event. -/
  | callEvent
  | branch
  | loop
  | sequence
  /-- An assignment to a global. -/
  | assign
  /-- A declaration of a local. -/
  | declare
  /-- A call of a function of the console. -/
  | call (function : String) (slots : List Slot)
  /-- Runs a coroutine and keeps what it answers in two temporaries. -/
  | resume
  deriving DecidableEq, Repr

inductive Expression where
  | globalName
  | localName
  | literal (kind : Kind)
  | binary (operator identity : String)
  | compare
  /-- A function of one argument. -/
  | apply (function pin fallback : String)
  | call (function : String) (slots : List Slot)
  /-- The local that the node's statement bound to an output, by default the one that is read. -/
  | bound (pin : Option String)
  deriving DecidableEq, Repr

structure Behaviour where
  /-- What messages call the behaviour. -/
  name : String
  statement : Option Statement := none
  expression : Option Expression := none
  isEntryPoint : Bool := false
  eventName : Option Key := none
  deriving DecidableEq, Repr

/-- Refuses a behaviour that has no statements. -/
def Behaviour.requireStatement (b : Behaviour) : Except Error Statement :=
  match b.statement with
  | some s => .ok s
  | none => .error (.noStatements b.name)

/-- Refuses a behaviour that has no values. -/
def Behaviour.requireExpression (b : Behaviour) : Except Error Expression :=
  match b.expression with
  | some e => .ok e
  | none => .error (.noValues b.name)

/-- An entry of the catalogue. -/
structure NodeType where
  definition : Definition
  behaviour : Option Behaviour := none

namespace NodeType

def id (t : NodeType) : String := t.definition.id

def isEntryPoint (t : NodeType) : Bool := t.behaviour.any Behaviour.isEntryPoint

def statement? (t : NodeType) : Option Statement := t.behaviour.bind Behaviour.statement

def expression? (t : NodeType) : Option Expression := t.behaviour.bind Behaviour.expression

/-- The event that the nodes of the type answer to, `null` when there is none. -/
def eventName (t : NodeType) : Value :=
  match t.behaviour.bind Behaviour.eventName with
  | some event => event
  | none => .null

end NodeType

end CartGraph
