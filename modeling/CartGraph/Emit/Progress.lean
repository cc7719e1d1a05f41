import CartGraph.SymbolTable

/-!
# Emission steps

An emission step sees what the walk has done so far, may add to it, and answers or fails. A step
that fails keeps what it did before it failed.
-/
namespace CartGraph

/-- What the walk did, for the log. -/
inductive Visit where
  /-- The statement of a node is emitted at a block depth. -/
  | statement (node : Key) (level : Int)
  /-- An output of a node is asked for. -/
  | value (node pin : Key)
  /-- The local bound to an output is looked up on behalf of a reader, `null` when there is none. -/
  | read (node pin reader : Key) (found : Option String)
  /-- A line is written for a node, indented. -/
  | line (node : Key) (text : String)
  deriving DecidableEq, Repr

structure Progress where
  symbols : SymbolTable := {}
  /-- How many nodes were visited, counting each visit. -/
  visits : Nat := 0
  /-- The log, latest entry first. -/
  trail : List Visit := []
  deriving DecidableEq, Repr

def Emit (α : Type) : Type := Progress → Except Error α × Progress

namespace Emit

protected def pure (a : α) : Emit α := fun s => (.ok a, s)

protected def bind (m : Emit α) (f : α → Emit β) : Emit β := fun s =>
  match m s with
  | (.ok a, s') => f a s'
  | (.error e, s') => (.error e, s')

instance : Monad Emit where
  pure := Emit.pure
  bind := Emit.bind

def fail (e : Error) : Emit α := fun s => (.error e, s)

/-- A result that does not depend on the walk. -/
def lift (r : Except Error α) : Emit α := fun s => (r, s)

def modify (f : Progress → Progress) : Emit Unit := fun s => (.ok (), f s)

def record (v : Visit) : Emit Unit := modify fun s => { s with trail := v :: s.trail }

/-- Changes the table of names. -/
def withSymbols (f : SymbolTable → α × SymbolTable) : Emit α := fun s =>
  let (a, symbols) := f s.symbols
  (.ok a, { s with symbols })

def push : Emit Unit := modify fun s => { s with symbols := s.symbols.push }

def pop : Emit Unit := fun s =>
  match s.symbols.pop with
  | .ok symbols => (.ok (), { s with symbols })
  | .error e => (.error e, s)

/-- Runs a step inside a block of its own, which is closed whether the step answers or fails. -/
def inBlock (m : Emit α) : Emit α := fun s =>
  let (r, s') := m { s with symbols := s.symbols.push }
  match s'.symbols.pop with
  | .ok symbols => (r, { s' with symbols })
  | .error e => (.error e, s')

/-- The temporary of a node and a label. -/
def temp (node label : Key) : Emit String := withSymbols fun t => t.temp node label

/-- Binds an output to a name, a temporary unless one is given, and answers the name. -/
def bindOutput (node pin : Key) (name : Option String) : Emit String := do
  let name ← match name.filter fun s => !s.isEmpty with
    | some s => Emit.pure s
    | none => temp node pin
  withSymbols fun t => (name, t.bind node pin name)

/-- The name bound to an output, which must be in scope. -/
def boundOutput (node pin reader : Key) : Emit String := fun s =>
  let found := s.symbols.lookup node pin
  let s' := { s with trail := .read node pin reader found :: s.trail }
  match found with
  | some name => (.ok name, s')
  | none => (.error (.compile (.danglingValue node pin reader)), s')

end Emit

end CartGraph
