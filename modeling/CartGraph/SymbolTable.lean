import CartGraph.Association
import CartGraph.Error
import CartGraph.Lua.FreshName
import CartGraph.Lua.Identifier

/-!
# Names in scope

Scopes follow the blocks of the emitted Lua: what is bound inside a block is forgotten when the
block is closed. Temporaries have hidden names; each is issued once, whatever the scope.
-/
namespace CartGraph

/-- An output pin of a node, or a temporary that a node asked for by a label, both in canonical
form. -/
abbrev Output := Key × Key

def outputOf (node pin : Key) : Output := (node.canonical, pin.canonical)

abbrev Bindings := List (Output × String)

structure SymbolTable where
  /-- The bindings of the innermost block. -/
  top : Bindings := []
  /-- The bindings of the enclosing blocks, inner ones first. -/
  outer : List Bindings := []
  /-- The temporaries issued so far. -/
  issued : List (Output × String) := []
  deriving DecidableEq, Repr

namespace SymbolTable

def depth (t : SymbolTable) : Nat := t.outer.length + 1

def push (t : SymbolTable) : SymbolTable := { t with top := [], outer := t.top :: t.outer }

/-- Closes the innermost block. The outermost one stays. -/
def pop (t : SymbolTable) : Except Error SymbolTable :=
  match t.outer with
  | [] => .error .rootScope
  | scope :: rest => .ok { t with top := scope, outer := rest }

def bind (t : SymbolTable) (node pin : Key) (name : String) : SymbolTable :=
  { t with top := Association.assign (outputOf node pin) name t.top }

/-- Takes back a binding of the innermost block. -/
def unbind (t : SymbolTable) (node pin : Key) : SymbolTable :=
  { t with top := Association.erase (outputOf node pin) t.top }

/-- The name bound to an output in the innermost block that binds it. -/
def lookup (t : SymbolTable) (node pin : Key) : Option String :=
  (t.top :: t.outer).findSome? fun scope => scope.lookup (outputOf node pin)

/-- The temporary of a node and a label, and the table in which it is issued. -/
def temp (t : SymbolTable) (node label : Key) : String × SymbolTable :=
  match t.issued.lookup (outputOf node label) with
  | some name => (name, t)
  | none =>
    let name := Lua.fresh (t.issued.map (·.2)) (Lua.hidden node.spelling label.spelling) 2
    (name, { t with issued := t.issued ++ [(outputOf node label, name)] })

end SymbolTable

end CartGraph
