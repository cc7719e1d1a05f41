import CartGraph.Emit.Expression
import CartGraph.Emit.Statement

/-!
# The walk over a graph

Values are evaluated against the wires, statements are emitted along them. A node that would be
entered a second time on one way is a cycle, so a way never holds more nodes than the graph, and
one step more than that is always enough.

The calls of a walk are nested, and each of them holds frames of the stack. A walk within some room
fails where too few are left; in endless room the walk only depends on the graph.
-/
namespace CartGraph.Compilation

/-- More steps than any way through the graph has. -/
def reach (c : Compilation) : Nat := c.graph.nodes.length + 1

/-- The frames that a call of the walk holds while a node is asked for its text. -/
def callFrames : Nat := 2

/-- The frames from what follows a connection to the call for its other end. -/
def linkFrames : Nat := 2

/-- The frames from an input to the literal that stands there. -/
def literalFrames : Nat := 1

/-- The frames from a call for an output of a node to what an input of the node is asked for. -/
def expressionFrames (c : Compilation) (node : Key) : Nat :=
  match c.graph.typeOf node with
  | .ok t => (t.expression?.map Expression.inputFrames).getD 0
  | .error _ => 0

/-- The frames from a call for the lines of a node to what an input of the node is asked for. -/
def statementFrames (c : Compilation) (node : Key) : Nat :=
  match c.graph.typeOf node with
  | .ok t => (t.statement?.map Statement.inputFrames).getD 0
  | .error _ => 0

/-- One call that evaluates an output. How literals are written and the calls that it makes are left
open. -/
def evaluateCall (c : Compilation) (write : Writer) (inner : Key → List Key → Evaluate)
    (reader : Key) (path : List Key) : Evaluate := fun node pin => do
  if path.contains node.canonical then Emit.fail (.compile (.cycle node "value"))
  c.checkDepth (path.length + 1) node
  c.tick node
  let t ← .lift (c.graph.typeOf node)
  Emit.record (.value node pin)
  match t.expression? with
  | some e => e.emit c (inner node (node.canonical :: path)) node pin reader write
  | none =>
    if t.definition.hasExecPins then Emit.boundOutput node pin reader
    else Emit.fail (.compile (.notAValue node t.id pin))

/-- The text of an output of a node, read by `reader` after the nodes of a path, within a number of
nested steps and some room. Paths hold canonical forms. -/
def evaluateOn (c : Compilation) : Nat → Room → (reader : Key) → (path : List Key) → Evaluate
  | 0, _, _, _ => fun node _ => .fail (.walkTooDeep node)
  | steps + 1, room, reader, path => fun node pin =>
    if room.lacks callFrames then .fail (.walkTooDeep node)
    else
      let left := room.less (callFrames + c.expressionFrames node)
      c.evaluateCall (c.literalOn (left.less literalFrames))
        (c.evaluateOn steps (left.less linkFrames)) reader path node pin

def evaluateWithin (c : Compilation) (steps : Nat) : (reader : Key) → (path : List Key) → Evaluate :=
  c.evaluateOn steps .endless

/-- The text of an output of a node, read by a statement. -/
def evaluate (c : Compilation) (reader : Key) : Evaluate :=
  c.evaluateWithin c.reach reader []

/-- One call that emits the chain that starts at a node. How literals are written, what a statement
reads and the calls that it makes are left open. -/
def chainCall (c : Compilation) (write : Writer) (values : Key → Evaluate) (inner : Chain) : Chain :=
  fun node level path => do
    if path.contains node.canonical then Emit.fail (.compile (.cycle node "exec"))
    c.checkDepth level node
    c.tick node
    let t ← .lift (c.graph.typeOf node)
    match t.statement? with
    | none => Emit.fail (.compile (.notAStatement node t.id))
    | some statement =>
      Emit.record (.statement node level)
      statement.emit c (values node) inner { node, level, path := node.canonical :: path } write

/-- The lines of the chain that starts at a node, within a number of nested steps and some room. -/
def chainOn (c : Compilation) : Nat → Room → Chain
  | 0, _ => fun node _ _ => .fail (.walkTooDeep node)
  | steps + 1, room => fun node level path =>
    if room.lacks callFrames then .fail (.walkTooDeep node)
    else
      let left := room.less (callFrames + c.statementFrames node)
      c.chainCall (c.literalOn (left.less literalFrames))
        (fun reader => c.evaluateOn c.reach (left.less linkFrames) reader [])
        (c.chainOn steps (room.less (callFrames + linkFrames))) node level path

def chainWithin (c : Compilation) (steps : Nat) : Chain := c.chainOn steps .endless

def chain (c : Compilation) : Chain := c.chainWithin c.reach

/-- The body of the function that starts at a node, within some room. -/
def entryOn (c : Compilation) (room : Room) (node : Key) (level : Int) : Emit (List String) :=
  .inBlock (c.chainOn c.reach room node level [])

def entry (c : Compilation) (node : Key) (level : Int) : Emit (List String) :=
  .inBlock (c.chain node level [])

/-! ## Endless room -/

/-- One call that evaluates an output, where nothing is limited. -/
def evaluateStep (c : Compilation) (inner : Key → List Key → Evaluate) (reader : Key)
    (path : List Key) : Evaluate :=
  c.evaluateCall c.literal inner reader path

/-- One call that emits the chain that starts at a node, where nothing is limited. -/
def chainStep (c : Compilation) (values : Key → Evaluate) (inner : Chain) : Chain :=
  c.chainCall c.literal values inner

theorem evaluateWithin_succ (c : Compilation) (steps : Nat) :
    c.evaluateWithin (steps + 1) = c.evaluateStep (c.evaluateWithin steps) := rfl

theorem chainWithin_succ (c : Compilation) (steps : Nat) :
    c.chainWithin (steps + 1) = c.chainStep c.evaluate (c.chainWithin steps) := rfl

end CartGraph.Compilation
