import CartGraph.Emit.Input

/-!
# Statements

A statement emits its own lines and those of the chains that leave its exec outputs. A chain that
stands deeper than the statement is inside a block of its own.
-/
namespace CartGraph

/-- Where a statement stands: its node, the depth of its block, and the nodes on the way to it in
canonical form, itself included. -/
structure Site where
  node : Key
  level : Int
  path : List Key
  deriving DecidableEq, Repr

/-- Emits the chain that starts at a node, at a block depth, after the nodes of a path. -/
abbrev Chain := Key → Int → List Key → Emit (List String)

/-- Emits several chains one after the other. -/
def Chain.all (chain : Chain) (level : Int) (path : List Key) : List Key → Emit (List String)
  | [] => pure []
  | target :: rest => do
    let lines ← chain target level path
    let more ← chain.all level path rest
    return lines ++ more

namespace Site

/-- Writes a line at a block depth. -/
def lineAt (s : Site) (c : Compilation) (level : Int) (text : String) : Emit String := do
  let line ← .lift (c.line level text)
  Emit.record (.line s.node line)
  return line

def line (s : Site) (c : Compilation) (text : String) : Emit String := s.lineAt c s.level text

/-- A line of the block inside the statement. -/
def innerLine (s : Site) (c : Compilation) (text : String) : Emit String :=
  s.lineAt c (s.level + 1) text

/-- The chain that goes on after the statement, in the same block. -/
def next (s : Site) (c : Compilation) (chain : Chain) (pin : Key) : Emit (List String) :=
  match c.graph.execTargets s.node pin with
  | [] => pure []
  | target :: _ => chain target s.level s.path

/-- The chain of an exec output at a block depth. -/
def branchAt (s : Site) (c : Compilation) (chain : Chain) (pin : Key) (level : Int)
    (path : List Key) : Emit (List String) :=
  match c.graph.execTargets s.node pin with
  | [] => pure []
  | targets =>
    let lines := chain.all level path targets
    if s.level < level then .inBlock lines else lines

/-- The body of a block. A comment stands for an empty one. -/
def body (s : Site) (c : Compilation) (chain : Chain) (pin comment : String) :
    Emit (List String) := do
  let lines ← s.branchAt c chain pin (s.level + 1) s.path
  if lines.isEmpty then return [← s.innerLine c comment] else return lines

/-- A line of its own, then the chain that goes on. -/
def lineThenNext (s : Site) (c : Compilation) (chain : Chain) (text : String) :
    Emit (List String) := do
  let line ← s.line c text
  let rest ← s.next c chain "exec_out"
  return line :: rest

/-- The branches of a sequence, each under a comment. -/
def sequenceLines (s : Site) (c : Compilation) (chain : Chain) : List Pin → Emit (List String)
  | [] => pure []
  | pin :: rest => do
    let head ← s.line c ("-- sequence " ++ Text.lower pin.label)
    let lines ← s.branchAt c chain pin.id s.level s.path
    let more ← s.sequenceLines c chain rest
    return head :: lines ++ more

/-- Makes the parameters of an event readable. -/
def bindParameters (s : Site) : List Parameter → Emit Unit
  | [] => pure ()
  | p :: rest => do
    let _ ← Emit.bindOutput s.node p.outputPin (some p.luaName)
    s.bindParameters rest

/-- The slots of a call of a custom event. An empty one takes the default of its kind, unless the
parameter is optional. -/
def eventSlots (s : Site) (c : Compilation) (eval : Evaluate) (parameters : List Parameter)
    (write : Writer := c.literal) : Emit (List (Option String)) :=
  match parameters with
  | [] => pure []
  | p :: rest => do
    let text ← c.input eval s.node p.inputPin write
    let slots ← s.eventSlots c eval rest write
    return (if text.isNone && !p.optional then some (Lua.defaultLiteral p.kind) else text) :: slots

/-- The value of a local: what is wired, else the literal that was typed, else the default of its
type. -/
def localValue (s : Site) (c : Compilation) (eval : Evaluate) (kind : Kind)
    (write : Writer := c.literal) : Emit String :=
  match c.graph.incoming? s.node "value" with
  | some wire => eval wire.sourceNode wire.sourcePin
  | none => .lift do
    let v ← c.property s.node "value" .null
    if v.isNull || v.isEmptyText then return Lua.defaultLiteral kind
    else write s.node kind v "value"

end Site

def Statement.emit (c : Compilation) (eval : Evaluate) (chain : Chain) (s : Site)
    (statement : Statement) (write : Writer := c.literal) : Emit (List String) :=
  match statement with
  | .follow => s.next c chain "exec_out"
  | .openEvent => do
    if let some signature := c.event? s.node then
      s.bindParameters signature.parameters
    s.next c chain "exec_out"
  | .callEvent => do
    let target ← .lift (c.property s.node "eventId" .null)
    match c.event? target with
    | none => s.lineThenNext c chain "-- missing custom event target"
    | some signature =>
      let slots ← s.eventSlots c eval signature.parameters write
      let arguments ← .lift (Lua.arguments slots (slots.map fun _ => some "nil"))
      s.lineThenNext c chain (Lua.call signature.functionName arguments)
  | .branch => do
    let condition ← c.inputOr eval s.node "condition" "false" write
    let head ← s.line c ("if " ++ condition ++ " then")
    let thenLines ← s.body c chain "then" "-- then branch"
    let elseLines ←
      if (c.graph.execTargets s.node "else").isEmpty then pure []
      else do
        let head ← s.line c "else"
        let lines ← s.body c chain "else" "-- else branch"
        pure (head :: lines)
    let close ← s.line c "end"
    return head :: thenLines ++ elseLines ++ [close]
  | .loop => do
    let index ← .lift (c.nameProperty s.node "index" "i")
    let first ← c.inputOr eval s.node "start" "0" write
    let last ← c.inputOr eval s.node "end" "0" write
    let step ← c.inputOr eval s.node "step" "1" write
    let head ← s.line c ("for " ++ index ++ " = " ++ first ++ ", " ++ last ++ ", " ++ step ++ " do")
    let lines ← .inBlock do
      let _ ← Emit.bindOutput s.node "index" (some index)
      s.body c chain "loop" "-- loop body"
    let close ← s.line c "end"
    let rest ← s.branchAt c chain "completed" s.level s.path
    return head :: lines ++ close :: rest
  | .sequence => do
    let pins ← .lift (c.graph.pinsOf s.node)
    s.sequenceLines c chain pins.outputs
  | .assign => do
    let value ← c.inputOr eval s.node "value" "nil" write
    let name ← .lift (c.variableName s.node)
    s.lineThenNext c chain (name ++ " = " ++ value)
  | .declare => do
    let name ← .lift (c.nameProperty s.node "name" "localVar")
    let kind ← .lift (c.property s.node "variableType" (.text "number"))
    let value ← s.localValue c eval (.ofValue kind) write
    s.lineThenNext c chain ("local " ++ name ++ " = " ++ value)
  | .call function slots => do
    let arguments ← c.slotArguments eval s.node slots write
    s.lineThenNext c chain (Lua.call function arguments)
  | .resume => do
    let coroutine ← c.input eval s.node "coroutine" write
    let rest ← c.callArguments eval s.node ["arg1", "arg2"] [some "nil", some "nil"] write
    let success ← Emit.temp s.node "co_success"
    let success ← Emit.bindOutput s.node "success" (some success)
    let result ← Emit.temp s.node "co_result"
    let result ← Emit.bindOutput s.node "result" (some result)
    s.lineThenNext c chain ("local " ++ success ++ ", " ++ result ++ " = " ++
      Lua.call "coroutine.resume" (coroutine.toList ++ rest))

/-- The frames that stand between a statement and what an input of its node is asked for, the most
where they differ. -/
def Statement.inputFrames : Statement → Nat
  | .follow | .openEvent | .sequence => 0
  | .callEvent | .declare => 1
  | .branch | .loop | .assign => 2
  | .call _ _ | .resume => 3

end CartGraph
