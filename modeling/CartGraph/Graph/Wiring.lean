import CartGraph.Graph.Pins

/-!
# Wiring rules

A connection runs from an output of one node to an input of another, of compatible kinds. An input
takes one connection, an exec output feeds one consumer, and a value output feeds any number.
-/
namespace CartGraph.Graph

def wiringError (fault : WiringFault) : Error := .compile (.invalidConnection fault)

/-- The node that an end of a connection names. -/
def endNode (g : Graph) (node : Value) : Except Error Key := do
  let id ← node.key
  if g.hasNode id then return id else throw (wiringError (.unknownNode id))

/-- The kind of a connection: that of the source, unless the source leaves it open. -/
def connectionKind (source target : Pin) : Kind :=
  if source.kind == .any then target.kind else source.kind

/-- The connection between two pins of two nodes. -/
def joining (sourceNode : Key) (source : Pin) (targetNode : Key) (target : Pin) : Connection :=
  { sourceNode, sourcePin := source.id, targetNode, targetPin := target.id
    kind := connectionKind source target }

/-- Why two pins can not be joined by a connection, whatever else is connected. -/
def pinsFault? (source target : Pin) (c : Connection) : Option WiringFault :=
  if source.direction != .output then some (.notAnOutput c.sourceNode c.sourcePin)
  else if target.direction != .input then some (.notAnInput c.targetNode c.targetPin)
  else if !source.kind.compatible target.kind then
    some (.incompatible source.kind c.sourceNode c.sourcePin target.kind c.targetNode c.targetPin)
  else none

/-- Why the pins of a connection are not free. -/
def occupiedFault? (g : Graph) (source : Pin) (c : Connection) : Option WiringFault :=
  match g.incoming? c.targetNode c.targetPin with
  | some existing =>
    if existing.parallel c then some (.duplicate existing.describe c.targetNode c.targetPin)
    else some (.inputTaken c.targetNode c.targetPin)
  | none =>
    if source.isExec && !(g.outgoing c.sourceNode c.sourcePin).isEmpty then
      some (.execTaken c.sourceNode c.sourcePin)
    else none

/-- The connection between two pins, checked against the wiring rules. -/
def wire (g : Graph) (sourceNode sourcePin targetNode targetPin : Value) :
    Except Error Connection := do
  let s ← g.endNode sourceNode
  let t ← g.endNode targetNode
  if s.alike t then throw (wiringError (.selfLoop s))
  let source ← g.findPin? s sourcePin
  let target ← g.findPin? t targetPin
  match source, target with
  | none, _ => throw (wiringError (.noPin s sourcePin))
  | some _, none => throw (wiringError (.noPin t targetPin))
  | some source, some target =>
    let c := joining s source t target
    match (pinsFault? source target c).or (g.occupiedFault? source c) with
    | some fault => throw (wiringError fault)
    | none => return c

end CartGraph.Graph
