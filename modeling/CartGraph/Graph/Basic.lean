import CartGraph.Catalogue.Basic

/-!
# Graphs

A graph holds nodes and connections, each in the order in which they were added. Nodes know nothing
of each other: a connection names its two nodes by id, and its pins.
-/
namespace CartGraph

structure Connection where
  sourceNode : Key
  sourcePin : Key
  targetNode : Key
  targetPin : Key
  kind : Kind := .any
  deriving DecidableEq, Repr

namespace Connection

def isExec (c : Connection) : Bool := c.kind == .exec

def touches (c : Connection) (node : Key) : Bool :=
  c.sourceNode.alike node || c.targetNode.alike node

def enters (c : Connection) (node pin : Key) : Bool :=
  c.targetNode.alike node && c.targetPin.alike pin

def leaves (c : Connection) (node pin : Key) : Bool :=
  c.sourceNode.alike node && c.sourcePin.alike pin

/-- Whether two connections have the same ends. -/
def parallel (c d : Connection) : Bool :=
  c.leaves d.sourceNode d.sourcePin && c.enters d.targetNode d.targetPin

/-- Whether two connections have the same ends and kind. -/
def alike (c d : Connection) : Bool := c.parallel d && c.kind == d.kind

def describe (c : Connection) : String :=
  "Connection(" ++ c.sourceNode.display ++ "." ++ c.sourcePin.display ++ " -> " ++
    c.targetNode.display ++ "." ++ c.targetPin.display ++ ")"

/-- The four ends of a connection, as they are saved. -/
def ends (c : Connection) : List (String × Value) := [
  ("fromNode", c.sourceNode),
  ("fromPin", c.sourcePin),
  ("toNode", c.targetNode),
  ("toPin", c.targetPin)]

def toValue (c : Connection) : Value := .object c.ends

end Connection

/-- A pin of a node, both in canonical form. -/
abbrev Place := Key × Key

def placeOf (node pin : Key) : Place := (node.canonical, pin.canonical)

namespace Connection

/-- The output that a connection leaves. -/
def source (c : Connection) : Place := placeOf c.sourceNode c.sourcePin

/-- The input that a connection enters. -/
def target (c : Connection) : Place := placeOf c.targetNode c.targetPin

end Connection

/-- Connections are listed, and found again through two indices. -/
structure Graph where
  catalogue : Catalogue
  nodes : List Node := []
  connections : List Connection := []
  /-- The connection that enters each input. -/
  incomingIndex : List (Place × Connection) := []
  /-- The connections that leave each output, oldest first. An output that lost its connections
  keeps its entry. -/
  outgoingIndex : List (Place × List Connection) := []

namespace Graph

def empty (catalogue : Catalogue) : Graph := { catalogue }

def node? (g : Graph) (id : Key) : Option Node := g.nodes.find? fun n => n.id.alike id

def hasNode (g : Graph) (id : Key) : Bool := (g.node? id).isSome

def node (g : Graph) (id : Key) : Except Error Node :=
  match g.node? id with
  | some n => .ok n
  | none => .error (.unknownNode id)

/-- The type of a node of the graph. -/
def typeOf (g : Graph) (id : Key) : Except Error NodeType := do
  let n ← g.node id
  g.catalogue.require n.definitionId n.id

/-- The connection that feeds an input pin. -/
def incoming? (g : Graph) (node pin : Key) : Option Connection :=
  g.incomingIndex.lookup (placeOf node pin)

/-- The connections that leave an output pin, oldest first. -/
def outgoing (g : Graph) (node pin : Key) : List Connection :=
  (g.outgoingIndex.lookup (placeOf node pin)).getD []

/-- The connections that lead on from an exec output. -/
def execOutgoing (g : Graph) (node pin : Key) : List Connection :=
  (g.outgoing node pin).filter Connection.isExec

/-- The nodes that an exec output leads to. -/
def execTargets (g : Graph) (node pin : Key) : List Key :=
  (g.execOutgoing node pin).map Connection.targetNode

/-- The names under which a new node is told its graph, its type and its id. -/
def reservedNames : List String := ["self", "definition_id", "node_id"]

/-- Properties of a new node are given by name, and not by a reserved one. -/
def usableKey : Key → Bool
  | .text s => !reservedNames.contains s
  | _ => false

/-- The connection at an index. A negative index counts from the end. -/
def connectionAt (g : Graph) (index : Int) : Except Error Connection :=
  let i := if index < 0 then index + g.connections.length else index
  match if i < 0 then none else g.connections[i.toNat]? with
  | some c => .ok c
  | none => .error (.connectionIndex index)

def describe (g : Graph) : String :=
  s!"Graph(nodes={g.nodes.length}, connections={g.connections.length})"

end Graph

end CartGraph
