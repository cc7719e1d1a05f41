import CartGraph.Association
import CartGraph.Graph.Wiring

/-!
# Changing a graph

A change works on the graph in place: it answers or fails, and a change that fails keeps what it did
before it failed. Each connection is entered in the list and in both indices, and taken out of all
three.
-/
namespace CartGraph

abbrev Edit := ExceptT Error (StateM Graph)

/-- The node with its properties changed, if it has the given id. -/
def Node.rewrite (id : Key) (change : Table → Table) (n : Node) : Node :=
  if n.id.alike id then { n with properties := change n.properties } else n

namespace Edit

/-- Adds a node whose type is in the catalogue and whose id is new. -/
def addNode (d : Draft) : Edit Unit := do
  let g ← get
  let t ← liftExcept (g.catalogue.require d.definitionId d.id)
  let id ← liftExcept d.id.key
  if g.hasNode id then throw (.duplicateNode id)
  modify fun g => { g with nodes := g.nodes ++ [.ofDraft id t.id d] }

/-- Adds a new node with the defaults of its type. -/
def createNode (definition id : Value) (properties : Table) : Edit Unit := do
  match (properties.map (·.1)).find? fun k => !Graph.usableKey k with
  | some k => throw (.unusableKey k)
  | none =>
    let g ← get
    let d ← liftExcept (g.catalogue.create definition id (.table properties))
    addNode d

/-- Enters a connection in the list. -/
def list (c : Connection) (g : Graph) : Graph := { g with connections := g.connections ++ [c] }

/-- Enters a connection under its input. -/
def indexTarget (c : Connection) (g : Graph) : Graph :=
  { g with incomingIndex := Association.assign c.target c g.incomingIndex }

/-- Enters a connection under its output. -/
def indexSource (c : Connection) (g : Graph) : Graph :=
  { g with outgoingIndex :=
      Association.assign c.source (g.outgoing c.sourceNode c.sourcePin ++ [c]) g.outgoingIndex }

/-- Adds a connection between two pins. -/
def connect (sourceNode sourcePin targetNode targetPin : Value) : Edit Unit := do
  let g ← get
  let c ← liftExcept (g.wire sourceNode sourcePin targetNode targetPin)
  modify (list c)
  modify (indexTarget c)
  modify (indexSource c)

def unlist (c : Connection) (g : Graph) : Graph :=
  { g with connections := g.connections.eraseP c.alike }

def unindexTarget (c : Connection) (g : Graph) : Graph :=
  { g with incomingIndex := Association.erase c.target g.incomingIndex }

def unindexSource (c : Connection) (g : Graph) : Graph :=
  let leaving := g.outgoing c.sourceNode c.sourcePin
  if leaving.any c.alike then
    { g with outgoingIndex := Association.assign c.source (leaving.eraseP c.alike) g.outgoingIndex }
  else g

/-- Removes a connection, which must be there with the same ends and kind. -/
def disconnect (c : Connection) : Edit Unit := do
  let g ← get
  if !g.connections.any c.alike then throw .noSuchConnection
  modify (unlist c)
  modify (unindexTarget c)
  modify (unindexSource c)

def disconnectAll : List Connection → Edit Unit
  | [] => pure ()
  | c :: rest => do
    disconnect c
    disconnectAll rest

/-- Removes a node, after every connection that touches it. -/
def removeNode (id : Key) : Edit Unit := do
  let g ← get
  if !g.hasNode id then throw (.absentNode id)
  disconnectAll (g.connections.filter fun c => c.touches id)
  modify fun g => { g with nodes := g.nodes.filter fun n => !n.id.alike id }

/-- Writes the properties of a node. -/
def write (id : Key) (change : Table → Table) : Edit Unit := do
  let g ← get
  if !g.hasNode id then throw (.unknownNode id)
  modify fun g => { g with nodes := g.nodes.map (Node.rewrite id change) }

/-- What a change answers, and the graph that it leaves behind. -/
def outcome (edit : Edit α) (g : Graph) : Except Error α × Graph := edit.run.run g

end Edit

namespace Graph

/-- The graph that a change leaves behind when it succeeds. -/
def edited (g : Graph) (edit : Edit Unit) : Except Error Graph :=
  match edit.outcome g with
  | (.ok (), g') => .ok g'
  | (.error e, _) => .error e

def addNode (g : Graph) (d : Draft) : Except Error Graph := g.edited (Edit.addNode d)

def createNode (g : Graph) (definition id : Value) (properties : Table) : Except Error Graph :=
  g.edited (Edit.createNode definition id properties)

def removeNode (g : Graph) (id : Key) : Except Error Graph := g.edited (Edit.removeNode id)

def connect (g : Graph) (sourceNode sourcePin targetNode targetPin : Value) :
    Except Error Graph :=
  g.edited (Edit.connect sourceNode sourcePin targetNode targetPin)

def disconnect (g : Graph) (c : Connection) : Except Error Graph := g.edited (Edit.disconnect c)

end Graph

end CartGraph
