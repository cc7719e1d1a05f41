import CartGraph.Emit.Walk
import CartGraph.Order
import CartGraph.Variable

/-!
# Programs

A program is a header, the declarations of the workspace variables, and a function for each entry
node. An entry node with an event name becomes the function that the console calls for the event;
one without becomes a custom event.
-/
namespace CartGraph

/-- Whether a node starts a function, and the event that it answers to, as they were given. What the
node says itself comes before what its type says. -/
def Graph.entryInfo (g : Graph) (n : Node) : Except Error (Value × Value) := do
  let t ← g.typeOf n.id
  return (if n.isEntryPoint.isNull then .bool t.isEntryPoint else n.isEntryPoint,
    n.eventName.orElse t.eventName)

/-- The entry nodes that answer to no event. -/
def Graph.customEvents (g : Graph) : Except Error (List Node) :=
  g.nodes.filterM fun n => do
    let (entry, event) ← g.entryInfo n
    return entry.truthy && !event.truthy

namespace Program

def header : String := "-- Generated with picoGraph"

def noEntry : String := "-- No entry node present."

/-- The events of the console in the order of their functions. -/
def lifecycle : List String := ["_init", "_update", "_update60", "_draw"]

/-- The place of an event in the program: events of the console first, then by name. -/
def eventRank (event : Key) : Nat × Key :=
  match lifecycle.findIdx? fun (e : String) => event.alike e with
  | some i => (i, "")
  | none => (lifecycle.length, event)

def eventLE (a b : Key) : Bool :=
  Order.lexLE (fun x y => decide (x ≤ y)) Key.nameLE (eventRank a) (eventRank b)

/-- The entry nodes of a graph: those that answer to an event, with the event, and custom events. -/
structure Entries where
  named : List (Key × Key) := []
  custom : List Node := []

namespace Entries

/-- The event that a node answers to at the chosen frame rate. -/
def remap (settings : Settings) (event : Key) : Key :=
  if event.alike "_update" && settings.use60fps.truthy then "_update60" else event

def add (g : Graph) (settings : Settings) (entries : Entries) (n : Node) :
    Except Error Entries := do
  let (entry, event) ← g.entryInfo n
  if !entry.truthy then return entries
  else if !event.truthy then return { entries with custom := entries.custom ++ [n] }
  else
    let event ← event.key
    return { entries with named := entries.named ++ [(remap settings event, n.id)] }

def ofGraph (g : Graph) (settings : Settings) : Except Error Entries :=
  g.nodes.foldlM (add g settings) {}

def isEmpty (e : Entries) : Bool := e.named.isEmpty && e.custom.isEmpty

/-- The nodes that answer to an event, in the order of the nodes. -/
def nodesOf (e : Entries) (event : Key) : List Key :=
  (e.named.filter fun entry => entry.1.alike event).map (·.2)

/-- The events that are answered, each once, as they are first named. -/
def events (e : Entries) : List Key := Association.distinctBy Key.canonical [] (e.named.map (·.1))

/-- Whether the events have an order: texts among themselves have one, and so have numbers. -/
def comparable (e : Entries) : Bool :=
  e.events.length ≤ 1 || e.events.all Key.isText || e.events.all Key.isNumber

/-- The first event by name that several nodes answer to. -/
def duplicate? (e : Entries) : Option (Key × List Key) :=
  ((Order.sortBy Key.nameLE e.events).find? fun event => 1 < (e.nodesOf event).length).map
    fun event => (event, e.nodesOf event)

/-- The id of a node as it is told among others. -/
def idText : Key → Except Error String
  | .text s => .ok s
  | id => .error (.idNotText id)

/-- Refuses two nodes that answer to one event. -/
def check (e : Entries) : Except Error Unit := do
  if !e.comparable then throw .mixedEvents
  match e.duplicate? with
  | none => return ()
  | some (event, nodes) => throw (.compile (.duplicateEntry event.display (← nodes.mapM idText)))

end Entries

/-- Custom events by what they are called, without regard to case first. -/
def signatureLE (a b : Signature) : Bool :=
  Order.lexLE Order.textLE Order.textLE (Text.lower a.displayName, a.displayName)
    (Text.lower b.displayName, b.displayName)

/-- A function of the program: what stands after the word `function`, and the node that it starts
from. -/
structure Function where
  head : String
  node : Key
  deriving DecidableEq, Repr

/-- The functions of a program in order. -/
def functions (entries : Entries) (signatures : List Signature) : List Function :=
  (Order.sortBy (fun a b => eventLE a.1 b.1) entries.named).map
      (fun entry => ⟨entry.1.display ++ "()", entry.2⟩) ++
    (Order.sortBy signatureLE signatures).map
      fun s => ⟨s.functionName ++ "(" ++ s.parameterList ++ ")", s.nodeId⟩

def Function.emitOn (c : Compilation) (room : Room) (f : Function) : Emit (List String) := do
  let body ← c.entryOn room f.node 1
  return "" :: ("function " ++ f.head) :: body ++ ["end"]

def emitAllOn (c : Compilation) (room : Room) : List Function → Emit (List String)
  | [] => pure []
  | f :: rest => do
    let lines ← f.emitOn c room
    let more ← emitAllOn c room rest
    return lines ++ more

def emitAll (c : Compilation) (functions : List Function) : Emit (List String) :=
  emitAllOn c .endless functions

/-- The lines that declare the variables. -/
def preamble (declarations : List String) : List String :=
  if declarations.isEmpty then [] else "" :: declarations

/-- The frames that are held where a variable is given its default. -/
def declareFrames : Nat := 3

/-- The frames that are held where a function begins. -/
def entryFrames : Nat := 2

/-- The text of a program within some room, and what the walk did to find it. -/
def assembleLogged (g : Graph) (settings : Settings) (globals : List Variable)
    (room : Room := .endless) : Except Error String × Progress :=
  match Entries.ofGraph g settings with
  | .error e => (.error e, {})
  | .ok entries =>
    if entries.isEmpty then (.ok ("\n".intercalate [header, noEntry]), {})
    else match entries.check with
      | .error e => (.error e, {})
      | .ok () => match Variable.declareOn (room.less declareFrames) globals with
        | .error e => (.error e, {})
        | .ok declarations =>
          let events := Signature.ofNodes entries.custom
          let c : Compilation := { graph := g, settings, globals := declarations.names, events }
          let (blocks, progress) :=
            emitAllOn c (room.less entryFrames) (functions entries (events.map (·.2))) {}
          (blocks.map fun lines =>
            "\n".intercalate (header :: preamble declarations.lines ++ lines), progress)

/-- The Lua text of a graph within some room. -/
def assemble (g : Graph) (settings : Settings) (globals : List Variable) (room : Room := .endless) :
    Except Error String :=
  (assembleLogged g settings globals room).1

/-- The frames that are added to the stack for each node of the graph. -/
def framesPerNode : Nat := 8

/-- The room for a graph: the frames that are left and those that are added for its nodes, whether
the walk comes to them or not. -/
def roomFor (g : Graph) (left : Nat) : Room := .frames (left + framesPerNode * g.nodes.length)

/-- What is told when the stack runs out: the depth of the graph is at fault, and no node. -/
def outOfRoom (settings : Settings) : Error :=
  .compile (.tooComplex "max_depth" settings.maxDepth .null)

/-- The error that is told. -/
def told (settings : Settings) (e : Error) : Error :=
  if e.isOverflow then outOfRoom settings else e

/-- The text of a program on the stack that there is, and what the walk did to find it. -/
def compileLogged (g : Graph) (settings : Settings) (globals : List Variable)
    (left : Nat := Room.start) : Except Error String × Progress :=
  let (result, progress) := assembleLogged g settings globals (roomFor g left)
  (result.mapError (told settings), progress)

/-- The Lua text of a graph on the stack that there is. -/
def compile (g : Graph) (settings : Settings) (globals : List Variable)
    (left : Nat := Room.start) : Except Error String :=
  (compileLogged g settings globals left).1

end Program

end CartGraph
