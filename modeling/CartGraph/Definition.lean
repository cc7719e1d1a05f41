import CartGraph.Property

/-!
# Node definitions

What the nodes of one type have in common: their pins, their properties and what the palette shows.
Some types derive further pins from the properties of each node.
-/
namespace CartGraph

/-- Where the further pins of a node come from. -/
inductive DerivedPins where
  /-- The node has the pins of its definition only. -/
  | none
  /-- An exec output for each branch that the node lists. -/
  | branches
  /-- An output for each parameter that the node lists. -/
  | parameters
  /-- An input for each parameter of the custom event that the node calls. -/
  | arguments
  deriving DecidableEq, Repr

structure Definition where
  id : String
  title : String
  category : String
  inputs : List Pin := []
  outputs : List Pin := []
  properties : List Property := []
  tags : List String := []
  description : String := ""
  unique : Bool := false
  derivedPins : DerivedPins := .none

namespace Definition

def pins (d : Definition) : List Pin := d.inputs ++ d.outputs

def hasExecPins (d : Definition) : Bool := d.pins.any Pin.isExec

def property? (d : Definition) (key : Key) : Option Property :=
  d.properties.find? fun p => key.alike p.key

/-- The properties that a new node starts with. -/
def defaults (d : Definition) : Table :=
  Table.ofEntries (d.properties.map fun p => (.text p.key, p.default))

/-- The first name that occurs a second time. -/
def firstRepeated? (seen : List String) : List String → Option String
  | [] => none
  | s :: rest => if seen.contains s then some s else firstRepeated? (s :: seen) rest

/-- Refuses two pins of one id, and pins that are listed on the wrong side. -/
def check (d : Definition) : Except Error Unit :=
  match firstRepeated? [] (d.pins.map Pin.id) with
  | some pin => .error (.duplicatePin pin d.id)
  | none =>
    match d.inputs.find? fun p => p.direction != .input with
    | some p => .error (.listedAsInput p.id d.id)
    | none =>
      match d.outputs.find? fun p => p.direction != .output with
      | some p => .error (.listedAsOutput p.id d.id)
      | none => .ok ()

end Definition

end CartGraph
