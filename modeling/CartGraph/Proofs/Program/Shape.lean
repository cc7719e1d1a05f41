import CartGraph.Proofs.Program.GlobalNames

/-! # Shape of a program

Each entry node of a graph becomes one function. The functions of events come first, those of the
console in its order and the others by name; custom events follow by what they are called, and those
that are called alike in the order of the nodes. The bodies are emitted in the order in which they
stand (`Program.assemble_shape`). -/
namespace CartGraph

/-! ## Signatures of nodes with different ids -/

namespace Program.Entries

variable {entries : Entries}

end Program.Entries

namespace Program

variable {g : Graph} {settings : Settings} {globals : List Variable}

/-! ## Titles -/

/-- What stands above the body of a function, and the node that the function starts from. -/
structure Title where
  node : Node
  name : String
  parameters : String

def atRate (fast : Bool) (event : String) : String :=
  if fast && event == "_update" then "_update60" else event

theorem remap_text (settings : Settings) (s : String) :
    Entries.remap settings (.text s) = .text (atRate settings.use60fps.truthy s) := by
  unfold Entries.remap atRate
  rw [Key.alike_text, Bool.and_comm]
  split <;> rfl

/-! ## Titles of events -/

section

variable {custom : List Node} (hids : (custom.map fun n => n.id.canonical).Nodup)

include hids

end

/-! ## Programs -/

/-- A function as it is written, with the node that it starts from. -/
structure Block extends Title where
  body : List String

def Block.written (b : Block) : Written := ⟨b.name, b.parameters, b.body⟩

variable {entries : Entries}

/-- Entry nodes in no order: events of the console, one that a node names itself, and custom events
of which two are called alike. -/
def mixedEntries : Value :=
  let node (id definition : String) (fields : List (String × Value)) : Value :=
    .object ([("id", .text id), ("definitionId", .text definition)] ++ fields)
  let custom (id name : String) : Value :=
    node id "custom_event" [("properties", .object [("name", .text name)])]
  .object [
    ("nodes", .list [custom "z" "Up",
      node "t" "graphics_cls" [("isEntryPoint", .bool true), ("eventName", .text "tick")],
      node "d" "event_draw" [], custom "y" "up", custom "x" "Up", node "u" "event_update" [],
      node "c" "graphics_cls" []]),
    ("connections", .list [.object [("fromNode", .text "u"), ("fromPin", .text "exec_out"),
      ("toNode", .text "c"), ("toPin", .text "exec_in")]])]

def mixedLayout : Layout where
  declared := [("score", "0")]
  functions := [⟨"_update60", "", ["  cls()"]⟩, ⟨"_draw", "", []⟩, ⟨"tick", "", ["  cls()"]⟩,
    ⟨"custom_up", "", []⟩, ⟨"custom_up_2", "", []⟩, ⟨"custom_up_1", "", []⟩]

end Program

end CartGraph
