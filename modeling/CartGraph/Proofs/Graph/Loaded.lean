import CartGraph.Graph.Saved
import CartGraph.Proofs.Graph.Representation
import Mathlib.Data.List.Nodup

/-! # Graphs that were loaded

All nodes of a document are added before its connections, so the pins that a connection was checked
against are the pins of the finished graph. What follows is about exec connections: each enters
its target by the one exec input that nodes have, so a node is entered by at most one of them, and
each is the only one to leave its output. -/
namespace CartGraph

/-- What holds at first and is kept by every step holds of what a fold answers. -/
theorem foldlM_ok_of_mem {f : β → α → Except ε β} {P : β → Prop} {l : List α}
    (hstep : ∀ b a b', a ∈ l → P b → f b a = .ok b' → P b') {b b' : β} (hb : P b)
    (h : l.foldlM f b = .ok b') : P b' := by
  induction l generalizing b with
  | nil => exact Except.ok.inj h ▸ hb
  | cons a rest ih =>
    rw [List.foldlM_cons] at h
    obtain ⟨b₁, h₁, h⟩ := bind_ok h
    exact ih (fun b a b' ha => hstep b a b' (.tail _ ha)) (hstep b a b₁ (.head _) hb h₁) h

theorem foldlM_ok {f : β → α → Except ε β} {P : β → Prop}
    (hstep : ∀ b a b', P b → f b a = .ok b' → P b') (l : List α) (b b' : β) (hb : P b)
    (h : l.foldlM f b = .ok b') : P b' :=
  foldlM_ok_of_mem (fun b a b' _ => hstep b a b') hb h

/-- The ids of the nodes in canonical form. -/
def Graph.ids (g : Graph) : List Key := g.nodes.map fun n => n.id.canonical

structure Loaded (g : Graph) : Prop extends Represented g where
  ids : g.ids.Nodup
  joins : ∀ c ∈ g.connections, ∃ source target, g.Joins c source target

namespace Loaded

theorem edited_ok {g g' : Graph} {edit : Edit Unit} (h : g.edited edit = .ok g') :
    edit.outcome g = (.ok (), g') := by
  unfold Graph.edited at h
  split at h
  · rename_i ho
    rw [ho, Except.ok.inj h]
  · cases h

theorem hasNode_iff {g : Graph} {id : Key} : g.hasNode id = true ↔ id.canonical ∈ g.ids := by
  unfold Graph.hasNode Graph.node? Graph.ids
  rw [List.find?_isSome, List.mem_map]
  constructor
  · rintro ⟨n, hn, hk⟩
    exact ⟨n, hn, of_decide_eq_true hk⟩
  · rintro ⟨n, hn, hk⟩
    exact ⟨n, hn, decide_eq_true hk⟩

theorem nodup_addNode {g : Graph} {n : Node} (h : g.ids.Nodup) (hfree : g.hasNode n.id = false) :
    ({ g with nodes := g.nodes ++ [n] } : Graph).ids.Nodup := by
  have hnew : n.id.canonical ∉ g.ids := fun hm => by
    rw [hasNode_iff.mpr hm] at hfree
    cases hfree
  unfold Graph.ids at h hnew ⊢
  rw [List.map_append, List.nodup_append]
  refine ⟨h, by simp, fun a ha b hb hab => hnew ?_⟩
  rwa [hab, List.mem_singleton.mp hb] at ha

theorem addSavedNode {g g' : Graph} {v : Value}
    (hg : Represented g ∧ g.connections = [] ∧ g.ids.Nodup)
    (h : g.addSavedNode v = .ok g') : Represented g' ∧ g'.connections = [] ∧ g'.ids.Nodup := by
  obtain ⟨d, _, h⟩ := bind_ok h
  have ho := edited_ok h
  rcases Edit.outcome_addNode d g with ⟨e, he⟩ | ⟨t, id, _, _, hfree, hn⟩
  · cases he.symm.trans ho
  · cases hn.symm.trans ho
    exact ⟨hg.1.addNode _, hg.2.1, nodup_addNode hg.2.2 hfree⟩

/-- The pins of a graph do not depend on its connections, so what was joined stays joined. -/
theorem joined {g : Graph} (hg : Loaded g) {a p b q : Value} {c : Connection}
    (hw : g.wire a p b q = .ok c) : Loaded (Edit.joined c g) := by
  refine ⟨hg.toRepresented.joined hw, hg.ids, fun d hd => ?_⟩
  have keep : ∀ {d source target}, g.Joins d source target →
      (Edit.joined c g).Joins d source target := fun hj =>
    ⟨hj.sourcePin, hj.targetPin, hj.kind, hj.foundSource, hj.foundTarget, hj.output, hj.input,
      hj.compatible⟩
  rcases List.mem_append.mp hd with hd | hd
  · obtain ⟨source, target, hj⟩ := hg.joins d hd
    exact ⟨source, target, keep hj⟩
  · obtain ⟨source, target, hj, _⟩ := Graph.wire_ok hw
    cases List.mem_singleton.mp hd
    exact ⟨source, target, keep hj⟩

/-- A connection that is made is one that passed the wiring rules. -/
theorem connect_ok {g g' : Graph} {a p b q : Value} (h : g.connect a p b q = .ok g') :
    ∃ c, g.wire a p b q = .ok c ∧ g' = Edit.joined c g := by
  have ho := edited_ok h
  rcases Edit.outcome_connect a p b q g with ⟨e, he⟩ | ⟨c, hw, hc⟩
  · cases he.symm.trans ho
  · cases hc.symm.trans ho
    exact ⟨c, hw, rfl⟩

theorem addSavedConnection {g g' : Graph} {v : Value} (hg : Loaded g)
    (h : g.addSavedConnection v = .ok g') : Loaded g' := by
  obtain ⟨raw, _, h⟩ := bind_ok h
  obtain ⟨a, _, h⟩ := bind_ok h
  obtain ⟨p, _, h⟩ := bind_ok h
  obtain ⟨b, _, h⟩ := bind_ok h
  obtain ⟨q, _, h⟩ := bind_ok h
  obtain ⟨c, hw, rfl⟩ := connect_ok h
  exact hg.joined hw

theorem of_load {document : Value} {g : Graph}
    (h : Graph.load document Library.catalogue = .ok g) : Loaded g := by
  obtain ⟨t, _, h⟩ := bind_ok h
  obtain ⟨nodes, _, h⟩ := bind_ok h
  obtain ⟨g₁, h₁, h⟩ := bind_ok h
  obtain ⟨connections, _, h⟩ := bind_ok h
  obtain ⟨hrep, hnone, hids⟩ := foldlM_ok (fun _ _ _ => addSavedNode) nodes _ g₁
    ⟨.empty, rfl, .nil⟩ h₁
  have hloaded : Loaded g₁ := ⟨hrep, hids, fun c hc => by rw [hnone] at hc; cases hc⟩
  exact foldlM_ok (fun _ _ _ => addSavedConnection) connections g₁ g hloaded h

/-- A node is found by its id. -/
theorem node?_of_mem {g : Graph} (h : Loaded g) {n : Node} (hn : n ∈ g.nodes) {id : Key}
    (hk : n.id.canonical = id.canonical) : g.node? id = some n := by
  have hsome : g.hasNode id = true := hasNode_iff.mpr (List.mem_map.mpr ⟨n, hn, hk⟩)
  obtain ⟨m, hm⟩ := Option.isSome_iff_exists.mp hsome
  have hmid : m.id.canonical = id.canonical := by
    have := List.find?_some hm
    exact of_decide_eq_true this
  have hmem : m ∈ g.nodes := List.mem_of_find?_eq_some hm
  rw [hm, List.inj_on_of_nodup_map h.ids hmem hn (hmid.trans hk.symm)]

/-! ## Exec connections -/

variable {g : Graph}

theorem sided (h : Loaded g) {node : Key} {ps : Graph.PinSet} (hps : g.pinsOf node = .ok ps) :
    ps.Sided := by
  obtain ⟨t, _, _, ht, _⟩ := Graph.pinsOf_ok hps
  have hm := h.type_mem ht
  exact Graph.pinsOf_sided hps ht (Library.inputs_direction t hm) (Library.outputs_direction t hm)

/-- The pins of a connection are listed among those of its nodes. -/
theorem listed (h : Loaded g) {c : Connection} {source target : Pin}
    (hj : g.Joins c source target) :
    (∃ ps, g.pinsOf c.sourceNode = .ok ps ∧ source ∈ ps.outputs) ∧
      ∃ ps, g.pinsOf c.targetNode = .ok ps ∧ target ∈ ps.inputs := by
  obtain ⟨ps, hps, hs⟩ := Graph.findPin?_mem hj.foundSource
  obtain ⟨qs, hqs, ht⟩ := Graph.findPin?_mem hj.foundTarget
  refine ⟨⟨ps, hps, hs.resolve_left fun hs => ?_⟩, ⟨qs, hqs, ht.resolve_right fun ht => ?_⟩⟩
  · cases hj.output.symm.trans ((h.sided hps).inputs source hs)
  · cases hj.input.symm.trans ((h.sided hqs).outputs target ht)

/-- An exec connection enters its target by an exec input of the definition. -/
theorem exec_target (h : Loaded g) {c : Connection} (hc : c ∈ g.connections)
    (hx : c.isExec = true) : ∃ t ∈ Library.types, g.typeOf c.targetNode = .ok t ∧
      ∃ p ∈ t.definition.inputs, p.isExec = true ∧ c.targetPin = .text p.id := by
  obtain ⟨source, target, hj⟩ := h.joins c hc
  obtain ⟨_, ps, hps, ht⟩ := h.listed hj
  obtain ⟨t, _, _, htype, _⟩ := Graph.pinsOf_ok hps
  have hx' : target.isExec = true := hj.isExec_target ▸ hx
  exact ⟨t, h.type_mem htype, htype, target, Graph.pinsOf_execInput hps ht htype hx', hx',
    hj.targetPin⟩

theorem exec_in (h : Loaded g) {c : Connection} (hc : c ∈ g.connections)
    (hx : c.isExec = true) : c.targetPin = .text "exec_in" := by
  obtain ⟨t, ht, _, p, hp, hpx, hpin⟩ := h.exec_target hc hx
  rw [hpin, Library.execInput_id t ht p hp hpx]

/-- A node is entered by at most one exec connection. -/
theorem exec_unique (h : Loaded g) {c d : Connection} (hc : c ∈ g.connections)
    (hd : d ∈ g.connections) (hcx : c.isExec = true) (hdx : d.isExec = true)
    (ht : c.targetNode.canonical = d.targetNode.canonical) : c = d := by
  refine h.eq_of_target hc hd ?_
  unfold Connection.target placeOf
  rw [h.exec_in hc hcx, h.exec_in hd hdx, ht]

theorem mem_execTargets (h : Loaded g) {n t pin : Key} :
    t ∈ g.execTargets n pin ↔
      ∃ c ∈ g.connections, c.isExec = true ∧ c.source = placeOf n pin ∧ c.targetNode = t := by
  simp only [Graph.execTargets, Graph.execOutgoing, List.mem_map, List.mem_filter, h.mem_outgoing]
  constructor
  · rintro ⟨c, ⟨⟨hc, hs⟩, hx⟩, ht⟩
    exact ⟨c, hc, hx, hs, ht⟩
  · rintro ⟨c, hc, hx, hs, ht⟩
    exact ⟨c, ⟨⟨hc, hs⟩, hx⟩, ht⟩

/-! ## The same connections in two graphs -/

variable {g' : Graph}

/-- What enters a node is told by the list of connections. -/
theorem incoming?_eq (h : Loaded g) (h' : Loaded g') {n : Key}
    (hsame : ∀ c, c.targetNode.canonical = n.canonical → (c ∈ g'.connections ↔ c ∈ g.connections))
    (pin : Key) : g'.incoming? n pin = g.incoming? n pin := by
  refine Option.ext fun c => ?_
  rw [show g'.incoming? n pin = some c ↔ _ from h'.incoming (placeOf n pin) c,
    show g.incoming? n pin = some c ↔ _ from h.incoming (placeOf n pin) c]
  exact and_congr_left fun htarget => hsame c (congrArg Prod.fst htarget)

/-- Where an exec output leads is told by the list of connections, in whatever order, since it leads
to at most one node. -/
theorem execTargets_eq (h : Loaded g) (h' : Loaded g') {n : Key}
    (hsame : ∀ c, c.isExec = true → c.sourceNode.canonical = n.canonical →
      (c ∈ g'.connections ↔ c ∈ g.connections))
    (pin : Key) : g'.execTargets n pin = g.execTargets n pin := by
  have hmem (m : Key) : m ∈ g'.execTargets n pin ↔ m ∈ g.execTargets n pin := by
    rw [h'.mem_execTargets, h.mem_execTargets]
    refine exists_congr fun c => and_congr_left fun ⟨hx, hs, _⟩ => ?_
    exact hsame c hx (congrArg Prod.fst hs)
  rcases h.execTargets_cases n pin with hnone | ⟨t, ht⟩
  · rw [hnone, List.eq_nil_iff_forall_not_mem]
    intro m hm
    rw [hmem, hnone] at hm
    cases hm
  · rcases h'.execTargets_cases n pin with hnone' | ⟨t', ht'⟩
    · have hm := (hmem t).mpr (by rw [ht]; exact .head _)
      rw [hnone'] at hm
      cases hm
    · have hm := (hmem t').mp (by rw [ht']; exact .head _)
      rw [ht] at hm
      rw [ht, ht', List.mem_singleton.mp hm]

end Loaded

/-- A document of nodes, given by id, type and properties, and of connections, given by their
ends. -/
def Graph.outline (nodes : List (Key × String × List (String × Value)))
    (connections : List (Key × String × Key × String)) : Value :=
  .object [
    ("nodes", .list (nodes.map fun (id, type, properties) => .object
      [("id", id), ("definitionId", .text type), ("properties", .object properties)])),
    ("connections", .list (connections.map fun (a, p, b, q) => .object
      [("fromNode", a), ("fromPin", .text p), ("toNode", b), ("toPin", .text q)]))]

end CartGraph
