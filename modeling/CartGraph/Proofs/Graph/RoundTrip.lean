import CartGraph.Proofs.Graph.Growth
import CartGraph.Proofs.Graph.Reading
import CartGraph.Proofs.Placement
import CartGraph.Proofs.Table

/-! # Saving and loading

A graph that was built by calls that succeeded is loaded again from its saved form. Connections were
made while nodes were still being added, and some were removed again, but a pin that was found once
is found ever after (`Graph.Grows.findPin?`), so all that are left can be made after all nodes.
Properties are the defaults of the type with entries written over them, and writing them over the
defaults again changes nothing. -/
namespace CartGraph

/-- Graphs over the standard catalogue that were built by calls that succeeded. -/
inductive Built : Graph → Prop
  | empty : Built (.empty Library.catalogue)
  | load {document : Value} {g : Graph} : Graph.load document Library.catalogue = .ok g → Built g
  | create {g g' : Graph} {definition id : Value} {properties : Table} : Built g →
      g.createNode definition id properties = .ok g' → Built g'
  | connect {g g' : Graph} {sourceNode sourcePin targetNode targetPin : Value} : Built g →
      g.connect sourceNode sourcePin targetNode targetPin = .ok g' → Built g'
  | disconnect {g g' : Graph} {c : Connection} : Built g → g.disconnect c = .ok g' → Built g'

/-- The type of a node is known, and its properties were written over the defaults of the type. -/
def Node.Typed (n : Node) : Prop := ∃ t entries,
  Library.catalogue.find? n.definitionId = some t ∧
    n.properties = t.definition.defaults.update entries

/-! ## Adding nodes -/

theorem Loaded.addNode {g : Graph} (h : Loaded g) {n : Node} (hnew : g.hasNode n.id = false) :
    Loaded { g with nodes := g.nodes ++ [n] } where
  toRepresented := h.toRepresented.addNode n
  ids := nodup_addNode h.ids hnew
  joins c hc := by
    obtain ⟨source, target, hj⟩ := h.joins c hc
    exact ⟨source, target, (Graph.Grows.addNode g n).joins h.toRepresented hj⟩

theorem Edit.parted_nodes (c : Connection) (g : Graph) :
    (Edit.parted c g).nodes = g.nodes ∧ (Edit.parted c g).catalogue = g.catalogue := by
  unfold Edit.parted Edit.unindexSource
  dsimp only
  split <;> exact ⟨rfl, rfl⟩

theorem Loaded.parted {g : Graph} (h : Loaded g) {c : Connection}
    (hc : g.connections.any c.alike = true) : Loaded (Edit.parted c g) := by
  obtain ⟨hnodes, hcatalogue⟩ := Edit.parted_nodes c g
  refine ⟨h.toRepresented.parted hc, ?_, fun d hd => ?_⟩
  · rw [Graph.ids, hnodes]
    exact h.ids
  · rw [h.connections_parted hc] at hd
    obtain ⟨source, target, hj⟩ := h.joins d (List.mem_filter.mp hd).1
    refine ⟨source, target, hj.sourcePin, hj.targetPin, hj.kind, ?_, ?_, hj.output, hj.input,
      hj.compatible⟩
    · rw [Graph.findPin?_of_nodes hnodes hcatalogue, hj.foundSource]
    · rw [Graph.findPin?_of_nodes hnodes hcatalogue, hj.foundTarget]

/-! ## What built graphs are like -/

namespace Catalogue

variable {catalogue : Catalogue} {v node : Value} {t : NodeType}

theorem require_ok (h : catalogue.require v node = .ok t) : catalogue.named? v = .ok (some t) := by
  obtain ⟨found, hfound, h⟩ := bind_ok h
  split at h
  · cases h
    exact hfound
  · cases h

theorem find?_id (h : catalogue.named? v = .ok (some t)) : catalogue.find? t.id = some t := by
  obtain ⟨k, _, h⟩ := bind_ok h
  split at h
  · rename_i s _
    have hs : catalogue.find? s = some t := Except.ok.inj h
    have ht : t.id = s := by simpa using List.find?_some hs
    rwa [ht]
  · cases h

end Catalogue

namespace Graph

/-- A draft that is read has the properties of its type, with entries written over them. -/
theorem readNode_ok {catalogue : Catalogue} {v : Value} {d : Draft}
    (h : readNode catalogue v = .ok d) : ∃ t entries,
      catalogue.named? d.definitionId = .ok (some t) ∧
      d.properties = t.definition.defaults.update entries := by
  obtain ⟨raw, _, h⟩ := bind_ok h
  obtain ⟨t, ht, h⟩ := bind_ok h
  obtain ⟨entries, _, h⟩ := bind_ok h
  obtain ⟨id, _, h⟩ := bind_ok h
  obtain ⟨definitionId, hdefinition, h⟩ := bind_ok h
  obtain ⟨position, _, h⟩ := bind_ok h
  cases h
  refine ⟨t, entries, ?_, rfl⟩
  unfold requireField at hdefinition
  split at hdefinition
  · rename_i hfield
    cases hdefinition
    rw [hfield] at ht
    exact Catalogue.require_ok ht
  · cases hdefinition

/-- A draft that is added becomes a node that was not there before. -/
theorem addNode_ok {g g' : Graph} {d : Draft} (hg : g.catalogue = Library.catalogue)
    (h : g.addNode d = .ok g') {t : NodeType} {entries : Table}
    (ht : Library.catalogue.named? d.definitionId = .ok (some t))
    (hd : d.properties = t.definition.defaults.update entries) :
    ∃ n : Node, n.Typed ∧ g.hasNode n.id = false ∧ g' = { g with nodes := g.nodes ++ [n] } := by
  have ho := Loaded.edited_ok h
  rcases Edit.outcome_addNode d g with ⟨e, he⟩ | ⟨t', id, hrequire, _, hfree, hn⟩
  · cases he.symm.trans ho
  · cases hn.symm.trans ho
    rw [hg] at hrequire
    cases ht.symm.trans (Catalogue.require_ok hrequire)
    exact ⟨_, ⟨t, entries, Catalogue.find?_id ht, hd⟩, hfree, rfl⟩

theorem Describes.typed {v : Value} {n : Node} (h : Describes Library.catalogue v n) : n.Typed := by
  obtain ⟨d, t, hread, hrequire, _, hn⟩ := h
  obtain ⟨t', entries, ht, hd⟩ := readNode_ok hread
  cases ht.symm.trans (Catalogue.require_ok hrequire)
  rw [hn]
  exact ⟨t, entries, Catalogue.find?_id ht, hd⟩

theorem createNode_ok {g g' : Graph} {definition id : Value} {properties : Table}
    (hg : g.catalogue = Library.catalogue) (h : g.createNode definition id properties = .ok g') :
    ∃ n : Node, n.Typed ∧ g.hasNode n.id = false ∧ g' = { g with nodes := g.nodes ++ [n] } := by
  have ho := Loaded.edited_ok h
  unfold Edit.createNode at ho
  split at ho
  · cases ho
  · simp only [Edit.outcome_get_bind, Edit.outcome_lift_bind] at ho
    cases hd : g.catalogue.create definition id (.table properties) with
    | error e =>
      rw [hd] at ho
      cases ho
    | ok d =>
      rw [hd] at ho
      have hadd : g.addNode d = .ok g' := by
        unfold Graph.addNode edited
        rw [show (Edit.addNode d).outcome g = (.ok (), g') from ho]
      obtain ⟨t, ht, hd⟩ := bind_ok hd
      cases hd
      exact addNode_ok hg hadd (Catalogue.require_ok (hg ▸ ht)) rfl

end Graph

namespace Built

theorem of_load {document : Value} {g : Graph}
    (h : Graph.load document Library.catalogue = .ok g) : ∀ n ∈ g.nodes, n.Typed := by
  intro n hn
  obtain ⟨document, rfl⟩ : ∃ table, document = .table table := by
    obtain ⟨table, htable, _⟩ := bind_ok h
    cases document <;> cases htable
    exact ⟨_, rfl⟩
  obtain ⟨_, _, _, _, hdescribed, _⟩ := Graph.load_reads h
  obtain ⟨v, _, hv⟩ := Graph.exists_of_forall₂ hdescribed hn
  exact hv.typed

theorem disconnect_ok {g g' : Graph} {c : Connection} (h : g.disconnect c = .ok g') :
    g.connections.any c.alike = true ∧ g' = Edit.parted c g := by
  have ho := Loaded.edited_ok h
  rw [Edit.outcome_disconnect] at ho
  split at ho
  · cases ho
    exact ⟨‹_›, rfl⟩
  · cases ho

end Built

/-! ## Reading what was saved -/

namespace Definition

theorem mem_keys_update {t changes : Table} {k : Key} (h : k ∈ (t.update changes).keys) :
    k ∈ t.keys ∨ k ∈ changes.keys := by
  induction changes generalizing t with
  | nil => exact .inl h
  | cons e rest ih =>
    rcases ih h with h | h
    · rcases Table.keys_insert t e.1 e.2 with hk | ⟨hk, _⟩
      · exact .inl (hk ▸ h)
      · rw [hk] at h
        rcases List.mem_append.mp h with h | h
        · exact .inl h
        · exact .inr (List.mem_singleton.mp h ▸ .head _)
    · exact .inr (.tail _ h)

theorem defaults_same (d : Definition) : ∀ e ∈ d.defaults, e.1.same e.1 = true := by
  intro e he
  rcases mem_keys_update (List.mem_map_of_mem he : e.1 ∈ d.defaults.keys) with hk | hk
  · cases hk
  · obtain ⟨f, hf, hk⟩ := List.mem_map.mp hk
    obtain ⟨p, _, rfl⟩ := List.mem_map.mp hf
    rw [← hk]
    simp

theorem defaults_distinct (d : Definition) : d.defaults.Distinct := Table.Distinct.update .nil _

end Definition

/-- A number, without the sign if it is zero. -/
def Binary64.unsigned (x : Binary64) : Binary64 := if x.isZero then .zero else x

namespace Node

/-- The node as it is read back. A coordinate that is zero has lost its sign. -/
def reread (n : Node) : Node :=
  { n with position := (n.position.1.unsigned, n.position.2.unsigned) }

theorem coordinate_saved (x : Binary64) :
    coordinate ((Value.float x).orElse (.int 0)) = .ok x.unsigned := by
  have hzero : Binary64.ofInt? 0 = some .zero := by decide
  unfold Value.orElse Binary64.unsigned
  by_cases h : x.isZero = true
  · simp [Value.truthy, h, coordinate, hzero]
  · simp [Value.truthy, h, coordinate]

theorem positionOf_saved (x y : Binary64) :
    positionOf (.object [("x", .float x), ("y", .float y)]) = .ok (x.unsigned, y.unsigned) := by
  simp only [positionOf, Value.object, List.map_cons, List.map_nil]
  show (do
    let x ← coordinate ((Value.float x).orElse (.int 0))
    let y ← coordinate ((Value.float y).orElse (.int 0))
    return (x, y)) = _
  rw [coordinate_saved, coordinate_saved]
  rfl

theorem lookup_optionalField (name : String) (v : Value) :
    ((Draft.optionalField name v).lookup name).getD .null = v := by
  unfold Draft.optionalField
  cases v with
  | null => rfl
  | omitted | bool | int | float | text | list | table => simp [Value.isNull]

theorem lookup_optionalField_ne {name other : String} (v : Value) (h : other ≠ name) :
    (Draft.optionalField name v).lookup other = none := by
  unfold Draft.optionalField
  split
  · rfl
  · simp [List.lookup_cons, beq_false_of_ne h]

theorem get?_fields (fields : List (String × Value)) (name : String) :
    Table.get? (fields.map fun f => (.text f.1, f.2)) name = fields.lookup name := by
  induction fields with
  | nil => rfl
  | cons f rest ih =>
    rw [Table.get?] at ih
    rw [Table.get?, List.map_cons, Table.find?, ih, List.lookup_cons]
    by_cases h : f.1 = name
    · simp [h]
    · simp [h, beq_false_of_ne (Ne.symm h)]

/-- The fields of a saved node. -/
theorem toValue_fields (n : Node) : ∃ raw : Table, n.toValue = .table raw ∧
    raw.get? "id" = some n.id.toValue ∧ raw.get? "definitionId" = some (.text n.definitionId) ∧
    raw.get "properties" = .table n.properties ∧
    raw.get "position" = .object [("x", .float n.position.1), ("y", .float n.position.2)] ∧
    raw.get "isEntryPoint" = n.isEntryPoint ∧ raw.get "eventName" = n.eventName := by
  refine ⟨_, rfl, rfl, rfl, rfl, rfl, ?_, ?_⟩
  · rw [Table.get, get?_fields]
    show ((Draft.optionalField "isEntryPoint" n.isEntryPoint ++
      Draft.optionalField "eventName" n.eventName).lookup "isEntryPoint").getD .null = _
    have hother : "isEntryPoint" ≠ "eventName" := by decide
    rw [List.lookup_append, lookup_optionalField_ne n.eventName hother, Option.or_none,
      lookup_optionalField]
  · rw [Table.get, get?_fields]
    show ((Draft.optionalField "isEntryPoint" n.isEntryPoint ++
      Draft.optionalField "eventName" n.eventName).lookup "eventName").getD .null = _
    rw [List.lookup_append, lookup_optionalField_ne n.isEntryPoint (by decide), Option.none_or,
      lookup_optionalField]

theorem Typed.describes {n : Node} (h : n.Typed) :
    Graph.Describes Library.catalogue n.toValue n.reread := by
  obtain ⟨t, entries, ht, hproperties⟩ := h
  have hrequire (v : Value) : Library.catalogue.require (.text n.definitionId) v = .ok t :=
    Graph.require_text_iff.mpr ht
  have hid : t.id = n.definitionId := by simpa using List.find?_some ht
  have hupdate : t.definition.defaults.update n.properties = n.properties := by
    rw [hproperties]
    exact Table.update_update t.definition.defaults_same t.definition.defaults_distinct entries
  obtain ⟨raw, hraw, hrawId, hdefinition, hproperties, hposition, hentry, hevent⟩ := n.toValue_fields
  refine ⟨n.reread.draft, t, ?_, hrequire _, by simp [draft, reread], by rw [hid]; rfl⟩
  simp only [Graph.readNode, Graph.asTable, hraw, hdefinition, Option.getD_some, hrequire, hproperties,
    Value.entries_table, Graph.requireField_of_get? hrawId, Graph.requireField_of_get? hdefinition,
    hposition, positionOf_saved, hentry, hevent, hupdate, bind, Except.bind]
  rfl

end Node

namespace Graph

theorem Replaced.alike {g g' : Graph} (h : Replaced g g') (hg : Loaded g) (hg' : Loaded g')
    (hc : g'.connections = g.connections) : Alike g g' where
  toReplaced := h
  incoming node pin := by
    refine Option.ext fun c => ?_
    rw [show g'.incoming? node pin = some c ↔ _ from hg'.incoming (placeOf node pin) c,
      show g.incoming? node pin = some c ↔ _ from hg.incoming (placeOf node pin) c, hc]
  outgoing node pin := by
    rw [show g'.outgoing node pin = _ from hg'.outgoing (placeOf node pin),
      show g.outgoing node pin = _ from hg.outgoing (placeOf node pin), hc]

theorem WellWired.of_replaced {g g' : Graph} (h : Replaced g g') {wires : List Wire}
    (hw : g.WellWired wires) : g'.WellWired wires := hw.of_pins h.findPin?

end Graph

end CartGraph
