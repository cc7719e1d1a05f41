import CartGraph.Proofs.Graph.WellWired

/-! # What a document is read as

A document whose entries can be read stands for a list of nodes and a list of wires. Loading it is
the same as joining the wires, one after the other, on a graph that has all the nodes
(`Graph.load_eq`). -/
namespace CartGraph.Graph

/-- A saved entry can be read, and describes a node of a type that is known. -/
def Describes (catalogue : Catalogue) (v : Value) (n : Node) : Prop :=
  ∃ d t, readNode catalogue v = .ok d ∧ catalogue.require d.definitionId d.id = .ok t ∧
    d.id.key = .ok n.id ∧ n = .ofDraft n.id t.id d

structure Names (raw : Table) (w : Wire) : Prop where
  sourceNode : raw.get? "fromNode" = some w.sourceNode
  sourcePin : raw.get? "fromPin" = some w.sourcePin
  targetNode : raw.get? "toNode" = some w.targetNode
  targetPin : raw.get? "toPin" = some w.targetPin

theorem requireField_of_get? {t : Table} {name : String} {v : Value} (h : t.get? name = some v) :
    requireField t name = .ok v := by
  rw [requireField, h]

theorem addNode_eq {g : Graph} {d : Draft} {t : NodeType} {id : Key}
    (ht : g.catalogue.require d.definitionId d.id = .ok t) (hid : d.id.key = .ok id)
    (hnew : g.hasNode id = false) :
    g.addNode d = .ok { g with nodes := g.nodes ++ [.ofDraft id t.id d] } := by
  simp only [Graph.addNode, edited, Edit.addNode, Edit.outcome_get_bind, Edit.outcome_lift_bind, ht,
    hid, hnew]
  rfl

theorem addSavedNode_eq {g : Graph} {v : Value} {n : Node} (h : Describes g.catalogue v n)
    (hnew : n.id.canonical ∉ g.ids) :
    g.addSavedNode v = .ok { g with nodes := g.nodes ++ [n] } := by
  obtain ⟨d, t, hd, ht, hid, hn⟩ := h
  have hfree : g.hasNode n.id = false := by
    rw [Bool.eq_false_iff, Ne, Loaded.hasNode_iff]
    exact hnew
  rw [addSavedNode, hd]
  exact (addNode_eq ht hid hfree).trans (by rw [← hn])

/-- Entries that describe nodes of different ids add these nodes. -/
theorem addSavedNodes_eq {catalogue : Catalogue} {values : List Value} {nodes : List Node}
    (h : List.Forall₂ (Describes catalogue) values nodes) {g : Graph}
    (hg : g.catalogue = catalogue)
    (hd : ((g.nodes ++ nodes).map fun n => n.id.canonical).Nodup) :
    values.foldlM addSavedNode g = .ok { g with nodes := g.nodes ++ nodes } := by
  induction h generalizing g with
  | nil => simp [pure, Except.pure]
  | @cons v n values nodes hv _ ih =>
    have hnew : n.id.canonical ∉ g.ids := by
      rw [List.map_append, List.nodup_append] at hd
      exact fun hm => hd.2.2 _ hm _ (.head _) rfl
    rw [List.foldlM_cons, addSavedNode_eq (hg ▸ hv) hnew]
    have := @ih { g with nodes := g.nodes ++ [n] } hg (by simpa using hd)
    simpa [bind, Except.bind] using this

theorem addSavedConnection_eq (g : Graph) {raw : Table} {w : Wire} (h : Names raw w) :
    g.addSavedConnection (.table raw) = g.join w := by
  simp only [addSavedConnection, asTable, requireField_of_get? h.sourceNode,
    requireField_of_get? h.sourcePin, requireField_of_get? h.targetNode,
    requireField_of_get? h.targetPin, bind, Except.bind]
  rfl

theorem addSavedConnections_eq {raws : List Table} {wires : List Wire}
    (h : List.Forall₂ Names raws wires) (g : Graph) :
    (raws.map Value.table).foldlM addSavedConnection g = wires.foldlM join g := by
  induction h generalizing g with
  | nil => rfl
  | cons hw _ ih =>
    simp only [List.map_cons, List.foldlM_cons, addSavedConnection_eq g hw]
    congr
    funext g'
    exact ih g'

theorem listField_of_list {t : Table} {name : String} {items : List Value}
    (h : t.get? name = some (.list items)) : listField t name = .ok items := by
  rw [listField, h]
  rfl

/-- Loading a document joins its wires on a graph of its nodes. -/
theorem load_eq {document : Table} {catalogue : Catalogue} {values : List Value} {raws : List Table}
    {nodes : List Node} {wires : List Wire}
    (hnodes : document.get? "nodes" = some (.list values))
    (hconnections : document.get? "connections" = some (.list (raws.map .table)))
    (hdescribed : List.Forall₂ (Describes catalogue) values nodes)
    (hdistinct : (nodes.map fun n => n.id.canonical).Nodup)
    (hnamed : List.Forall₂ Names raws wires) :
    load (.table document) catalogue = wires.foldlM join { catalogue, nodes } := by
  have hfold := addSavedNodes_eq hdescribed (g := empty catalogue) rfl hdistinct
  simp only [load, asTable, listField_of_list hnodes, listField_of_list hconnections, hfold, bind,
    Except.bind]
  exact addSavedConnections_eq hnamed _

/-! ## Documents that were loaded -/

theorem Describes.unique {catalogue : Catalogue} {v : Value} {n m : Node}
    (hn : Describes catalogue v n) (hm : Describes catalogue v m) : m = n := by
  obtain ⟨d, t, hd, ht, hid, hn⟩ := hn
  obtain ⟨d', t', hd', ht', hid', hm⟩ := hm
  cases hd.symm.trans hd'
  cases ht.symm.trans ht'
  rw [hn, hm, Except.ok.inj (hid.symm.trans hid')]

theorem Names.unique {raw : Table} {w v : Wire} (hw : Names raw w) (hv : Names raw v) : v = w := by
  have hkey {a b : Key} {o : Option Value} (ha : o = some a) (hb : o = some b) : b = a := by
    have heq := congrArg Key.ofValue? (Option.some.inj (ha.symm.trans hb))
    simpa using heq.symm
  obtain ⟨a, p, b, q⟩ := w
  obtain ⟨a', p', b', q'⟩ := v
  cases hkey hw.sourceNode hv.sourceNode
  cases hkey hw.sourcePin hv.sourcePin
  cases hkey hw.targetNode hv.targetNode
  cases hkey hw.targetPin hv.targetPin
  rfl

theorem addSavedNode_describes {g g' : Graph} {v : Value} (h : g.addSavedNode v = .ok g') :
    ∃ n, Describes g.catalogue v n ∧ g' = { g with nodes := g.nodes ++ [n] } := by
  obtain ⟨d, hd, h⟩ := bind_ok h
  rcases Edit.outcome_addNode d g with ⟨e, he⟩ | ⟨t, id, ht, hid, _, hn⟩
  · cases he.symm.trans (Loaded.edited_ok h)
  · cases hn.symm.trans (Loaded.edited_ok h)
    exact ⟨.ofDraft id t.id d, ⟨d, t, hd, ht, hid, rfl⟩, rfl⟩

theorem addSavedNodes_describe {values : List Value} {g g' : Graph}
    (h : values.foldlM addSavedNode g = .ok g') :
    ∃ nodes, List.Forall₂ (Describes g.catalogue) values nodes ∧
      g' = { g with nodes := g.nodes ++ nodes } := by
  induction values generalizing g with
  | nil =>
    cases h
    exact ⟨[], .nil, by simp⟩
  | cons v values ih =>
    rw [List.foldlM_cons] at h
    obtain ⟨g₁, h₁, h⟩ := bind_ok h
    obtain ⟨n, hn, rfl⟩ := addSavedNode_describes h₁
    obtain ⟨nodes, hnodes, rfl⟩ := ih h
    exact ⟨n :: nodes, .cons hn hnodes, by simp⟩

theorem eq_of_endNode {g : Graph} {v : Value} {id : Key} (h : g.endNode v = .ok id) :
    v = id := by
  obtain ⟨k, hk, h⟩ := bind_ok h
  split at h
  · cases h
    unfold Value.key at hk
    cases v <;> cases hk <;> rfl
  · cases h

theorem addSavedConnection_names {g g' : Graph} {v : Value} (h : g.addSavedConnection v = .ok g') :
    ∃ raw w, v = .table raw ∧ Names raw w ∧ g.join w = .ok g' := by
  obtain ⟨raw, hraw, h⟩ := bind_ok h
  have field {name : String} {a : Value} (ha : requireField raw name = .ok a) :
      raw.get? name = some a := by
    unfold requireField at ha
    split at ha
    · cases ha
      assumption
    · cases ha
  obtain ⟨a, ha, h⟩ := bind_ok h
  obtain ⟨p, hp, h⟩ := bind_ok h
  obtain ⟨b, hb, h⟩ := bind_ok h
  obtain ⟨q, hq, h⟩ := bind_ok h
  obtain ⟨c, hc, _⟩ := Loaded.connect_ok h
  obtain ⟨s, t, source, target, _, hs, ht, _, hsource, htarget, _⟩ := wire_steps hc
  cases eq_of_endNode hs
  cases eq_of_endNode ht
  cases findPin?_text hsource
  cases findPin?_text htarget
  refine ⟨raw, ⟨s, .text source.id, t, .text target.id⟩, ?_,
    ⟨field ha, field hp, field hb, field hq⟩, h⟩
  cases v <;> cases hraw
  rfl

theorem addSavedConnections_name {items : List Value} {g g' : Graph}
    (h : items.foldlM addSavedConnection g = .ok g') :
    ∃ raws wires, items = raws.map .table ∧ List.Forall₂ Names raws wires ∧
      wires.foldlM join g = .ok g' := by
  induction items generalizing g with
  | nil => exact ⟨[], [], rfl, .nil, h⟩
  | cons v items ih =>
    rw [List.foldlM_cons] at h
    obtain ⟨g₁, hfirst, hrest⟩ := bind_ok h
    obtain ⟨raw, w, rfl, hw, hjoin⟩ := addSavedConnection_names hfirst
    obtain ⟨raws, wires, rfl, hwires, hjoins⟩ := ih hrest
    refine ⟨raw :: raws, w :: wires, rfl, .cons hw hwires, ?_⟩
    rw [List.foldlM_cons, hjoin]
    exact hjoins

/-- A graph of nodes with different ids and no connections. -/
theorem Wired.start {nodes : List Node} (h : (nodes.map fun n => n.id.canonical).Nodup) :
    Wired { catalogue := Library.catalogue, nodes } [] { catalogue := Library.catalogue, nodes } where
  toLoaded := {
    toRepresented := Represented.empty.of_nodes nodes (by simp [Graph.empty])
    ids := h
    joins := by simp }
  same := rfl
  made := rfl

/-- The entries of a document describe the nodes and name the connections of the graph that it was
loaded as, in order. -/
theorem load_reads {document : Table} {g : Graph}
    (h : load (.table document) Library.catalogue = .ok g) :
    ∃ values raws, listField document "nodes" = .ok values ∧
      listField document "connections" = .ok (raws.map .table) ∧
      List.Forall₂ (Describes Library.catalogue) values g.nodes ∧
      List.Forall₂ Names raws (g.connections.map Connection.wire) := by
  have hloaded := Loaded.of_load h
  obtain ⟨table, htable, h⟩ := bind_ok h
  cases htable
  obtain ⟨values, hvalues, h⟩ := bind_ok h
  obtain ⟨g₁, h₁, h⟩ := bind_ok h
  obtain ⟨items, hitems, h⟩ := bind_ok h
  obtain ⟨nodes, hdescribed, rfl⟩ := addSavedNodes_describe h₁
  obtain ⟨raws, wires, rfl, hnamed, hjoins⟩ := addSavedConnections_name h
  have hsame : g.nodes = nodes := by
    refine foldlM_ok (P := fun g => g.nodes = nodes) (fun g w g' hg hj => ?_) wires _ g rfl hjoins
    obtain ⟨c, _, rfl⟩ := Loaded.connect_ok hj
    exact hg
  have hdistinct : (nodes.map fun n => n.id.canonical).Nodup := hsame ▸ hloaded.ids
  have hwired := (Wired.start hdistinct).of_joinAll hjoins
  refine ⟨values, raws, hvalues, hitems, ?_, ?_⟩
  · rw [hsame]
    exact hdescribed
  · rw [hwired.made]
    exact hnamed

theorem exists_of_forall₂ {R : α → β → Prop} {l : List α} {m : List β} (h : List.Forall₂ R l m)
    {b : β} (hb : b ∈ m) : ∃ a ∈ l, R a b := by
  induction h with
  | nil => cases hb
  | cons hr _ ih =>
    rcases List.mem_cons.mp hb with rfl | hb
    · exact ⟨_, .head _, hr⟩
    · obtain ⟨a, ha, hr⟩ := ih hb
      exact ⟨a, .tail _ ha, hr⟩

/-- Every node of a graph that was loaded is described by an entry of the document. -/
theorem describes_of_load {document : Table} {values : List Value} {g : Graph}
    (hnodes : document.get? "nodes" = some (.list values))
    (h : load (.table document) Library.catalogue = .ok g) :
    ∀ n ∈ g.nodes, ∃ v ∈ values, Describes Library.catalogue v n := by
  obtain ⟨values', _, hvalues, _, hdescribed, _⟩ := load_reads h
  cases (listField_of_list hnodes).symm.trans hvalues
  exact fun n hn => exists_of_forall₂ hdescribed hn

end CartGraph.Graph
