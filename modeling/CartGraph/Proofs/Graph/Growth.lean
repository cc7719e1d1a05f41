import CartGraph.Proofs.Emit.CallSites
import CartGraph.Proofs.Graph.WellWired

/-! # Graphs with more nodes

More nodes take nothing from those that were there: they are found as before, and a pin that was
found is found still (`Graph.Grows.findPin?`). They may bring the event that a call was waiting for,
which then has more inputs than before. -/
namespace CartGraph

theorem Library.arguments_outputs : ∀ t ∈ types, t.definition.derivedPins = .arguments →
    ∀ p ∈ t.definition.outputs, p.id = "exec_out" := by
  decide

namespace Graph

structure Grows (g g' : Graph) : Prop where
  catalogue : g'.catalogue = g.catalogue
  node? : ∀ {id m}, g.node? id = some m → g'.node? id = some m

/-- A call waits for its event: there is no node that it refers to. -/
def Awaits (g : Graph) (n : Node) : Prop :=
  ∃ id, ((n.properties.get "eventId").orElse (.text "")).key = .ok id ∧ g.node? id = none

namespace Grows

variable {g g' : Graph}

theorem addNode (g : Graph) (n : Node) : g.Grows { g with nodes := g.nodes ++ [n] } := by
  refine ⟨rfl, fun h => ?_⟩
  simp only [Graph.node?] at h ⊢
  rw [List.find?_append, h, Option.some_or]

/-- More nodes of different ids. -/
theorem of_nodes (hg : Loaded g) (hg' : Loaded g') (h : ∀ n ∈ g.nodes, n ∈ g'.nodes) :
    g.Grows g' := by
  refine ⟨hg'.catalogue.trans hg.catalogue.symm, fun {id m} hm => ?_⟩
  have hid := List.find?_some hm
  exact hg'.node?_of_mem (h m (List.mem_of_find?_eq_some hm)) (of_decide_eq_true hid)

theorem node (h : g.Grows g') {id : Key} (hn : g.hasNode id = true) : g'.node id = g.node id := by
  obtain ⟨m, hm⟩ := Option.isSome_iff_exists.mp hn
  rw [node_ok_iff.mpr hm, node_ok_iff.mpr (h.node? hm)]

theorem typeOf (h : g.Grows g') {id : Key} (hn : g.hasNode id = true) :
    g'.typeOf id = g.typeOf id := by
  rw [Graph.typeOf, Graph.typeOf, h.node hn, h.catalogue]

/-- A node derives the same pins as before, unless it is a call that was waiting for its event. -/
theorem derivedPins (h : g.Grows g') (d : Definition) (m : Node) :
    g'.derivedPins d m = g.derivedPins d m ∨
      d.derivedPins = .arguments ∧ g.Awaits m ∧ g.derivedPins d m = .ok [] ∧
        ∃ event, g'.derivedPins d m = .ok (Node.argumentPins event) := by
  by_cases hd : d.derivedPins = .arguments
  · rw [derivedPins_arguments hd, derivedPins_arguments hd]
    cases hid : ((m.properties.get "eventId").orElse (.text "")).key with
    | error e =>
      simp only [calledEvent?, hid]
      exact .inl rfl
    | ok id =>
      rw [calledEvent?_of_key hid, calledEvent?_of_key hid]
      cases hn : g.node? id with
      | some event =>
        rw [customEvent?, customEvent?, h.node? hn, hn]
        exact .inl rfl
      | none =>
        refine .inr ⟨hd, ⟨id, hid, hn⟩, ?_, g'.customEvent? id, rfl⟩
        rw [customEvent?, hn]
        rfl
  · refine .inl ?_
    unfold Graph.derivedPins
    cases hcase : d.derivedPins with
    | none | branches | parameters => rfl
    | arguments => exact absurd hcase hd

theorem pinsOf (h : g.Grows g') {node : Key} (hn : g.hasNode node = true) :
    g'.pinsOf node = g.pinsOf node ∨ ∃ t m, g.typeOf node = .ok t ∧ g.node? node = some m ∧
      t.definition.derivedPins = .arguments ∧ g.Awaits m := by
  unfold Graph.pinsOf
  rw [h.node hn, h.typeOf hn]
  cases ht : g.typeOf node with
  | error e => exact .inl rfl
  | ok t =>
    obtain ⟨m, hm, _⟩ := typeOf_ok_iff.mp ht
    rw [node_ok_iff.mpr hm]
    rcases h.derivedPins t.definition m with hsame | ⟨hd, hawaits, _⟩
    · refine .inl ?_
      simp only [bind, Except.bind, hsame]
    · exact .inr ⟨t, m, rfl, hm, hd, hawaits⟩

/-- A pin that is found is found still. -/
theorem findPin? (h : g.Grows g') (hg : Represented g) {node : Key} {pin : Value} {p : Pin}
    (hp : g.findPin? node pin = .ok (some p)) : g'.findPin? node pin = .ok (some p) := by
  have hpin := findPin?_text hp
  obtain ⟨ps, hps, hr⟩ := bind_ok hp
  obtain ⟨t, m, derived, ht, hm, hd, hin, hout⟩ := pinsOf_ok hps
  have hn : g.hasNode node = true := Option.isSome_of_eq_some hm
  have hr : (ps.inputs ++ ps.outputs).find? (fun q => q.id == p.id) = some p := by
    rw [hpin] at hr
    exact Except.ok.inj hr
  rw [hin, hout] at hr
  rcases h.derivedPins t.definition m with hsame | ⟨harguments, _, hnone, event, hd'⟩
  · simp only [Graph.findPin?, Graph.pinsOf, h.typeOf hn, ht, h.node hn, node_ok_iff.mpr hm, hsame,
      hd, bind, Except.bind, hpin]
    exact congrArg Except.ok hr
  simp only [Graph.findPin?, Graph.pinsOf, h.typeOf hn, ht, h.node hn, node_ok_iff.mpr hm, hd',
    bind, Except.bind, hpin]
  refine congrArg Except.ok ?_
  show (_ ++ _ : List Pin).find? (fun q => q.id == p.id) = some p
  cases hd.symm.trans hnone
  obtain ⟨hinputs, houtputs⟩ := Node.argumentPins_filter event
  simp only [hinputs, houtputs, List.filter_nil, List.append_nil, List.find?_append] at hr ⊢
  cases hi : t.definition.inputs.find? (fun q => q.id == p.id) with
  | some q =>
    rw [hi] at hr
    simpa using hr
  | none =>
    rw [hi, Option.none_or] at hr
    have hid := Library.arguments_outputs t (hg.type_mem ht) harguments p
      (List.mem_of_find?_eq_some hr)
    have hother : (Node.argumentPins event).find? (fun q => q.id == p.id) = none :=
      List.find?_eq_none.mpr fun q hq => by simpa [hid] using (Node.argumentPins_input hq).2
    rw [hother, Option.none_or, Option.none_or, hr]

theorem joins (h : g.Grows g') (hg : Represented g) {c : Connection} {source target : Pin}
    (hj : g.Joins c source target) : g'.Joins c source target :=
  ⟨hj.sourcePin, hj.targetPin, hj.kind, h.findPin? hg hj.foundSource, h.findPin? hg hj.foundTarget,
    hj.output, hj.input, hj.compatible⟩

end Grows

theorem Joins.of_pins {g g' : Graph} {c : Connection} {source target : Pin}
    (h : g.Joins c source target)
    (hpin : ∀ node pin, g'.findPin? node pin = g.findPin? node pin) : g'.Joins c source target :=
  ⟨h.sourcePin, h.targetPin, h.kind, (hpin _ _).trans h.foundSource,
    (hpin _ _).trans h.foundTarget, h.output, h.input, h.compatible⟩

/-- Connections with the same ends are the same if they join the same pins. -/
theorem Joins.eq_of_wire {g : Graph} {c d : Connection} {source target source' target' : Pin}
    (hc : g.Joins c source target) (hd : g.Joins d source' target') (hw : d.wire = c.wire) :
    d = c := by
  obtain ⟨a, p, b, q, kind⟩ := c
  obtain ⟨a', p', b', q', kind'⟩ := d
  cases hw
  cases (Key.text.inj (hc.sourcePin.symm.trans hd.sourcePin) ▸ hc.foundSource).symm.trans
    hd.foundSource
  cases (Key.text.inj (hc.targetPin.symm.trans hd.targetPin) ▸ hc.foundTarget).symm.trans
    hd.foundTarget
  cases hc.kind.trans hd.kind.symm
  rfl

end Graph

end CartGraph
