import CartGraph.Proofs.Graph.Loaded

/-! # Connections that can be made together

Connections are made one after the other, and each is checked against the pins of its nodes and
against the connections that were made before it. Whether all of them can be made is a property of
the list of their ends alone (`Graph.WellWired`): the checks of the single steps together are as
strong as it, and no stronger. -/
namespace CartGraph

structure Wire where
  sourceNode : Key
  sourcePin : Key
  targetNode : Key
  targetPin : Key
  deriving DecidableEq

namespace Wire

def source (w : Wire) : Place := placeOf w.sourceNode w.sourcePin

def target (w : Wire) : Place := placeOf w.targetNode w.targetPin

end Wire

def Graph.join (g : Graph) (w : Wire) : Except Error Graph :=
  g.connect w.sourceNode w.sourcePin w.targetNode w.targetPin

def Connection.wire (c : Connection) : Wire :=
  ⟨c.sourceNode, c.sourcePin, c.targetNode, c.targetPin⟩

namespace Graph

/-- A wire runs between two nodes, from an output to an input of compatible kinds. -/
structure Fits (g : Graph) (w : Wire) (source target : Pin) : Prop where
  apart : w.sourceNode.canonical ≠ w.targetNode.canonical
  foundSource : g.findPin? w.sourceNode w.sourcePin = .ok (some source)
  foundTarget : g.findPin? w.targetNode w.targetPin = .ok (some target)
  output : source.direction = .output
  input : target.direction = .input
  compatible : source.kind.compatible target.kind = true

/-- Every wire fits, an input takes one wire, and so does an exec output. -/
structure WellWired (g : Graph) (wires : List Wire) : Prop where
  fits : ∀ w ∈ wires, ∃ source target, g.Fits w source target
  inputs : wires.Pairwise fun w v => w.target ≠ v.target
  execs : wires.Pairwise fun w v => w.source = v.source →
    ∀ p, g.findPin? w.sourceNode w.sourcePin = .ok (some p) → p.isExec = false

def Readable (g : Graph) : Prop := ∀ id, g.hasNode id = true → ∃ ps, g.pinsOf id = .ok ps

/-! ## Pins do not depend on connections -/

theorem hasNode_of_nodes {g g' : Graph} (hn : g'.nodes = g.nodes) (id : Key) :
    g'.hasNode id = g.hasNode id := by
  rw [hasNode, hasNode, node?, node?, hn]

theorem pinsOf_of_node? {g g' : Graph} (hn : ∀ id, g'.node? id = g.node? id)
    (hc : g'.catalogue = g.catalogue) (node : Key) : g'.pinsOf node = g.pinsOf node := by
  simp only [pinsOf, typeOf, Graph.node, derivedPins, calledEvent?, hn, hc]

theorem pinsOf_of_nodes {g g' : Graph} (hn : g'.nodes = g.nodes)
    (hc : g'.catalogue = g.catalogue) (node : Key) : g'.pinsOf node = g.pinsOf node :=
  pinsOf_of_node? (fun id => by rw [node?, node?, hn]) hc node

theorem findPin?_of_nodes {g g' : Graph} (hn : g'.nodes = g.nodes)
    (hc : g'.catalogue = g.catalogue) (node : Key) (pin : Value) :
    g'.findPin? node pin = g.findPin? node pin := by
  rw [findPin?, findPin?, pinsOf_of_nodes hn hc]

theorem Readable.of_nodes {g g' : Graph} (h : g.Readable) (hn : g'.nodes = g.nodes)
    (hc : g'.catalogue = g.catalogue) : g'.Readable := by
  intro id hid
  rw [pinsOf_of_nodes hn hc]
  exact h id (by rwa [hasNode_of_nodes hn] at hid)

theorem Fits.of_pins {g g' : Graph} {w : Wire} {source target : Pin} (h : g.Fits w source target)
    (hpin : ∀ node pin, g'.findPin? node pin = g.findPin? node pin) :
    g'.Fits w source target where
  apart := h.apart
  foundSource := (hpin _ _).trans h.foundSource
  foundTarget := (hpin _ _).trans h.foundTarget
  output := h.output
  input := h.input
  compatible := h.compatible

theorem Joins.fits {g : Graph} {c : Connection} {source target : Pin} (h : g.Joins c source target)
    (hne : c.sourceNode.canonical ≠ c.targetNode.canonical) : g.Fits c.wire source target where
  apart := hne
  foundSource := by
    rw [Connection.wire, h.sourcePin]
    exact h.foundSource
  foundTarget := by
    rw [Connection.wire, h.targetPin]
    exact h.foundTarget
  output := h.output
  input := h.input
  compatible := h.compatible

/-! ## One wire -/

theorem hasNode_of_findPin? {g : Graph} {node : Key} {pin : Value} {r : Option Pin}
    (h : g.findPin? node pin = .ok r) : g.hasNode node = true := by
  obtain ⟨ps, hps, _⟩ := bind_ok h
  obtain ⟨_, n, _, _, hn, _⟩ := pinsOf_ok hps
  exact Option.isSome_iff_exists.mpr ⟨n, hn⟩

theorem endNode_of_hasNode {g : Graph} {node : Key} (h : g.hasNode node = true) :
    g.endNode node = .ok node := by
  simp [endNode, h, bind, Except.bind, pure, Except.pure]

theorem Fits.sourcePin {g : Graph} {w : Wire} {source target : Pin} (h : g.Fits w source target) :
    w.sourcePin = .text source.id := by
  have := findPin?_text h.foundSource
  cases hp : w.sourcePin <;> rw [hp] at this <;> cases this
  rfl

theorem Fits.targetPin {g : Graph} {w : Wire} {source target : Pin} (h : g.Fits w source target) :
    w.targetPin = .text target.id := by
  have := findPin?_text h.foundTarget
  cases hp : w.targetPin <;> rw [hp] at this <;> cases this
  rfl

/-- A wire that fits can be made if its pins are free. -/
theorem Fits.wire {g : Graph} {w : Wire} {source target : Pin} (h : g.Fits w source target)
    (hin : g.incoming? w.targetNode w.targetPin = none)
    (hout : source.isExec = true → g.outgoing w.sourceNode w.sourcePin = []) :
    g.wire w.sourceNode w.sourcePin w.targetNode w.targetPin =
      .ok (joining w.sourceNode source w.targetNode target) := by
  have hs := endNode_of_hasNode (hasNode_of_findPin? h.foundSource)
  have ht := endNode_of_hasNode (hasNode_of_findPin? h.foundTarget)
  have hne : w.sourceNode.alike w.targetNode = false := by
    rw [Bool.eq_false_iff, Ne, Key.alike_iff]
    exact h.apart
  have hpins : pinsFault? source target (joining w.sourceNode source w.targetNode target) = none := by
    simp [pinsFault?, h.output, h.input, h.compatible]
  have hfree : g.occupiedFault? source (joining w.sourceNode source w.targetNode target) = none := by
    rw [h.targetPin] at hin
    rw [h.sourcePin] at hout
    unfold occupiedFault?
    rw [show g.incoming? (joining w.sourceNode source w.targetNode target).targetNode
      (joining w.sourceNode source w.targetNode target).targetPin = none from hin]
    by_cases hx : source.isExec = true
    · simp [hx, joining, hout hx]
    · simp [hx]
  simp only [Graph.wire, hs, ht, hne, h.foundSource, h.foundTarget, bind, Except.bind, hpins, hfree,
    Option.none_or]
  rfl

/-- A connection has the ends that were asked for. -/
theorem wire_ends {g : Graph} {w : Wire} {c : Connection}
    (h : g.wire w.sourceNode w.sourcePin w.targetNode w.targetPin = .ok c) : c.wire = w := by
  have hend {k id : Key} (he : g.endNode k = .ok id) : id = k := by
    obtain ⟨k', hk, he⟩ := bind_ok he
    rw [Value.key_toValue] at hk
    cases hk
    split at he
    · exact (Except.ok.inj he).symm
    · cases he
  have hpin {node k : Key} {p : Pin} (hp : g.findPin? node k = .ok (some p)) : Key.text p.id = k := by
    have hk := congrArg Key.ofValue? (findPin?_text hp)
    rw [Key.ofValue?_toValue] at hk
    exact (Option.some.inj hk).symm
  obtain ⟨s, t, source, target, rfl, hs, ht, _, hsp, htp, _⟩ := wire_steps h
  show (⟨s, .text source.id, t, .text target.id⟩ : Wire) = w
  rw [hend hs, hend ht, hpin hsp, hpin htp]

theorem join_of_wire {g : Graph} {w : Wire} {c : Connection}
    (h : g.wire w.sourceNode w.sourcePin w.targetNode w.targetPin = .ok c) :
    g.join w = .ok (Edit.joined c g) := by
  simp only [join, Graph.connect, edited, Edit.connect, Edit.outcome_get_bind,
    Edit.outcome_lift_bind, h]
  rfl

theorem findPin?_congr {g : Graph} {a b : Key} (h : a.canonical = b.canonical) {pin : Value}
    {r : Option Pin} (hf : g.findPin? a pin = .ok r) : g.findPin? b pin = .ok r := by
  obtain ⟨ps, hps, hr⟩ := bind_ok hf
  obtain ⟨t, ht, hps⟩ := bind_ok hps
  obtain ⟨n, hn, hps⟩ := bind_ok hps
  have ht' := (typeOf_congr h).mp ht
  have hn' : g.node b = .ok n := by rwa [node_ok_iff, ← node?_congr h, ← node_ok_iff]
  simp only [findPin?, pinsOf, ht', hn']
  exact (congrArg (· >>= fun ps : PinSet => pure (ps.find? pin)) hps).trans hr

/-- One place is one pin. -/
theorem Fits.source_eq {g : Graph} {w v : Wire} {source target source' target' : Pin}
    (hw : g.Fits w source target) (hv : g.Fits v source' target') (h : v.source = w.source) :
    source' = source := by
  obtain ⟨hnode, hpin⟩ := Prod.mk.inj h
  have hpin : v.sourcePin = w.sourcePin := by
    rw [hv.sourcePin, hw.sourcePin] at hpin ⊢
    exact hpin
  have hfound := findPin?_congr hnode.symm hw.foundSource
  rw [← hpin] at hfound
  cases hfound.symm.trans hv.foundSource
  rfl

/-! ## One wire after the other -/

theorem WellWired.of_pins {g g' : Graph} {wires : List Wire} (h : g.WellWired wires)
    (hpin : ∀ node pin, g'.findPin? node pin = g.findPin? node pin) : g'.WellWired wires where
  fits w hm := by
    obtain ⟨source, target, hf⟩ := h.fits w hm
    exact ⟨source, target, hf.of_pins hpin⟩
  inputs := h.inputs
  execs := h.execs.imp fun hx hs p hp => hx hs p ((hpin _ _).symm.trans hp)

theorem WellWired.left {g : Graph} {old new : List Wire} (h : g.WellWired (old ++ new)) :
    g.WellWired old where
  fits w hw := h.fits w (List.mem_append_left _ hw)
  inputs := (List.pairwise_append.mp h.inputs).1
  execs := (List.pairwise_append.mp h.execs).1

/-- The graph has the nodes of another and connections along the given wires. -/
structure Wired (base : Graph) (wires : List Wire) (g : Graph) : Prop extends Loaded g where
  same : g.nodes = base.nodes
  made : g.connections.map Connection.wire = wires

end Graph

/-- The connections of a graph, as they are, could be made together. -/
theorem Loaded.wellWired {g : Graph} (h : Loaded g) :
    g.WellWired (g.connections.map Connection.wire) where
  fits w hw := by
    obtain ⟨c, hc, rfl⟩ := List.mem_map.mp hw
    obtain ⟨source, target, hj⟩ := h.joins c hc
    exact ⟨source, target, hj.fits (h.ends c hc).2.2⟩
  inputs := List.pairwise_map.mpr h.targets
  execs := by
    refine List.pairwise_map.mpr (h.targets.imp_of_mem fun {c d} hc hd hne hs p hp => ?_)
    by_contra hx
    obtain ⟨source, target, hj⟩ := h.joins c hc
    have hfound := (hj.fits (h.ends c hc).2.2).foundSource
    cases hfound.symm.trans hp
    have hexec : c.isExec = true := hj.isExec_source.trans (by simpa using hx)
    exact hne (congrArg Connection.target (h.alone c hc hexec d hd hs.symm)).symm

namespace Graph.Wired

variable {base g : Graph} {old : List Wire} {w : Wire}

theorem wellWired (h : Wired base old g) (hb : base.catalogue = Library.catalogue) :
    base.WellWired old := by
  have hw := h.toLoaded.wellWired
  rw [h.made] at hw
  exact hw.of_pins (findPin?_of_nodes h.same.symm (hb.trans h.catalogue.symm))

/-- A connection that is made is made along its wire. -/
theorem of_join {g' : Graph} (h : Wired base old g) (hj : g.join w = .ok g') :
    Wired base (old ++ [w]) g' := by
  obtain ⟨c, hc, rfl⟩ := Loaded.connect_ok hj
  refine ⟨h.toLoaded.joined hc, h.same, ?_⟩
  show (g.connections ++ [c]).map Connection.wire = old ++ [w]
  rw [List.map_append, h.made, List.map_singleton, wire_ends hc]

/-- A wire that goes well with those before it can be made after them. -/
theorem join (h : Wired base old g) (hb : base.catalogue = Library.catalogue)
    (hw : base.WellWired (old ++ [w])) : ∃ g', g.join w = .ok g' ∧ Wired base (old ++ [w]) g' := by
  obtain ⟨source, target, hfits⟩ := hw.fits w (List.mem_append_right _ (.head _))
  have hpin := findPin?_of_nodes h.same (h.catalogue.trans hb.symm)
  have hfits : g.Fits w source target := hfits.of_pins hpin
  have hinputs := (List.pairwise_append.mp hw.inputs).2.2
  have hexecs := (List.pairwise_append.mp hw.execs).2.2
  have hmem {c : Connection} (hc : c ∈ g.connections) : c.wire ∈ old :=
    h.made ▸ List.mem_map.mpr ⟨c, hc, rfl⟩
  have hin : g.incoming? w.targetNode w.targetPin = none := by
    refine Option.eq_none_iff_forall_ne_some.mpr fun c hc => ?_
    obtain ⟨hc, ht⟩ := (h.incoming _ c).mp hc
    exact hinputs c.wire (hmem hc) w (.head _) ht
  have hout : source.isExec = true → g.outgoing w.sourceNode w.sourcePin = [] := by
    intro hx
    refine List.eq_nil_iff_forall_not_mem.mpr fun c hc => ?_
    obtain ⟨hc, hs⟩ := h.mem_outgoing.mp hc
    -- what was found for the earlier connection is this source
    obtain ⟨source', target', hj⟩ := h.joins c hc
    have hfits' := hj.fits (h.ends c hc).2.2
    cases hfits.source_eq hfits' hs
    have hfound := hfits'.foundSource
    rw [hpin] at hfound
    have := hexecs c.wire (hmem hc) w (.head _) hs source hfound
    rw [hx] at this
    cases this
  refine ⟨_, join_of_wire (hfits.wire hin hout), ?_⟩
  exact h.of_join (join_of_wire (hfits.wire hin hout))

theorem joinAll (h : Wired base old g) (hb : base.catalogue = Library.catalogue)
    {new : List Wire} (hw : base.WellWired (old ++ new)) :
    ∃ g', new.foldlM Graph.join g = .ok g' ∧ Wired base (old ++ new) g' := by
  induction new generalizing old g with
  | nil => exact ⟨g, rfl, by simpa using h⟩
  | cons w rest ih =>
    rw [← List.singleton_append, ← List.append_assoc] at hw ⊢
    obtain ⟨g₁, hj, h₁⟩ := h.join hb hw.left
    obtain ⟨g', hrest, h'⟩ := ih h₁ hw
    refine ⟨g', ?_, h'⟩
    rw [List.singleton_append, List.foldlM_cons, hj]
    exact hrest

theorem of_joinAll (h : Wired base old g) {new : List Wire} {g' : Graph}
    (hj : new.foldlM Graph.join g = .ok g') : Wired base (old ++ new) g' := by
  induction new generalizing old g with
  | nil =>
    cases hj
    simpa using h
  | cons w rest ih =>
    rw [List.foldlM_cons] at hj
    obtain ⟨g₁, h₁, hj⟩ := bind_ok hj
    have := ih (h.of_join h₁) hj
    rwa [List.append_assoc, List.singleton_append] at this

end Graph.Wired

end CartGraph
