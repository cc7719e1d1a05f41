import CartGraph.Proofs.Graph.RoundTrip

/-! # What is left when a node is removed

A node takes the connections that touch it along. A call takes its inputs from an event, so the
arguments of the call vanish with the event, and what enters them is left behind. Nothing else can
come loose: the pins of all other nodes, and the exec pins of calls, depend on their own node
only (`Graph.findPin?_kept`). -/
namespace CartGraph

theorem Library.find?_callCustomEvent :
    catalogue.find? callCustomEvent.id = some callCustomEvent := rfl

namespace Graph

variable {g g' : Graph}

/-- A connection runs from an output to an input of compatible kinds. -/
def Fitting (g : Graph) (c : Connection) : Prop := ∃ source target, g.Fits c.wire source target

/-- A connection enters an argument of a call, which refers to a custom event or to nothing. -/
def Passes (g : Graph) (c : Connection) (event : Option Node) : Prop :=
  ∃ n p, g.node? c.targetNode = some n ∧ n.definitionId = Library.callCustomEvent.id ∧
    g.calledEvent? n = .ok event ∧ c.targetPin = .text (Parameter.inputPin p)

/-! ## Pins that stay -/

/-- Whether a call refers to something that can be an event is told by the call alone. -/
theorem calledEvent?_kept {n : Node} {event : Option Node} (h : g.calledEvent? n = .ok event) :
    ∃ id, ((n.properties.get "eventId").orElse (.text "")).key = .ok id ∧
      event = g.customEvent? id ∧ ∀ g' : Graph, g'.calledEvent? n = .ok (g'.customEvent? id) := by
  obtain ⟨id, hid, hevent⟩ := bind_ok h
  exact ⟨id, hid, (Except.ok.inj hevent).symm, fun g' => calledEvent?_of_key hid⟩

theorem findPin?_call_exec {call : Key} {n : Node} {event : Option Node}
    (ht : g.typeOf call = .ok Library.callCustomEvent) (hn : g.node? call = some n)
    (hc : g.calledEvent? n = .ok event) {p : Pin} (hp : p = .execIn ∨ p = .execOut) :
    g.findPin? call (.text p.id) = .ok (some p) := by
  rw [findPin?, pinsOf_call ht hn hc]
  rcases hp with rfl | rfl
  · rfl
  · have hin : (Pin.execIn.id == Pin.execOut.id) = false := by decide
    have hother : (Node.argumentPins event).find? (fun q => q.id == Pin.execOut.id) = none :=
      List.find?_eq_none.mpr fun q hq => by
        simpa [Pin.execOut] using (Node.argumentPins_input hq).2
    change Except.ok _ = _
    simp [PinSet.find?, PinSet.all, hin, hother]

/-- A pin that is found on a node is found as long as the node stays, or it is an argument of a
call. -/
theorem findPin?_kept (hg : Represented g) (hg' : Represented g') {node : Key}
    (hnode : g'.node? node = g.node? node) {pin : Value} {p : Pin}
    (h : g.findPin? node pin = .ok (some p)) :
    g'.findPin? node pin = .ok (some p) ∨
      ∃ n event, g.node? node = some n ∧ n.definitionId = Library.callCustomEvent.id ∧
        g.calledEvent? n = .ok event ∧ p ∈ Node.argumentPins event := by
  obtain ⟨ps, hps, hfind⟩ := bind_ok h
  obtain ⟨t, n, derived, ht, hn, hd, hin, hout⟩ := pinsOf_ok hps
  have hcatalogue := hg'.catalogue.trans hg.catalogue.symm
  have htype : g'.typeOf node = g.typeOf node := by
    rw [typeOf, typeOf, Graph.node, Graph.node, hnode, hcatalogue]
  by_cases harguments : t.definition.derivedPins = .arguments
  · have hmem := hg.type_mem ht
    cases Library.callEvent_type hmem ((Library.arguments_iff t hmem).mp harguments)
    rw [derivedPins_arguments rfl] at hd
    obtain ⟨event, hevent, rfl⟩ := map_ok hd
    have hid : n.definitionId = Library.callCustomEvent.id := by
      obtain ⟨n', hn', hfind⟩ := typeOf_ok_iff.mp ht
      cases hn.symm.trans hn'
      have := List.find?_some hfind
      exact (eq_of_beq this).symm
    cases (pinsOf_call ht hn hevent).symm.trans hps
    obtain ⟨_, _, _, hkept⟩ := calledEvent?_kept hevent
    have hexec (hp : p = .execIn ∨ p = .execOut) : g'.findPin? node pin = .ok (some p) := by
      rw [findPin?_text h]
      exact findPin?_call_exec (htype.trans ht) (hnode.trans hn) (hkept g') hp
    obtain ⟨_, hps', hp⟩ := findPin?_mem h
    cases hps.symm.trans hps'
    rcases hp with hp | hp
    · rcases List.mem_cons.mp hp with hp | hp
      · exact .inl (hexec (.inl hp))
      · exact .inr ⟨n, event, hn, hid, hevent, hp⟩
    · exact .inl (hexec (.inr (List.mem_singleton.mp hp)))
  · have hsame : g'.derivedPins t.definition n = g.derivedPins t.definition n := by
      unfold derivedPins
      cases hcase : t.definition.derivedPins with
      | none | branches | parameters => rfl
      | arguments => exact absurd hcase harguments
    left
    have hpins : g'.pinsOf node = g.pinsOf node := by
      unfold pinsOf
      rw [htype, ht, Graph.node, Graph.node, hnode, hn]
      show g'.derivedPins t.definition n >>= _ = g.derivedPins t.definition n >>= _
      rw [hsame]
    rw [findPin?, hpins, ← findPin?, h]

/-- Outputs are no arguments. -/
theorem output_kept (hg : Represented g) (hg' : Represented g') {node : Key}
    (hnode : g'.node? node = g.node? node) {pin : Value} {p : Pin}
    (h : g.findPin? node pin = .ok (some p)) (ho : p.direction = .output) :
    g'.findPin? node pin = .ok (some p) := by
  rcases findPin?_kept hg hg' hnode h with hkept | ⟨_, _, _, _, _, hp⟩
  · exact hkept
  · cases ho.symm.trans (Node.argumentPins_input hp).1

/-! ## Connections that stay -/

/-- The output of a connection is there, and so is its input, or it is an argument of a call. -/
structure Held (g : Graph) (c : Connection) : Prop where
  source : ∃ p, g.findPin? c.sourceNode c.sourcePin = .ok (some p) ∧ p.direction = .output
  target : g.Fitting c ∨ ∃ event, g.Passes c event

variable {c : Connection}

structure SameEnds (g g' : Graph) (c : Connection) : Prop where
  source : g'.node? c.sourceNode = g.node? c.sourceNode
  target : g'.node? c.targetNode = g.node? c.targetNode

theorem Passes.kept (h : SameEnds g g' c) {event : Option Node} (hp : g.Passes c event) :
    ∃ id, event = g.customEvent? id ∧ g'.Passes c (g'.customEvent? id) := by
  obtain ⟨n, p, hn, hid, hevent, hpin⟩ := hp
  obtain ⟨id, _, hfound, hkept⟩ := calledEvent?_kept hevent
  exact ⟨id, hfound, n, p, h.target.trans hn, hid, hkept g', hpin⟩

/-- A connection that fits goes on fitting while its nodes stay, unless it enters an argument. -/
theorem Fitting.kept (hg : Represented g) (hg' : Represented g') (h : SameEnds g g' c)
    (hf : g.Fitting c) : g'.Fitting c ∨ ∃ event, g.Passes c event := by
  obtain ⟨source, target, hf⟩ := hf
  have hsource := output_kept hg hg' h.source hf.foundSource hf.output
  rcases findPin?_kept hg hg' h.target hf.foundTarget with hkept | ⟨n, event, hn, hid, hevent, hp⟩
  · exact .inl ⟨source, target, hf.apart, hsource, hkept, hf.output, hf.input, hf.compatible⟩
  · right
    cases event with
    | none => cases hp
    | some e =>
      obtain ⟨p, _, rfl⟩ := List.mem_map.mp hp
      exact ⟨some e, n, p, hn, hid, hevent, hf.targetPin⟩

theorem Held.kept (hg : Represented g) (hg' : Represented g') (h : SameEnds g g' c)
    (hc : g.Held c) : g'.Held c where
  source := by
    obtain ⟨p, hp, hout⟩ := hc.source
    exact ⟨p, output_kept hg hg' h.source hp hout, hout⟩
  target := by
    have hpasses {event : Option Node} (hp : g.Passes c event) : ∃ event, g'.Passes c event := by
      obtain ⟨id, _, hp'⟩ := hp.kept h
      exact ⟨_, hp'⟩
    rcases hc.target with hf | ⟨event, hp⟩
    · rcases hf.kept hg hg' h with hf' | ⟨event, hp⟩
      · exact .inl hf'
      · exact .inr (hpasses hp)
    · exact .inr (hpasses hp)

theorem Fitting.grown (hg : Represented g) (h : g.Grows g') (hf : g.Fitting c) : g'.Fitting c := by
  obtain ⟨source, target, hf⟩ := hf
  exact ⟨source, target, hf.apart, h.findPin? hg hf.foundSource, h.findPin? hg hf.foundTarget,
    hf.output, hf.input, hf.compatible⟩

/-- The input of an argument is looked for among those that the event gives. -/
theorem Passes.findPin?_eq (hg : Represented g) {event : Option Node} (hp : g.Passes c event) :
    ∃ pin, c.targetPin = .text pin ∧ g.findPin? c.targetNode c.targetPin =
      .ok ((Node.argumentPins event).find? fun q => q.id == pin) := by
  obtain ⟨n, p, hn, hid, hevent, hpin⟩ := hp
  have ht : g.typeOf c.targetNode = .ok Library.callCustomEvent :=
    typeOf_ok_iff.mpr ⟨n, hn, by rw [hg.catalogue, hid, Library.find?_callCustomEvent]⟩
  refine ⟨p.inputPin, hpin, ?_⟩
  rw [hpin]
  exact findPin?_call ht hn hevent p

/-- A connection to an argument fits on if the call refers to the same event. -/
theorem Fitting.of_event (hg : Represented g) (hg' : Represented g') (h : SameEnds g g' c)
    {event : Option Node} (hp : g.Passes c event) (hp' : g'.Passes c event)
    (hf : g.Fitting c) : g'.Fitting c := by
  obtain ⟨source, target, hf⟩ := hf
  have hsource := output_kept hg hg' h.source hf.foundSource hf.output
  have htarget : g'.findPin? c.targetNode c.targetPin = .ok (some target) := by
    obtain ⟨pin, hpin, hfound⟩ := hp.findPin?_eq hg
    obtain ⟨pin', hpin', hfound'⟩ := hp'.findPin?_eq hg'
    cases hpin.symm.trans hpin'
    exact (hfound'.trans hfound.symm).trans hf.foundTarget
  exact ⟨source, target, hf.apart, hsource, htarget, hf.output, hf.input, hf.compatible⟩

/-- A call that refers to no event has no arguments. -/
theorem Passes.not_fitting (hg : Represented g) (hp : g.Passes c none) : ¬g.Fitting c := by
  rintro ⟨source, target, hf⟩
  obtain ⟨pin, _, hfound⟩ := hp.findPin?_eq hg
  cases hfound.symm.trans hf.foundTarget

/-! ## Removing a node -/

structure Removed (g : Graph) (id : Key) (g' : Graph) : Prop where
  represented : Represented g'
  nodes : g'.nodes = g.nodes.filter fun n => !n.id.alike id
  connections : g'.connections = g.connections.filter fun c => !c.touches id

theorem removeNode_ok (hg : Represented g) {id : Key} (h : g.removeNode id = .ok g') :
    g.Removed id g' := by
  have ho := Loaded.edited_ok h
  have hrep : Represented g' := by
    rcases hg.outcome_removeNode id with ⟨e, he⟩ | ⟨g₁, h₁, hrep⟩
    · cases he.symm.trans ho
    · cases h₁.symm.trans ho
      exact hrep
  have hn : g.hasNode id = true := by
    cases hn : g.hasNode id with
    | true => rfl
    | false =>
      simp only [Edit.removeNode, Edit.outcome_get_bind] at ho
      simp [hn] at ho
  obtain ⟨g₁, hrun, _, hnodes, hleft⟩ := hg.disconnectAll
    (fun c hc => (List.mem_filter.mp hc).1)
    (hg.targets.sublist (List.filter_sublist (p := fun c : Connection => c.touches id)))
  have hmade : Edit.outcome (Edit.removeNode id) g =
      (.ok (), { g₁ with nodes := g₁.nodes.filter fun n => !n.id.alike id }) := by
    simp only [Edit.removeNode, Edit.outcome_get_bind]
    simp [hn, Edit.outcome_bind, hrun]
  cases hmade.symm.trans ho
  refine ⟨hrep, by rw [← hnodes], ?_⟩
  rw [show g₁.connections = _ from hleft]
  refine List.filter_congr fun d hd => ?_
  -- no other connection enters the same input, so only what touches the node is taken
  rw [Bool.eq_iff_iff, List.all_eq_true, Bool.not_eq_true']
  constructor
  · intro hall
    by_contra ht
    have htouch : d ∈ g.connections.filter fun c => c.touches id :=
      List.mem_filter.mpr ⟨hd, by simpa using ht⟩
    exact absurd rfl (of_decide_eq_true (hall d htouch))
  · intro ht e he
    obtain ⟨he, htouch⟩ := List.mem_filter.mp he
    refine decide_eq_true fun htarget => ?_
    cases hg.eq_of_target hd he htarget
    exact absurd (ht.symm.trans htouch) (by decide)

theorem customEvent?_id {id : Key} {event : Node} (h : g.customEvent? id = some event) :
    event.id.canonical = id.canonical := by
  obtain ⟨hfound, _⟩ := Option.filter_eq_some_iff.mp h
  have hid := List.find?_some hfound
  exact of_decide_eq_true hid

namespace Removed

variable {id : Key} (h : g.Removed id g')

include h

/-- The other nodes are found as before. -/
theorem node?_of_ne {k : Key} (hk : k.canonical ≠ id.canonical) : g'.node? k = g.node? k := by
  unfold node?
  rw [h.nodes, List.find?_filter]
  congr 1
  funext m
  by_cases hm : m.id.canonical = k.canonical
  · simp [Key.alike, hm, hk]
  · simp [Key.alike, hm]

theorem node?_self {k : Key} (hk : k.canonical = id.canonical) : g'.node? k = none := by
  unfold node?
  rw [h.nodes, List.find?_filter]
  refine List.find?_eq_none.mpr fun m _ => ?_
  simp [Key.alike, hk]

theorem mem_connections : c ∈ g'.connections ↔ c ∈ g.connections ∧ c.touches id = false := by
  simp [h.connections]

theorem sameEnds (hc : c ∈ g'.connections) : SameEnds g g' c := by
  have htouches := (h.mem_connections.mp hc).2
  rw [Bool.eq_false_iff, Ne, Connection.touches_iff, not_or] at htouches
  exact ⟨h.node?_of_ne htouches.1, h.node?_of_ne htouches.2⟩

/-- What fits goes on fitting if and only if it enters no argument of a call of the node. -/
theorem fitting_iff (hg : Represented g) (hc : c ∈ g'.connections) (hf : g.Fitting c) :
    g'.Fitting c ↔ ∀ event, g.Passes c (some event) → event.id.canonical ≠ id.canonical := by
  have hends := h.sameEnds hc
  constructor
  · intro hf' event hp hid
    obtain ⟨k, hevent, hp'⟩ := hp.kept hends
    have hk : k.canonical = id.canonical := (customEvent?_id hevent.symm).symm.trans hid
    rw [customEvent?, h.node?_self hk] at hp'
    exact hp'.not_fitting h.represented hf'
  · intro hother
    rcases hf.kept hg h.represented hends with hf' | ⟨event, hp⟩
    · exact hf'
    · cases event with
      | none => exact absurd hf (hp.not_fitting hg)
      | some event =>
        obtain ⟨k, hevent, hp'⟩ := hp.kept hends
        have hk : k.canonical ≠ id.canonical := customEvent?_id hevent.symm ▸ hother event hp
        rw [customEvent?, h.node?_of_ne hk, ← customEvent?, ← hevent] at hp'
        exact hf.of_event hg h.represented hends hp hp'

end Removed

end Graph

/-! ## Runs -/

/-- Calls that neither add a draft as it is nor write properties. -/
def Call.isPlain : Call → Bool
  | .add _ | .write .. => false
  | .create .. | .connect .. | .disconnect _ | .remove _ => true

def Graph.run (g : Graph) (calls : List Call) : Except Error Graph :=
  calls.foldlM (fun g call => g.edited call.edit) g

/-- A call removes the event that gives the argument which a connection enters, and leaves the
connection. -/
def Graph.Loosens (g : Graph) (call : Call) (c : Connection) : Prop :=
  ∃ id event, call = .remove id ∧ c.touches id = false ∧ g.Passes c (some event) ∧
    event.id.canonical = id.canonical

/-- What plain calls that succeed keep. -/
structure Tended (g : Graph) : Prop extends Represented g where
  ids : g.ids.Nodup
  typed : ∀ n ∈ g.nodes, n.Typed
  held : ∀ c ∈ g.connections, g.Held c

/-- A graph with all the nodes of another, and no connections but those and new ones that fit. -/
structure Graph.Grown (g g' : Graph) : Prop extends g.Grows g' where
  represented : Represented g'
  ids : g'.ids.Nodup
  typed : ∀ n ∈ g'.nodes, n.Typed
  connections : ∀ c ∈ g'.connections, c ∈ g.connections ∨ g'.Fitting c

namespace Tended

open CartGraph.Graph

variable {g g' : Graph}

theorem empty : Tended (.empty Library.catalogue) where
  toRepresented := .empty
  ids := .nil
  typed := by simp [Graph.empty]
  held := by simp [Graph.empty]

theorem grows_of_nodes (hn : g'.nodes = g.nodes) (hc : g'.catalogue = g.catalogue) :
    g.Grows g' := ⟨hc, fun h => by rwa [Graph.node?, hn, ← Graph.node?]⟩

/-- What a plain call can do. -/
theorem call_cases (h : Tended g) {call : Call} (hplain : call.isPlain = true)
    (hc : g.edited call.edit = .ok g') :
    (g.Grown g' ∧ ∀ id, call ≠ .remove id) ∨ ∃ id, call = .remove id ∧ g.Removed id g' := by
  cases call with
  | add d => cases hplain
  | write id change => cases hplain
  | create definition id properties =>
    obtain ⟨n, hn, hfree, rfl⟩ := createNode_ok h.catalogue hc
    refine .inl ⟨⟨.addNode g n, h.toRepresented.addNode n, Loaded.nodup_addNode h.ids hfree, ?_,
      fun c hc => .inl hc⟩, by simp⟩
    intro m hm
    rcases List.mem_append.mp hm with hm | hm
    · exact h.typed m hm
    · rwa [List.mem_singleton.mp hm]
  | connect a p b q =>
    obtain ⟨c, hw, rfl⟩ := Loaded.connect_ok hc
    refine .inl ⟨⟨grows_of_nodes rfl rfl, h.toRepresented.joined hw, h.ids, h.typed,
      fun d hd => ?_⟩, by simp⟩
    rcases List.mem_append.mp hd with hd | hd
    · exact .inl hd
    · cases List.mem_singleton.mp hd
      obtain ⟨source, target, hj, _, _, hne, _⟩ := wire_ok hw
      exact .inr ⟨source, target, (hj.fits hne).of_pins (findPin?_of_nodes rfl rfl)⟩
  | disconnect c =>
    obtain ⟨hany, rfl⟩ := Built.disconnect_ok hc
    obtain ⟨hnodes, hcatalogue⟩ := Edit.parted_nodes c g
    refine .inl ⟨⟨grows_of_nodes hnodes hcatalogue, h.toRepresented.parted hany, ?_, ?_,
      fun d hd => .inl ?_⟩, by simp⟩
    · rw [Graph.ids, hnodes]
      exact h.ids
    · rw [hnodes]
      exact h.typed
    · rw [h.connections_parted hany] at hd
      exact (List.mem_filter.mp hd).1
  | remove id => exact .inr ⟨id, rfl, removeNode_ok h.toRepresented hc⟩

theorem of_grown (h : Tended g) (hg : g.Grown g') : Tended g' where
  toRepresented := hg.represented
  ids := hg.ids
  typed := hg.typed
  held c hc := by
    rcases hg.connections c hc with hold | hf
    · obtain ⟨hs, ht, _⟩ := h.ends c hold
      obtain ⟨n, hn⟩ := Option.isSome_iff_exists.mp hs
      obtain ⟨m, hm⟩ := Option.isSome_iff_exists.mp ht
      exact (h.held c hold).kept h.toRepresented hg.represented
        ⟨(hg.node? hn).trans hn.symm, (hg.node? hm).trans hm.symm⟩
    · have hfits := hf
      obtain ⟨source, target, hf⟩ := hf
      exact ⟨⟨source, hf.foundSource, hf.output⟩, .inl hfits⟩

theorem of_removed (h : Tended g) {id : Key} (hr : g.Removed id g') : Tended g' where
  toRepresented := hr.represented
  ids := by
    rw [Graph.ids, hr.nodes]
    exact h.ids.sublist (List.filter_sublist.map _)
  typed n hn := by
    rw [hr.nodes] at hn
    exact h.typed n (List.mem_filter.mp hn).1
  held c hc := (h.held c (hr.mem_connections.mp hc).1).kept h.toRepresented hr.represented
    (hr.sameEnds hc)

/-- What a plain call keeps. -/
theorem call (h : Tended g) {call : Call} (hplain : call.isPlain = true)
    (hc : g.edited call.edit = .ok g') : Tended g' := by
  rcases h.call_cases hplain hc with ⟨hg, _⟩ | ⟨id, _, hr⟩
  · exact h.of_grown hg
  · exact h.of_removed hr

/-- Where all connections fit, all that are left after a plain call fit if it loosens none. -/
theorem fitting_call_iff (h : Tended g) {call : Call} (hplain : call.isPlain = true)
    (hc : g.edited call.edit = .ok g') (hall : ∀ c ∈ g.connections, g.Fitting c) :
    (∀ c ∈ g'.connections, g'.Fitting c) ↔ ∀ c ∈ g.connections, ¬g.Loosens call c := by
  rcases h.call_cases hplain hc with ⟨hg, hne⟩ | ⟨id, rfl, hr⟩
  · constructor
    · rintro _ c _ ⟨id, _, hcall, _⟩
      exact hne id hcall
    · intro _ c hc
      rcases hg.connections c hc with hold | hf
      · exact (hall c hold).grown h.toRepresented hg.toGrows
      · exact hf
  · constructor
    · rintro hfits c hc ⟨_, event, hcall, htouches, hp, hid⟩
      cases hcall
      have hleft := hr.mem_connections.mpr ⟨hc, htouches⟩
      exact (hr.fitting_iff h.toRepresented hleft (hall c hc)).mp (hfits c hleft) event hp hid
    · intro hloose c hc
      obtain ⟨hold, htouches⟩ := hr.mem_connections.mp hc
      refine (hr.fitting_iff h.toRepresented hc (hall c hold)).mpr fun event hp hid => ?_
      exact hloose c hold ⟨id, event, rfl, htouches, hp, hid⟩

/-- What a run of plain calls keeps. -/
theorem run (h : Tended g) {calls : List Call} (hplain : ∀ call ∈ calls, call.isPlain = true)
    (hrun : g.run calls = .ok g') : Tended g' :=
  foldlM_ok_of_mem (fun _ call _ hm hg hc => hg.call (hplain call hm) hc) h hrun

theorem fitting_run (h : Tended g) {calls : List Call}
    (hplain : ∀ call ∈ calls, call.isPlain = true) (hrun : g.run calls = .ok g')
    (hall : ∀ c ∈ g.connections, g.Fitting c)
    (hloose : ∀ before call after g₁, calls = before ++ call :: after → g.run before = .ok g₁ →
      ∀ c ∈ g₁.connections, ¬g₁.Loosens call c) :
    ∀ c ∈ g'.connections, g'.Fitting c := by
  induction calls generalizing g with
  | nil =>
    cases hrun
    exact hall
  | cons call rest ih =>
    rw [Graph.run, List.foldlM_cons] at hrun
    obtain ⟨g₁, hcall, hrun⟩ := bind_ok hrun
    have hfirst := hplain call (.head _)
    have hnone : ∀ c ∈ g.connections, ¬g.Loosens call c := hloose [] call rest g rfl rfl
    refine ih (h.call hfirst hcall) (fun call hm => hplain call (.tail _ hm)) hrun
      ((h.fitting_call_iff hfirst hcall hall).mpr hnone) fun before call' after g₂ heq hbefore => ?_
    refine hloose (call :: before) call' after g₂ (by rw [heq, List.cons_append]) ?_
    rw [Graph.run, List.foldlM_cons, hcall]
    exact hbefore

/-! ## Loading what was saved -/

/-- Connections that fit could be made together. -/
theorem wellWired (h : Tended g) (hall : ∀ c ∈ g.connections, g.Fitting c) :
    g.WellWired (g.connections.map Connection.wire) where
  fits w hw := by
    obtain ⟨c, hc, rfl⟩ := List.mem_map.mp hw
    exact hall c hc
  inputs := List.pairwise_map.mpr h.targets
  execs := by
    refine List.pairwise_map.mpr (h.targets.imp_of_mem fun {c d} hc hd hne hs p hp => ?_)
    by_contra hx
    obtain ⟨source, target, hf⟩ := hall c hc
    cases hf.foundSource.symm.trans hp
    obtain ⟨t, ht, hkind⟩ := h.kinds c hc
    have hpin : c.sourcePin = .text p.id := hf.sourcePin
    have hfound : g.findPin? c.sourceNode (.text p.id) = .ok (some p) := by
      rw [hf.sourcePin] at hp
      exact hp
    have hexec : c.isExec = true := by
      rw [hkind, hpin, ← findPin?_isExec hfound hf.output ht (Library.steady (h.type_mem ht))]
      simpa using hx
    exact hne (congrArg Connection.target (h.alone c hc hexec d hd hs.symm)).symm

/-- The saved form of a graph has its nodes, and connections along its wires. -/
theorem load_saved_eq (h : Tended g) : Graph.load (.table g.save) Library.catalogue =
    (g.connections.map Connection.wire).foldlM Graph.join
      { catalogue := Library.catalogue, nodes := g.nodes.map Node.reread } := by
  have hdescribed : List.Forall₂ (Graph.Describes Library.catalogue) (g.nodes.map Node.toValue)
      (g.nodes.map Node.reread) :=
    List.forall₂_map_left_iff.mpr (List.forall₂_map_right_iff.mpr
      (List.forall₂_same.mpr fun n hn => (h.typed n hn).describes))
  have hnamed : List.Forall₂ Graph.Names
      (g.connections.map fun c => c.ends.map fun f => (Key.text f.1, f.2))
      (g.connections.map Connection.wire) :=
    List.forall₂_map_left_iff.mpr (List.forall₂_map_right_iff.mpr
      (List.forall₂_same.mpr fun c _ => ⟨rfl, rfl, rfl, rfl⟩))
  have hconnections : g.save.get? "connections" = some (.list ((g.connections.map fun c =>
      c.ends.map fun f => (Key.text f.1, f.2)).map Value.table)) := by
    rw [List.map_map]
    rfl
  have hids : ((g.nodes.map Node.reread).map fun n => n.id.canonical) = g.ids := by
    rw [List.map_map]
    rfl
  exact Graph.load_eq rfl hconnections hdescribed (hids ▸ h.ids) hnamed

/-- What was saved loads if and only if all connections fit. -/
theorem loads_iff (h : Tended g) :
    (∃ g', Graph.load (.table g.save) Library.catalogue = .ok g') ↔
      ∀ c ∈ g.connections, g.Fitting c := by
  rw [h.load_saved_eq]
  let base : Graph := { catalogue := Library.catalogue, nodes := g.nodes.map Node.reread }
  have hbase : g.Replaced base := ⟨h.catalogue.symm, by
    rw [List.map_map]
    rfl⟩
  have hstart : base.Wired [] base := .start (by
    rw [List.map_map]
    exact h.ids)
  constructor
  · rintro ⟨g', hg'⟩ c hc
    have hwired := (hstart.of_joinAll hg').wellWired rfl
    obtain ⟨source, target, hf⟩ := hwired.fits c.wire (List.mem_map_of_mem hc)
    exact ⟨source, target, hf.of_pins fun node pin => (hbase.findPin? node pin).symm⟩
  · intro hall
    obtain ⟨g', hg', _⟩ := hstart.joinAll rfl ((h.wellWired hall).of_replaced hbase)
    exact ⟨g', hg'⟩

end Tended

/-- A graph that was made by calls that succeeded. Every connection leaves an output that is there,
and enters an input that goes with it, or else an argument of a call. What was saved loads exactly
if all connections fit. They all do if no removal loosened one; and where they do, they do after
one more call exactly if it loosens none. -/
theorem fitting_after_run {calls : List Call} {g : Graph}
    (hplain : ∀ call ∈ calls, call.isPlain = true)
    (hrun : (Graph.empty Library.catalogue).run calls = .ok g) :
    (∀ c ∈ g.connections,
      (∃ p, g.findPin? c.sourceNode c.sourcePin = .ok (some p) ∧ p.direction = .output) ∧
      (g.Fitting c ∨ ∃ event, g.Passes c event)) ∧
    ((∃ g', Graph.load (.table g.save) Library.catalogue = .ok g') ↔
      ∀ c ∈ g.connections, g.Fitting c) ∧
    ((∀ before call after g₁, calls = before ++ call :: after →
        (Graph.empty Library.catalogue).run before = .ok g₁ →
        ∀ c ∈ g₁.connections, ¬g₁.Loosens call c) →
      ∀ c ∈ g.connections, g.Fitting c) ∧
    ∀ call g', call.isPlain = true → g.edited call.edit = .ok g' →
      (∀ c ∈ g.connections, g.Fitting c) →
      ((∀ c ∈ g'.connections, g'.Fitting c) ↔ ∀ c ∈ g.connections, ¬g.Loosens call c) := by
  have h := Tended.empty.run hplain hrun
  refine ⟨fun c hc => ⟨(h.held c hc).source, (h.held c hc).target⟩, h.loads_iff, fun hloose => ?_,
    fun call g' hcall hedited hall => h.fitting_call_iff hcall hedited hall⟩
  exact Tended.empty.fitting_run hplain hrun (by simp [Graph.empty]) hloose

def makeEvent : Call := .create (.text "custom_event") (.text "event")
  [("parameters", .list [.object [("id", .text "n"), ("name", .text "Count")]])]

/-- A call gets an argument, then the event is removed. -/
def looseArgument : List Call := [
  makeEvent,
  .create (.text "call_custom_event") (.text "call") [("eventId", .text "event")],
  .create (.text "number_literal") (.text "five") [],
  .connect (.text "five") (.text "value") (.text "call") (.text "arg_n"),
  .remove "event"]

/-- An event that is made again gives the argument back. -/
theorem fitting_after_run_remade : ∃ g g',
    (∀ call ∈ looseArgument ++ [makeEvent], call.isPlain = true) ∧
    (Graph.empty Library.catalogue).run (looseArgument ++ [makeEvent]) = .ok g ∧
    g.connections = [⟨"five", "value", "call", "arg_n", .number⟩] ∧
    Graph.load (.table g.save) Library.catalogue = .ok g' ∧
    ∀ c ∈ g.connections, g.Fitting c := by
  have heval : (((Graph.empty Library.catalogue).run (looseArgument ++ [makeEvent])).toOption.any
      fun g => g.connections == [⟨"five", "value", "call", "arg_n", .number⟩] &&
        (Graph.load (.table g.save) Library.catalogue).toOption.any fun _ => true) = true := by
    decide +kernel
  obtain ⟨g, hrun, heval⟩ := exists_ok_of_any heval
  obtain ⟨hconnections, heval⟩ := Bool.and_eq_true_iff.mp heval
  obtain ⟨g', hload, _⟩ := exists_ok_of_any heval
  have hplain : ∀ call ∈ looseArgument ++ [makeEvent], call.isPlain = true := by
    simp [looseArgument, makeEvent, Call.isPlain]
  obtain ⟨_, hloads, _⟩ := fitting_after_run hplain hrun
  exact ⟨g, g', hplain, hrun, eq_of_beq hconnections, hload, hloads.mp ⟨g', hload⟩⟩

/-- The connection is left, its input is not, and what was saved does not load. -/
theorem looseArgument_left : ∃ g, (∀ call ∈ looseArgument, call.isPlain = true) ∧
    (Graph.empty Library.catalogue).run looseArgument = .ok g ∧
    g.connections = [⟨"five", "value", "call", "arg_n", .number⟩] ∧
    g.findPin? "call" (.text "arg_n") = .ok none ∧
    ∀ g', Graph.load (.table g.save) Library.catalogue ≠ .ok g' := by
  have heval : (((Graph.empty Library.catalogue).run looseArgument).toOption.any fun g =>
      g.connections == [⟨"five", "value", "call", "arg_n", .number⟩] &&
        ((g.findPin? "call" (.text "arg_n")).toOption.any Option.isNone &&
          !(Graph.load (.table g.save) Library.catalogue).toOption.isSome)) = true := by
    decide +kernel
  obtain ⟨g, hrun, heval⟩ := exists_ok_of_any heval
  obtain ⟨hconnections, heval⟩ := Bool.and_eq_true_iff.mp heval
  obtain ⟨hfound, hload⟩ := Bool.and_eq_true_iff.mp heval
  obtain ⟨found, hfound, hnone⟩ := exists_ok_of_any hfound
  refine ⟨g, by simp [looseArgument, makeEvent, Call.isPlain], hrun, eq_of_beq hconnections, ?_,
    fun g' h => ?_⟩
  · rw [hfound, Option.isNone_iff_eq_none.mp hnone]
  · rw [h] at hload
    cases hload

end CartGraph
