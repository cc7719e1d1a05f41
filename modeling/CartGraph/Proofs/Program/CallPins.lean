import CartGraph.Proofs.Document.Accepted
import CartGraph.Proofs.Emit.Failures
import CartGraph.Proofs.Emit.LocalScope
import CartGraph.Proofs.Program.Entries

/-! # Pins of calls and parameters of functions

A call takes its pins from the node that it refers to, if that is a custom event by type. The
function that it calls has the parameters of the node, whatever its type. The two agree for nodes of
the type of custom events, and for all others only if there are no parameters. -/
namespace CartGraph

/-- A node is a call of an event, and what it refers to has a signature. -/
structure Compilation.Calls (c : Compilation) (call : Key) (signature : Signature) : Prop where
  type : c.graph.typeOf call = .ok Library.callCustomEvent
  resolves : ∃ target, c.property call "eventId" .null = .ok target ∧
    c.event? target = some signature

structure Compilation.Refers (c : Compilation) (call : Key) (signature : Signature) (event : Node) :
    Prop where
  named : ∃ id, event.id = .text id
  property : c.property call "eventId" .null = .ok event.id
  found : c.event? event.id = some signature
  nodeId : signature.nodeId = event.id
  parameters : signature.parameters = event.parameters

/-- The pin that a custom event gives to a parameter. -/
theorem Compilation.Refers.mem_argumentPins {c : Compilation} {call : Key} {signature : Signature}
    {event : Node} (h : c.Refers call signature event) {p : Parameter}
    (hp : p ∈ signature.parameters) :
    Pin.valueIn p.inputPin p.kind p.name ∈ Node.argumentPins (some event) := by
  rw [h.parameters] at hp
  exact List.mem_map_of_mem hp

namespace Compilation.Calls

variable {c : Compilation} {call : Key} {signature : Signature} {event : Node}

theorem of_statement (hr : Represented c.graph) {target : Value}
    (hst : c.graph.statement? call = some .callEvent)
    (htarget : c.property call "eventId" .null = .ok target)
    (hfound : c.event? target = some signature) : c.Calls call signature := by
  obtain ⟨t, hmem, htype, hst⟩ := hr.statement_mem hst
  exact ⟨Library.callEvent_type hmem hst ▸ htype, target, htarget, hfound⟩

theorem refers {customs : List Node} (hevents : c.events = Signature.ofNodes customs)
    (h : c.Calls call signature) : ∃ event ∈ customs, c.Refers call signature event := by
  obtain ⟨target, htarget, hfound⟩ := h.resolves
  have hlookup := hfound
  unfold event? at hlookup
  split at hlookup
  · rename_i id
    rw [hevents] at hlookup
    obtain ⟨event, hm, hid, used, hs⟩ := Signature.ofNodes_ofNode hlookup
    have hid := Key.canonical_eq_text hid
    refine ⟨event, hm, ⟨id, hid⟩, ?_, ?_, hs ▸ rfl, hs ▸ rfl⟩
    · rw [hid]
      exact htarget
    · rw [hid]
      exact hfound
  · cases hlookup

/-- What the pins of the call are taken from. -/
theorem called (hg : Loaded c.graph) (h : c.Calls call signature)
    (hr : c.Refers call signature event) (hm : event ∈ c.graph.nodes) :
    ∃ n, c.graph.node? call = some n ∧ c.graph.calledEvent? n =
      .ok (if event.definitionId = Library.customEventId then some event else none) := by
  obtain ⟨n, hn, _⟩ := Graph.typeOf_ok_iff.mp h.type
  obtain ⟨id, hid⟩ := hr.named
  refine ⟨n, hn, ?_⟩
  rw [calledEvent?_of_property h.type hn (hid ▸ hr.property), Graph.customEvent?,
    hg.node?_of_mem hm (by rw [hid])]
  simp [Option.filter_some]

/-- A custom event gives a pin to every parameter. -/
theorem findPin?_isSome (hg : Loaded c.graph) (h : c.Calls call signature)
    (hr : c.Refers call signature event) (hm : event ∈ c.graph.nodes)
    (he : event.definitionId = Library.customEventId) {p : Parameter}
    (hp : p ∈ signature.parameters) :
    ∃ pin, c.graph.findPin? call (.text p.inputPin) = .ok (some pin) := by
  obtain ⟨n, hn, hcalled⟩ := h.called hg hr hm
  rw [if_pos he] at hcalled
  rw [Graph.findPin?_call h.type hn hcalled]
  have hsome : ((Node.argumentPins (some event)).find? fun q => q.id == p.inputPin).isSome = true :=
    List.find?_isSome.mpr ⟨_, hr.mem_argumentPins hp, by simp [Pin.valueIn]⟩
  obtain ⟨pin, hpin⟩ := Option.isSome_iff_exists.mp hsome
  exact ⟨pin, congrArg _ hpin⟩

/-- What is no custom event gives no pins. -/
theorem findPin?_eq_none (hg : Loaded c.graph) (h : c.Calls call signature)
    (hr : c.Refers call signature event) (hm : event ∈ c.graph.nodes)
    (hne : event.definitionId ≠ Library.customEventId) (p : Parameter) :
    c.graph.findPin? call (.text p.inputPin) = .ok none := by
  obtain ⟨n, hn, hcalled⟩ := h.called hg hr hm
  rw [if_neg hne] at hcalled
  exact Graph.findPin?_call h.type hn hcalled p

/-- The call has an input for a parameter if and only if the pin of the parameter is found. -/
theorem exists_pin_iff (hg : Loaded c.graph) (h : c.Calls call signature)
    (hr : c.Refers call signature event) (hm : event ∈ c.graph.nodes) {p : Parameter}
    (hp : p ∈ signature.parameters) :
    (∃ ps, c.graph.pinsOf call = .ok ps ∧ ∃ pin ∈ ps.inputs, pin.id = p.inputPin) ↔
      event.definitionId = Library.customEventId := by
  constructor
  · rintro ⟨ps, hps, pin, hpin, hid⟩
    by_contra hne
    have hnone := h.findPin?_eq_none hg hr hm hne p
    obtain ⟨_, hps', hfind⟩ := bind_ok hnone
    cases hps.symm.trans hps'
    have hall := List.find?_eq_none.mp (Except.ok.inj hfind) pin (List.mem_append_left _ hpin)
    simp [hid] at hall
  · intro he
    obtain ⟨pin, hfound⟩ := h.findPin?_isSome hg hr hm he hp
    obtain ⟨n, hn, hcalled⟩ := h.called hg hr hm
    rw [if_pos he] at hcalled
    exact ⟨_, Graph.pinsOf_call h.type hn hcalled, _, .tail _ (hr.mem_argumentPins hp), rfl⟩

end Compilation.Calls

/-- No wire leads to a pin that is not there. -/
theorem Loaded.incoming?_eq_none {g : Graph} (hg : Loaded g) {node : Key} {pin : String}
    (hnone : g.findPin? node (.text pin) = .ok none) : g.incoming? node pin = none := by
  cases hw : g.incoming? node pin with
  | none => rfl
  | some w =>
    obtain ⟨hmem, htarget⟩ := (hg.incoming _ _).mp hw
    obtain ⟨source, target, hj⟩ := hg.joins w hmem
    have hnode : w.targetNode.canonical = node.canonical := congrArg Prod.fst htarget
    have hpin : w.targetPin = .text pin := Key.canonical_eq_text (congrArg Prod.snd htarget)
    have hfound := Graph.findPin?_congr hnode hj.foundTarget
    rw [← Key.text.inj (hpin.symm.trans hj.targetPin), hnone] at hfound
    cases hfound

theorem Emit.bind_error {m : Emit α} {f : α → Emit β} {s : Progress} {e : Error}
    (h : (m s).1 = .error e) : ((m >>= f) s).1 = .error e := by
  change (Emit.bind m f s).1 = .error e
  unfold Emit.bind
  rcases hms : m s with ⟨e' | a, s'⟩ <;> rw [hms] at h
  · exact congrArg _ (Except.error.inj h)
  · cases h

/-- A call that lacks a pin can not be read. -/
theorem Site.eventSlots_lacking {c : Compilation} (hg : Loaded c.graph) {eval : Evaluate} {s : Site}
    {n : Node} {p : Parameter} (ps : List Parameter) (hn : c.graph.node? s.node = some n)
    (hnone : c.graph.findPin? s.node (.text p.inputPin) = .ok none) (state : Progress) :
    ((s.eventSlots c eval (p :: ps)) state).1 = .error (.noSuchPin n.definitionId p.inputPin) := by
  have hunwired : c.unwired s.node p.inputPin =
      .error (.noSuchPin n.definitionId p.inputPin) := by
    unfold Compilation.unwired
    rw [show c.graph.findPin? s.node (Key.text p.inputPin) = _ from hnone,
      Graph.node_ok_iff.mpr hn]
    rfl
  have hinput : c.input eval s.node p.inputPin =
      .lift (.error (.noSuchPin n.definitionId p.inputPin)) := by
    unfold Compilation.input
    rw [hg.incoming?_eq_none hnone, hunwired]
  unfold eventSlots
  rw [hinput]
  rfl

/-- The parameters of a function and the pins of a call of it agree exactly if the node of the
function is a custom event by type, or has no parameters. If they agree, the call never fails for
lack of a pin; if not, it always does. -/
theorem call_pins_iff {document : Value} {g : Graph}
    (hload : Graph.load document Library.catalogue = .ok g) {settings : Settings}
    {entries : Program.Entries} (hentries : Program.Entries.ofGraph g settings = .ok entries)
    {c : Compilation} (hc : c.graph = g) (hevents : c.events = Signature.ofNodes entries.custom)
    {call : Key} {signature : Signature} (hcall : c.Calls call signature) :
    ∃ event ∈ g.nodes, g.OpensCustomEvent event ∧ c.Refers call signature event ∧
      ((∀ p ∈ signature.parameters,
          ∃ ps, g.pinsOf call = .ok ps ∧ ∃ pin ∈ ps.inputs, pin.id = p.inputPin) ↔
        event.definitionId = Library.customEventId ∨ signature.parameters = []) ∧
      ∀ level path s,
        let read := (Statement.callEvent.gather c (c.evaluate call) (.enter call level path) s).1
        (event.definitionId = Library.customEventId ∨ signature.parameters = [] →
          ∀ definition pin, read ≠ .error (.noSuchPin definition pin)) ∧
        (¬(event.definitionId = Library.customEventId ∨ signature.parameters = []) →
          ∃ p ∈ signature.parameters,
            read = .error (.noSuchPin Library.callCustomEvent.id p.inputPin)) := by
  subst hc
  have hg := Loaded.of_load hload
  obtain ⟨event, hcustom, hrefers⟩ := hcall.refers hevents
  obtain ⟨hmem, hopens⟩ := (Program.Entries.lists_of_graph hentries).custom event hcustom
  refine ⟨event, hmem, hopens, hrefers, ⟨fun hpins => ?_, fun h p hp => ?_⟩,
    fun level path s => ⟨fun h definition pin hread => ?_, fun h => ?_⟩⟩
  · cases hps : signature.parameters with
    | nil => exact .inr rfl
    | cons p ps =>
      have hp : p ∈ signature.parameters := by simp [hps]
      exact .inl ((hcall.exists_pin_iff hg hrefers hmem hp).mp (hpins p hp))
  · rcases h with h | h
    · exact (hcall.exists_pin_iff hg hrefers hmem hp).mpr h
    · simp [h] at hp
  · have hst : c.graph.statement? call = some .callEvent := Graph.statement?_of_type hcall.type
    cases Statement.gather_raises hg.toRepresented (c.evaluate_faults hg.toRepresented call)
      (s := .enter call level path) hst s _ hread with
    | read hfault => cases hfault with
      | setting hs => cases hs
    | lacking _ _ ht he hp hpin =>
      cases hrefers.property.symm.trans ht
      cases hrefers.found.symm.trans he
      rcases h with h | h
      · obtain ⟨pin, hfound⟩ := hcall.findPin?_isSome hg hrefers hmem h hp
        cases hfound.symm.trans hpin
      · simp [h] at hp
  · obtain ⟨hne, hsome⟩ := not_or.mp h
    obtain ⟨p, ps, hps⟩ := List.exists_cons_of_ne_nil hsome
    obtain ⟨n, hn, hfind⟩ := Graph.typeOf_ok_iff.mp hcall.type
    have hid : Library.callCustomEvent.id = n.definitionId := by simpa using List.find?_some hfind
    refine ⟨p, by simp [hps], ?_⟩
    rw [hid]
    unfold Statement.gather
    rw [show c.property (Site.enter call level path).node "eventId" .null = _ from hrefers.property]
    change (Emit.bind (.lift (.ok event.id.toValue)) _ s).1 = _
    simp only [Emit.bind, Emit.lift, hrefers.found, hps]
    exact Emit.bind_error (Site.eventSlots_lacking hg ps hn
      (hcall.findPin?_eq_none hg hrefers hmem hne p) s)

/-- A start that calls a node of another type, which is an entry node and lists a parameter. -/
def foreignCall : Value := .object [
  ("nodes", .list [
    .object [("id", .text "boot"), ("definitionId", .text "event_start")],
    .object [("id", .text "p"), ("definitionId", .text "print"), ("isEntryPoint", .bool true),
      ("properties", .object [("parameters", .list [.object [("id", .text "x")]])])],
    .object [("id", .text "call"), ("definitionId", .text "call_custom_event"),
      ("properties", .object [("eventId", .text "p")])]]),
  ("connections", .list [.object [("fromNode", .text "boot"), ("fromPin", .text "exec_out"),
    ("toNode", .text "call"), ("toPin", .text "exec_in")]])]

theorem call_pins_iff_foreignCall : ∃ g entries signature,
    Graph.load foreignCall Library.catalogue = .ok g ∧
    Program.Entries.ofGraph g {} = .ok entries ∧
    let c : Compilation := { graph := g, events := Signature.ofNodes entries.custom }
    c.Calls "call" signature ∧ signature.parameters ≠ [] ∧
    ¬ ∀ p ∈ signature.parameters,
      ∃ ps, g.pinsOf "call" = .ok ps ∧ ∃ pin ∈ ps.inputs, pin.id = p.inputPin := by
  have heval : ((Graph.load foreignCall Library.catalogue).toOption.any fun g =>
      (Program.Entries.ofGraph g {}).toOption.any fun entries =>
        let c : Compilation := { graph := g, events := Signature.ofNodes entries.custom }
        g.statement? "call" == some .callEvent &&
          ((g.node? "p").any fun n => n.definitionId == "print") &&
          (c.property "call" "eventId" .null).toOption.any fun target =>
            target.display == "p" && (c.event? target).any fun s => !s.parameters.isEmpty) = true := by
    decide +kernel
  obtain ⟨g, hload, heval⟩ := exists_ok_of_any heval
  obtain ⟨entries, hentries, heval⟩ := exists_ok_of_any heval
  obtain ⟨⟨hst, hnode⟩, heval⟩ := by simpa only [Bool.and_eq_true] using heval
  obtain ⟨target, htarget, heval⟩ := exists_ok_of_any heval
  obtain ⟨hdisplay, heval⟩ := Bool.and_eq_true_iff.mp heval
  obtain ⟨signature, hfound, hsome⟩ := (Option.any_eq_true _ _).mp heval
  have hg := Loaded.of_load hload
  have hcall := Compilation.Calls.of_statement hg.toRepresented (eq_of_beq hst) htarget hfound
  obtain ⟨event, hmem, _, hrefers, hpins, _⟩ := call_pins_iff hload hentries rfl rfl hcall
  have hsome : signature.parameters ≠ [] := by simpa using hsome
  refine ⟨g, entries, signature, hload, hentries, hcall, hsome, fun h => ?_⟩
  obtain ⟨id, hid⟩ := hrefers.named
  have hproperty := hrefers.property
  rw [hid] at hproperty
  cases hproperty.symm.trans htarget
  cases (eq_of_beq hdisplay : id = "p")
  rw [hg.node?_of_mem hmem (by rw [hid])] at hnode
  have hprint : event.definitionId = "print" := eq_of_beq hnode
  rcases hpins.mp h with hcustom | hnone
  · exact absurd (hprint.symm.trans hcustom) (by decide)
  · exact hsome hnone

/-- The document passes the check and loads, and what fails is no fault of the graph. -/
theorem foreignCall_lacks_pin : ∃ g,
    (Document.check (some Library.catalogue) true foreignCall).fault = none ∧
    Graph.load foreignCall Library.catalogue = .ok g ∧
    Program.assemble g {} [] = .error (.noSuchPin "call_custom_event" "arg_x") := by
  have heval : ((Graph.load foreignCall Library.catalogue).toOption.any fun g =>
      match Program.assemble g {} [] with
        | .error (.noSuchPin "call_custom_event" "arg_x") => true
        | _ => false) = true := by
    decide +kernel
  obtain ⟨g, hload, heval⟩ := exists_ok_of_any heval
  have haccepted : (Document.check (some Library.catalogue) true foreignCall).fault = none := by
    decide +kernel
  refine ⟨g, haccepted, hload, ?_⟩
  split at heval
  · assumption
  · cases heval

end CartGraph
