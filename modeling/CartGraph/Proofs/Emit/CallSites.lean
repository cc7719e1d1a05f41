import CartGraph.Proofs.Faults
import CartGraph.Proofs.Library

/-! # Pins of call sites

The pins of a call of an event come from the graph: it looks for the node that its property names,
and takes one input for each parameter if that node is a custom event by type. -/
namespace CartGraph

/-- The inputs of a call of an event, none if what it refers to is no custom event. -/
def Node.argumentPins (target : Option Node) : List Pin :=
  match target with
  | some n => n.parameters.map fun p => .valueIn p.inputPin p.kind p.name
  | none => []

/-- The custom event that an id names, as call sites look for it. -/
def Graph.customEvent? (g : Graph) (id : Key) : Option Node :=
  (g.node? id).filter fun n => n.definitionId == Library.customEventId

theorem Parameter.inputPin_ne (p : Parameter) : p.inputPin ≠ "exec_out" := by
  intro h
  have hl := congrArg String.toList h
  simp [inputPin] at hl

theorem Node.argumentPins_input {event : Option Node} {p : Pin} (h : p ∈ argumentPins event) :
    p.direction = .input ∧ p.id ≠ "exec_out" := by
  cases event with
  | none => cases h
  | some n =>
    obtain ⟨q, _, rfl⟩ := List.mem_map.mp h
    exact ⟨rfl, q.inputPin_ne⟩

theorem Node.argumentPins_filter (event : Option Node) :
    (argumentPins event).filter (fun p => p.direction == .input) = argumentPins event ∧
      (argumentPins event).filter (fun p => p.direction == .output) = [] :=
  ⟨List.filter_eq_self.mpr fun p hp => by simp [(argumentPins_input hp).1],
    List.filter_eq_nil_iff.mpr fun p hp => by simp [(argumentPins_input hp).1]⟩

namespace Graph

variable {g : Graph} {n : Node}

theorem calledEvent?_of_key {id : Key}
    (h : ((n.properties.get "eventId").orElse (.text "")).key = .ok id) :
    g.calledEvent? n = .ok (g.customEvent? id) := by
  unfold calledEvent?
  rw [h]
  rfl

theorem derivedPins_arguments {d : Definition} (hd : d.derivedPins = .arguments) :
    g.derivedPins d n = (g.calledEvent? n).map Node.argumentPins := by
  unfold derivedPins
  rw [hd]
  cases g.calledEvent? n with
  | error e => rfl
  | ok event => cases event <;> rfl

end Graph

/-- What the property of a call names is what its pins are looked for by. -/
theorem Compilation.key_of_property {c : Compilation} {call : Key} {n : Node} {id : String}
    (ht : c.graph.typeOf call = .ok Library.callCustomEvent) (hn : c.graph.node? call = some n)
    (h : c.property call "eventId" .null = .ok (.text id)) :
    ((n.properties.get "eventId").orElse (.text "")).key = .ok (.text id) := by
  obtain ⟨value, hvalue, _, hv⟩ := property_ok ht hn rfl h
  change value = if (n.properties.get "eventId").isNull then .text ""
    else n.properties.get "eventId" at hvalue
  cases hs : n.properties.get "eventId" with
  | null =>
    rw [hs] at hvalue
    cases hvalue
    cases hv
    rfl
  | text s =>
    rw [hs] at hvalue
    cases hvalue
    cases hv
    unfold Value.orElse
    split
    · rfl
    · rename_i hempty
      have : id = "" := by simpa [Value.truthy] using hempty
      rw [this]
      rfl
  | omitted | bool | int | float | list | table =>
    rw [hs] at hvalue
    cases hvalue
    cases hv

theorem Compilation.calledEvent?_of_property {c : Compilation} {call : Key} {n : Node} {id : String}
    (ht : c.graph.typeOf call = .ok Library.callCustomEvent) (hn : c.graph.node? call = some n)
    (h : c.property call "eventId" .null = .ok (.text id)) :
    c.graph.calledEvent? n = .ok (c.graph.customEvent? id) :=
  Graph.calledEvent?_of_key (key_of_property ht hn h)

theorem Graph.pinsOf_call {g : Graph} {call : Key} {n : Node} {target : Option Node}
    (ht : g.typeOf call = .ok Library.callCustomEvent) (hn : g.node? call = some n)
    (hc : g.calledEvent? n = .ok target) :
    g.pinsOf call = .ok ⟨.execIn :: Node.argumentPins target, [.execOut]⟩ := by
  have hd : g.derivedPins Library.callCustomEvent.definition n = .ok (Node.argumentPins target) := by
    rw [derivedPins_arguments rfl, hc]
    rfl
  obtain ⟨hinputs, houtputs⟩ := Node.argumentPins_filter target
  unfold pinsOf
  rw [ht, node_ok_iff.mpr hn]
  change (g.derivedPins Library.callCustomEvent.definition n >>= _) = _
  rw [hd]
  change Except.ok _ = _
  rw [hinputs, houtputs]
  rfl

/-- The pin of an argument is no exec pin, so it is one that the event gives. -/
theorem Graph.findPin?_call {g : Graph} {call : Key} {n : Node} {target : Option Node}
    (ht : g.typeOf call = .ok Library.callCustomEvent) (hn : g.node? call = some n)
    (hc : g.calledEvent? n = .ok target) (p : Parameter) :
    g.findPin? call (.text p.inputPin) =
      .ok ((Node.argumentPins target).find? fun q => q.id == p.inputPin) := by
  have hin : (Pin.execIn.id == p.inputPin) = false := by
    refine beq_eq_false_iff_ne.mpr fun h => ?_
    have hl := congrArg String.toList h
    simp [Pin.execIn, Parameter.inputPin] at hl
  have hout : (Pin.execOut.id == p.inputPin) = false := by
    refine beq_eq_false_iff_ne.mpr fun h => ?_
    have hl := congrArg String.toList h
    simp [Pin.execOut, Parameter.inputPin] at hl
  unfold findPin?
  rw [pinsOf_call ht hn hc]
  change Except.ok _ = _
  simp [PinSet.find?, PinSet.all, hin, hout]

end CartGraph
