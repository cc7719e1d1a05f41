import CartGraph.Proofs.Document.Accepted
import CartGraph.Proofs.Graph.ExecTree
import CartGraph.Proofs.Graph.RoundTrip

/-! # Ids of pins

The pins of a type have different ids, and pins that a node derives add to them. The branches of a
sequence are told apart, but one of them may have the id of its exec input; parameters, and the
arguments of a call with them, are not told apart at all. Nothing else lets two pins of a node share
an id (`pinIds_nodup_iff`). -/
namespace CartGraph

theorem Library.pinIds_nodup : ∀ t ∈ types, (t.definition.pins.map Pin.id).Nodup := by
  decide

/-- The pins that are there before any are derived. -/
theorem Library.pinIds_derived : ∀ t ∈ types,
    (t.definition.derivedPins = .branches →
      t.id = sequence.id ∧ t.definition.pins.map Pin.id = ["exec_in"]) ∧
    (t.definition.derivedPins = .parameters →
      t.id = customEvent.id ∧ t.definition.pins.map Pin.id = ["exec_out"]) ∧
    (t.definition.derivedPins = .arguments →
      t.id = callCustomEvent.id ∧ t.definition.pins.map Pin.id = ["exec_in", "exec_out"]) := by
  decide

/-- Only three types derive pins. -/
theorem Library.derivedPins_none : ∀ t ∈ types, t.definition.derivedPins = .none →
    t.id ≠ sequence.id ∧ t.id ≠ customEvent.id ∧ t.id ≠ callCustomEvent.id := by
  decide

namespace Parameter

/-- Pins that are named for the ids of parameters differ as these do. -/
theorem nodup_pins_iff {pin : Parameter → String} (hpin : ∀ p q, pin p = pin q ↔ p.id = q.id)
    {fixed : List String} (hfixed : fixed.Nodup) (hother : ∀ p, pin p ∉ fixed)
    (ps : List Parameter) : (fixed ++ ps.map pin).Nodup ↔ (ps.map Parameter.id).Nodup := by
  have hpins : (ps.map pin).Nodup ↔ (ps.map Parameter.id).Nodup := by
    simp only [List.Nodup, List.pairwise_map, ne_eq, hpin]
  rw [← hpins, List.nodup_append]
  refine ⟨fun h => h.2.1, fun h => ⟨hfixed, h, fun a ha b hb hab => ?_⟩⟩
  obtain ⟨p, _, rfl⟩ := List.mem_map.mp hb
  exact hother p (hab ▸ ha)

theorem outputPin_eq_iff (p q : Parameter) : p.outputPin = q.outputPin ↔ p.id = q.id := by
  simp [outputPin, ← String.toList_inj]

theorem inputPin_eq_iff (p q : Parameter) : p.inputPin = q.inputPin ↔ p.id = q.id := by
  simp [inputPin, ← String.toList_inj]

theorem inputPin_ne_execIn (p : Parameter) : p.inputPin ≠ "exec_in" := by
  intro h
  have hl := congrArg String.toList h
  simp [inputPin] at hl

end Parameter

namespace Graph

variable {g : Graph}

/-- The pins of a node are those of its type and those it derives. -/
theorem pinsOf_perm {id : Key} {ps : PinSet} (h : g.pinsOf id = .ok ps) :
    ∃ t n derived, g.typeOf id = .ok t ∧ g.node? id = some n ∧
      g.derivedPins t.definition n = .ok derived ∧ ps.all.Perm (t.definition.pins ++ derived) := by
  obtain ⟨t, n, derived, ht, hn, hd, hin, hout⟩ := pinsOf_ok h
  refine ⟨t, n, derived, ht, hn, hd, ?_⟩
  have hsides : (fun p : Pin => p.direction == .output) = fun p => !(p.direction == .input) := by
    funext p
    cases p.direction <;> rfl
  have hderived := List.filter_append_perm (fun p : Pin => p.direction == .input) derived
  rw [PinSet.all, hin, hout, hsides, Definition.pins, List.append_assoc, List.append_assoc]
  refine .append_left _ (.trans ?_ (.append_left _ hderived))
  exact List.perm_append_comm_assoc ..

theorem PinSet.find?_of_mem {ps : PinSet} (h : (ps.all.map Pin.id).Nodup) {p : Pin}
    (hp : p ∈ ps.all) : ps.find? (.text p.id) = some p := by
  show ps.all.find? (fun q => q.id == p.id) = some p
  have hsome : (ps.all.find? fun q => q.id == p.id).isSome = true :=
    List.find?_isSome.mpr ⟨p, hp, by simp⟩
  obtain ⟨q, hq⟩ := Option.isSome_iff_exists.mp hsome
  have hid : q.id = p.id := by simpa using List.find?_some hq
  rw [hq, List.inj_on_of_nodup_map h (List.mem_of_find?_eq_some hq) hp hid]

/-- Nothing that a node derives its pins from gives one id twice. -/
structure Separates (g : Graph) (n : Node) : Prop where
  branches : n.definitionId = Library.sequence.id → "exec_in" ∉ n.branchIds
  parameters : n.definitionId = Library.customEvent.id → (n.parameters.map Parameter.id).Nodup
  arguments : n.definitionId = Library.callCustomEvent.id → ∀ event,
    g.calledEvent? n = .ok (some event) → (event.parameters.map Parameter.id).Nodup

namespace Separates

variable {n : Node}

theorem sequence_iff (h : n.definitionId = Library.sequence.id) :
    g.Separates n ↔ "exec_in" ∉ n.branchIds :=
  ⟨fun hs => hs.branches h, fun hb => ⟨fun _ => hb,
    fun hp => absurd (h.symm.trans hp) (by decide), fun ha => absurd (h.symm.trans ha) (by decide)⟩⟩

theorem customEvent_iff (h : n.definitionId = Library.customEvent.id) :
    g.Separates n ↔ (n.parameters.map Parameter.id).Nodup :=
  ⟨fun hs => hs.parameters h, fun hp => ⟨fun hb => absurd (h.symm.trans hb) (by decide),
    fun _ => hp, fun ha => absurd (h.symm.trans ha) (by decide)⟩⟩

theorem callCustomEvent_iff (h : n.definitionId = Library.callCustomEvent.id)
    {target : Option Node} (hc : g.calledEvent? n = .ok target) :
    g.Separates n ↔ ∀ event ∈ target, (event.parameters.map Parameter.id).Nodup := by
  constructor
  · rintro hs event rfl
    exact hs.arguments h event hc
  · refine fun ha => ⟨fun hb => absurd (h.symm.trans hb) (by decide),
      fun hp => absurd (h.symm.trans hp) (by decide), fun _ event he => ha event ?_⟩
    exact Except.ok.inj (hc.symm.trans he)

end Separates

/-- The pins of a type and those that a node derives have different ids if the node separates
them. There are four ways to derive pins. -/
theorem separates_iff {t : NodeType} {n : Node} {derived : List Pin} (hmem : t ∈ Library.types)
    (hid : t.id = n.definitionId) (hd : g.derivedPins t.definition n = .ok derived) :
    ((t.definition.pins ++ derived).map Pin.id).Nodup ↔ g.Separates n := by
  obtain ⟨hbranches, hparameters, harguments⟩ := Library.pinIds_derived t hmem
  rw [hid] at hbranches hparameters harguments
  rw [List.map_append]
  cases hcase : t.definition.derivedPins with
  | none =>
    obtain ⟨hsequence, hevent, hcall⟩ := hid ▸ Library.derivedPins_none t hmem hcase
    rw [derivedPins, hcase] at hd
    cases hd
    rw [List.map_nil, List.append_nil]
    exact ⟨fun _ => ⟨fun h => absurd h hsequence, fun h => absurd h hevent,
      fun h => absurd h hcall⟩, fun _ => Library.pinIds_nodup t hmem⟩
  | branches =>
    obtain ⟨hsequence, hpins⟩ := hbranches hcase
    rw [derivedPins, hcase] at hd
    cases hd
    have hids : (n.branchIds.map fun id => Pin.branchOut id (Text.upper id)).map Pin.id =
        n.branchIds := by
      rw [List.map_map]
      exact List.map_id _
    rw [Separates.sequence_iff hsequence, hpins, hids, List.singleton_append, List.nodup_cons]
    exact and_iff_left n.branchIds_nodup
  | parameters =>
    obtain ⟨hevent, hpins⟩ := hparameters hcase
    rw [derivedPins, hcase] at hd
    cases hd
    rw [Separates.customEvent_iff hevent, hpins, List.map_map]
    exact Parameter.nodup_pins_iff Parameter.outputPin_eq_iff (by decide)
      (fun p hp => p.outputPin_ne (List.mem_singleton.mp hp)) n.parameters
  | arguments =>
    obtain ⟨hcall, hpins⟩ := harguments hcase
    rw [derivedPins_arguments hcase] at hd
    obtain ⟨target, htarget, hd⟩ := map_ok hd
    rw [Separates.callCustomEvent_iff hcall htarget, hpins, ← hd]
    cases target with
    | none => simp [Node.argumentPins]
    | some event =>
      have hother (p : Parameter) : p.inputPin ∉ ["exec_in", "exec_out"] := by
        simp [p.inputPin_ne, p.inputPin_ne_execIn]
      rw [Node.argumentPins, List.map_map]
      refine (Parameter.nodup_pins_iff Parameter.inputPin_eq_iff (by decide) hother
        event.parameters).trans ?_
      simp

end Graph

/-- The pins of a node of a loaded graph can be told, and any two have different ids if and only if
the node separates what it derives them from. All of them are then found by their ids. -/
theorem pinIds_nodup_iff {document : Value} {g : Graph}
    (hload : Graph.load document Library.catalogue = .ok g) {n : Node} (hn : n ∈ g.nodes)
    (hevent : (n.properties.get "eventId").isReference = true) :
    ∃ ps, g.pinsOf n.id = .ok ps ∧ ((ps.all.map Pin.id).Nodup ↔ g.Separates n) ∧
      (g.Separates n → ∀ p ∈ ps.all, g.findPin? n.id (.text p.id) = .ok (some p)) := by
  have hg := Loaded.of_load hload
  obtain ⟨t, _, ht, _⟩ := Built.of_load hload n hn
  have hnode := hg.node?_of_mem hn rfl
  obtain ⟨ps, hps⟩ := Graph.pinsOf_of_calledEvent? hnode (hg.catalogue.symm ▸ ht)
    (Graph.calledEvent?_ok hevent)
  obtain ⟨t', n', derived, ht', hnode', hd, hperm⟩ := Graph.pinsOf_perm hps
  cases hnode.symm.trans hnode'
  obtain ⟨n', hnode', hfind⟩ := Graph.typeOf_ok_iff.mp ht'
  cases hnode.symm.trans hnode'
  have hid : t'.id = n.definitionId := by simpa using List.find?_some hfind
  have hiff : (ps.all.map Pin.id).Nodup ↔ g.Separates n :=
    (hperm.map Pin.id).nodup_iff.trans (Graph.separates_iff (hg.type_mem ht') hid hd)
  refine ⟨ps, hps, hiff, fun hs p hp => ?_⟩
  rw [Graph.findPin?, hps]
  exact congrArg Except.ok (Graph.PinSet.find?_of_mem (hiff.mpr hs) hp)

/-- An event with two parameters of one id, a call of it, and two sequences: one lists a branch
twice, the other has a branch of the id of its exec input. -/
def sharedPins : Value := Graph.outline
  [("event", "custom_event", [("parameters", .list [
      .object [("id", .text "x"), ("name", .text "A")],
      .object [("id", .text "x"), ("name", .text "B")]])]),
    ("call", "call_custom_event", [("eventId", .text "event")]),
    ("twice", "sequence", [("branches", .list [.text "a", .text " a", .text "b"])]),
    ("steps", "sequence", [("branches", .list [.text "exec_in", .text "b"])])] []

theorem pinIds_nodup_iff_sharedPins : ∃ g n ps,
    Graph.load sharedPins Library.catalogue = .ok g ∧ n ∈ g.nodes ∧ n.id = .text "twice" ∧
    g.pinsOf n.id = .ok ps ∧ ps.all.map Pin.id = ["exec_in", "a", "b"] ∧ g.Separates n ∧
    ∀ p ∈ ps.all, g.findPin? n.id (.text p.id) = .ok (some p) := by
  have heval : ((Graph.load sharedPins Library.catalogue).toOption.any fun g =>
      g.nodes.any fun n => n.id == .text "twice" && (n.properties.get "eventId").isReference &&
        (g.pinsOf n.id).toOption.any fun ps => ps.all.map Pin.id == ["exec_in", "a", "b"]) =
      true := by
    decide +kernel
  obtain ⟨g, hload, heval⟩ := exists_ok_of_any heval
  obtain ⟨n, hn, heval⟩ := List.any_eq_true.mp heval
  obtain ⟨⟨hid, hevent⟩, heval⟩ := by simpa only [Bool.and_eq_true] using heval
  obtain ⟨ps, hps, hids⟩ := exists_ok_of_any heval
  obtain ⟨ps', hps', hiff, hfound⟩ := pinIds_nodup_iff hload hn hevent
  cases hps.symm.trans hps'
  have hids := eq_of_beq hids
  have hs : g.Separates n := hiff.mp (hids ▸ by decide)
  exact ⟨g, n, ps, hload, hn, eq_of_beq hid, hps, hids, hs, hfound hs⟩

/-- The document passes the check and loads, and the other three nodes have two pins of one id. -/
theorem sharedPins_repeated : ∃ g,
    (Document.check (some Library.catalogue) true sharedPins).fault = none ∧
    Graph.load sharedPins Library.catalogue = .ok g ∧
    (∀ n ∈ g.nodes, (n.properties.get "eventId").isReference = true) ∧
    ∀ n ∈ g.nodes, n.id ≠ .text "twice" →
      ∃ ps, g.pinsOf n.id = .ok ps ∧ ¬(ps.all.map Pin.id).Nodup := by
  have haccepted : (Document.check (some Library.catalogue) true sharedPins).fault = none := by
    decide +kernel
  have heval : ((Graph.load sharedPins Library.catalogue).toOption.any fun g =>
      (g.nodes.all fun n => (n.properties.get "eventId").isReference) &&
        g.nodes.all fun n => n.id == .text "twice" ||
          (g.pinsOf n.id).toOption.any fun ps => !decide (ps.all.map Pin.id).Nodup) = true := by
    decide +kernel
  obtain ⟨g, hload, heval⟩ := exists_ok_of_any heval
  obtain ⟨hevents, heval⟩ := Bool.and_eq_true_iff.mp heval
  refine ⟨g, haccepted, hload, List.all_eq_true.mp hevents, fun n hn hid => ?_⟩
  rcases Bool.or_eq_true_iff.mp (List.all_eq_true.mp heval n hn) with h | h
  · exact absurd (eq_of_beq h) hid
  · obtain ⟨ps, hps, hids⟩ := exists_ok_of_any h
    exact ⟨ps, hps, by simpa using hids⟩

end CartGraph
