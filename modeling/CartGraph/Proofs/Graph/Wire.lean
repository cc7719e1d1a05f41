import CartGraph.Graph.Wiring

/-! # What a wire joins

The pins of a node come from its type and from its properties. A wire that passes the wiring rules
joins an output and an input that were found so, of two different nodes, both free: this is said
once here (`Graph.wire_steps`, `Graph.wire_ok`). -/
namespace CartGraph

theorem bind_ok {x : Except ε α} {f : α → Except ε β} {b : β} (h : x >>= f = .ok b) :
    ∃ a, x = .ok a ∧ f a = .ok b := by
  cases x with
  | error e => cases h
  | ok a => exact ⟨a, rfl, h⟩

theorem exists_ok_of_any {x : Except ε α} {p : α → Bool} (h : x.toOption.any p = true) :
    ∃ a, x = .ok a ∧ p a = true := by
  cases x with
  | error e => cases h
  | ok a => exact ⟨a, rfl, h⟩

namespace Connection

theorem enters_iff {c : Connection} {node pin : Key} :
    c.enters node pin = true ↔ c.target = placeOf node pin := by
  simp [enters, target, placeOf]

theorem leaves_iff {c : Connection} {node pin : Key} :
    c.leaves node pin = true ↔ c.source = placeOf node pin := by
  simp [leaves, source, placeOf]

theorem alike_iff {c d : Connection} :
    c.alike d = true ↔ c.source = d.source ∧ c.target = d.target ∧ c.kind = d.kind := by
  simp only [alike, parallel, Bool.and_eq_true, enters_iff, leaves_iff, beq_iff_eq]
  exact and_assoc

theorem touches_iff {c : Connection} {node : Key} :
    c.touches node = true ↔
      c.sourceNode.canonical = node.canonical ∨ c.targetNode.canonical = node.canonical := by
  simp [touches]

end Connection

/-! ## Kinds of parameters -/

namespace Parameter

theorem kindOf_isData (entry : Table) : kindOf entry ≠ .exec ∧ kindOf entry ≠ .table := by
  unfold kindOf
  generalize Kind.ofValue ((entry.get? "type").getD (.text "any")) = kind
  cases kind <;> decide

theorem ofEntry_kind (index : Nat) (used : List String) (v : Value) :
    (ofEntry index used v).kind ≠ .exec ∧ (ofEntry index used v).kind ≠ .table := by
  unfold ofEntry
  dsimp only
  apply kindOf_isData

theorem ofEntries_kind {index : Nat} {used : List String} {items : List Value} {p : Parameter}
    (h : p ∈ ofEntries index used items) : p.kind ≠ .exec ∧ p.kind ≠ .table := by
  induction items generalizing index used with
  | nil => cases h
  | cons v rest ih =>
    rw [ofEntries] at h
    rcases List.mem_cons.mp h with h | h
    · subst h
      exact ofEntry_kind index used v
    · exact ih h

theorem kind_isData {n : Node} {p : Parameter} (h : p ∈ n.parameters) :
    p.kind ≠ .exec ∧ p.kind ≠ .table := by
  unfold Node.parameters ofValue at h
  split at h
  · exact ofEntries_kind h
  · cases h

theorem kind_ne_exec {n : Node} {p : Parameter} (h : p ∈ n.parameters) :
    (Pin.valueOut p.outputPin p.kind p.name).isExec = false := by
  simpa [Pin.isExec, Pin.valueOut] using (kind_isData h).1

end Parameter

/-! ## What a wire joins -/

namespace Graph

/-- A connection joins an output and an input of a graph, of compatible kinds. -/
structure Joins (g : Graph) (c : Connection) (source target : Pin) : Prop where
  sourcePin : c.sourcePin = .text source.id
  targetPin : c.targetPin = .text target.id
  kind : c.kind = connectionKind source target
  foundSource : g.findPin? c.sourceNode (.text source.id) = .ok (some source)
  foundTarget : g.findPin? c.targetNode (.text target.id) = .ok (some target)
  output : source.direction = .output
  input : target.direction = .input
  compatible : source.kind.compatible target.kind = true

theorem Joins.isExec_source {g : Graph} {c : Connection} {source target : Pin}
    (h : Joins g c source target) : c.isExec = source.isExec := by
  have hc := h.compatible
  simp only [Connection.isExec, Pin.isExec, h.kind, connectionKind]
  revert hc
  cases source.kind <;> cases target.kind <;> decide

theorem Joins.isExec_target {g : Graph} {c : Connection} {source target : Pin}
    (h : Joins g c source target) : c.isExec = target.isExec := by
  have hc := h.compatible
  simp only [Connection.isExec, Pin.isExec, h.kind, connectionKind]
  revert hc
  cases source.kind <;> cases target.kind <;> decide

theorem PinSet.find?_text {ps : PinSet} {id : Value} {p : Pin} (h : ps.find? id = some p) :
    id = .text p.id := by
  unfold PinSet.find? at h
  split at h
  · have := List.find?_some h
    simp_all
  · cases h

theorem findPin?_text {g : Graph} {node : Key} {id : Value} {p : Pin}
    (h : g.findPin? node id = .ok (some p)) : id = .text p.id := by
  obtain ⟨ps, _, h⟩ := bind_ok h
  exact PinSet.find?_text (Except.ok.inj h)

theorem endNode_ok {g : Graph} {v : Value} {id : Key} (h : g.endNode v = .ok id) :
    g.hasNode id = true := by
  obtain ⟨k, _, h⟩ := bind_ok h
  split at h
  · exact Except.ok.inj h ▸ ‹_›
  · cases h

theorem pinsFault?_eq_none {source target : Pin} {c : Connection}
    (h : pinsFault? source target c = none) :
    source.direction = .output ∧ target.direction = .input ∧
      source.kind.compatible target.kind = true := by
  unfold pinsFault? at h
  split at h
  · cases h
  · split at h
    · cases h
    · split at h
      · cases h
      · simp_all

theorem occupiedFault?_eq_none {g : Graph} {source : Pin} {c : Connection}
    (h : g.occupiedFault? source c = none) :
    g.incoming? c.targetNode c.targetPin = none ∧
      (source.isExec = true → g.outgoing c.sourceNode c.sourcePin = []) := by
  unfold occupiedFault? at h
  split at h
  · split at h <;> cases h
  · rename_i hi
    split at h
    · cases h
    · refine ⟨hi, fun hx => ?_⟩
      simp_all

/-- The steps of a wire that passes the wiring rules. -/
theorem wire_steps {g : Graph} {sourceNode sourcePin targetNode targetPin : Value} {c : Connection}
    (h : g.wire sourceNode sourcePin targetNode targetPin = .ok c) :
    ∃ s t source target, c = joining s source t target ∧
      g.endNode sourceNode = .ok s ∧ g.endNode targetNode = .ok t ∧ s.canonical ≠ t.canonical ∧
      g.findPin? s sourcePin = .ok (some source) ∧ g.findPin? t targetPin = .ok (some target) ∧
      pinsFault? source target c = none ∧ g.occupiedFault? source c = none := by
  obtain ⟨s, hs, h⟩ := bind_ok h
  obtain ⟨t, ht, h⟩ := bind_ok h
  dsimp only at h
  split at h
  · cases h
  rename_i hst
  obtain ⟨source?, hsp, h⟩ := bind_ok h
  obtain ⟨target?, htp, h⟩ := bind_ok h
  split at h
  · cases h
  · cases h
  rename_i source target _
  split at h
  · cases h
  rename_i hf
  cases h
  obtain ⟨hpins, hfree⟩ := Option.or_eq_none_iff.mp hf
  exact ⟨s, t, source, target, rfl, hs, ht, by simpa using hst, hsp, htp, hpins, hfree⟩

/-- A wire that passes the wiring rules joins two pins that are free, of two nodes. -/
theorem wire_ok {g : Graph} {sourceNode sourcePin targetNode targetPin : Value} {c : Connection}
    (h : g.wire sourceNode sourcePin targetNode targetPin = .ok c) :
    ∃ source target, Joins g c source target ∧
      g.hasNode c.sourceNode = true ∧ g.hasNode c.targetNode = true ∧
      c.sourceNode.canonical ≠ c.targetNode.canonical ∧
      g.incoming? c.targetNode c.targetPin = none ∧
      (source.isExec = true → g.outgoing c.sourceNode c.sourcePin = []) := by
  obtain ⟨s, t, source, target, rfl, hs, ht, hne, hsp, htp, hpins, hfree⟩ := wire_steps h
  obtain ⟨hout, hin, hcompat⟩ := pinsFault?_eq_none hpins
  obtain ⟨hi, ho⟩ := occupiedFault?_eq_none hfree
  refine ⟨source, target, ⟨rfl, rfl, rfl, ?_, ?_, hout, hin, hcompat⟩, endNode_ok hs, endNode_ok ht,
    hne, hi, ho⟩
  · exact findPin?_text hsp ▸ hsp
  · exact findPin?_text htp ▸ htp

/-! ## Types and pins of a node -/

theorem node_ok_iff {g : Graph} {id : Key} {n : Node} : g.node id = .ok n ↔ g.node? id = some n := by
  unfold node
  cases g.node? id <;> simp

theorem require_text_iff {catalogue : Catalogue} {id : String} {node : Value} {t : NodeType} :
    catalogue.require (.text id) node = .ok t ↔ catalogue.find? id = some t := by
  have hn : catalogue.named? (.text id) = .ok (catalogue.find? id) := rfl
  unfold Catalogue.require
  rw [hn]
  cases catalogue.find? id with
  | none => constructor <;> intro h <;> cases h
  | some t' => exact ⟨fun h => congrArg some (Except.ok.inj h), fun h => by cases h; rfl⟩

theorem typeOf_ok_iff {g : Graph} {id : Key} {t : NodeType} :
    g.typeOf id = .ok t ↔
      ∃ n, g.node? id = some n ∧ g.catalogue.find? n.definitionId = some t := by
  constructor
  · intro h
    obtain ⟨n, hn, h⟩ := bind_ok h
    exact ⟨n, node_ok_iff.mp hn, require_text_iff.mp h⟩
  · rintro ⟨n, hn, ht⟩
    unfold typeOf
    rw [node_ok_iff.mpr hn]
    exact require_text_iff.mpr ht

/-- The type of a node is the one that the node names. -/
theorem typeOf_id {g : Graph} {id : Key} {t : NodeType} {n : Node} (ht : g.typeOf id = .ok t)
    (hn : g.node? id = some n) : t.id = n.definitionId := by
  obtain ⟨n', hn', hfind⟩ := typeOf_ok_iff.mp ht
  cases hn.symm.trans hn'
  simpa using List.find?_some hfind

theorem node?_congr {g : Graph} {a b : Key} (h : a.canonical = b.canonical) :
    g.node? a = g.node? b := by
  unfold node?
  congr 1
  funext n
  simp [Key.alike, h]

theorem typeOf_congr {g : Graph} {a b : Key} (h : a.canonical = b.canonical) {t : NodeType} :
    g.typeOf a = .ok t ↔ g.typeOf b = .ok t := by
  rw [typeOf_ok_iff, typeOf_ok_iff, node?_congr h]

theorem find?_mem {catalogue : Catalogue} {id : String} {t : NodeType}
    (h : catalogue.find? id = some t) : t ∈ catalogue.types := List.mem_of_find?_eq_some h

theorem pinsOf_ok {g : Graph} {id : Key} {ps : PinSet} (h : g.pinsOf id = .ok ps) :
    ∃ t n derived, g.typeOf id = .ok t ∧ g.node? id = some n ∧
      g.derivedPins t.definition n = .ok derived ∧
      ps.inputs = t.definition.inputs ++ derived.filter (fun p => p.direction == .input) ∧
      ps.outputs = t.definition.outputs ++ derived.filter (fun p => p.direction == .output) := by
  obtain ⟨t, ht, h⟩ := bind_ok h
  obtain ⟨n, hn, h⟩ := bind_ok h
  obtain ⟨derived, hd, h⟩ := bind_ok h
  cases h
  exact ⟨t, n, derived, ht, node_ok_iff.mp hn, hd, rfl, rfl⟩

/-- The outputs that a node derives: branches, which are exec outputs, or parameters, which are
not. -/
theorem derivedPins_output {g : Graph} {d : Definition} {n : Node} {derived : List Pin}
    (h : g.derivedPins d n = .ok derived) {p : Pin} (hp : p ∈ derived)
    (ho : p.direction = .output) :
    (d.derivedPins = .branches ∧ p.isExec = true) ∨
      (d.derivedPins = .parameters ∧ p.isExec = false ∧ ∃ q ∈ n.parameters, p.id = q.outputPin) := by
  unfold derivedPins at h
  split at h
  · cases h; cases hp
  · rename_i hd
    cases h
    obtain ⟨id, _, rfl⟩ := List.mem_map.mp hp
    exact .inl ⟨hd, rfl⟩
  · rename_i hd
    cases h
    obtain ⟨q, hq, rfl⟩ := List.mem_map.mp hp
    refine .inr ⟨hd, ?_, q, hq, rfl⟩
    exact Parameter.kind_ne_exec hq
  · obtain ⟨target, _, h⟩ := bind_ok h
    split at h
    · cases h
      obtain ⟨q, _, rfl⟩ := List.mem_map.mp hp
      cases ho
    · cases h; cases hp

/-- The inputs that a node derives are arguments of a call, which are not exec inputs. -/
theorem derivedPins_input {g : Graph} {d : Definition} {n : Node} {derived : List Pin}
    (h : g.derivedPins d n = .ok derived) {p : Pin} (hp : p ∈ derived)
    (hi : p.direction = .input) : p.isExec = false := by
  unfold derivedPins at h
  split at h
  · cases h; cases hp
  · cases h
    obtain ⟨id, _, rfl⟩ := List.mem_map.mp hp
    cases hi
  · cases h
    obtain ⟨q, _, rfl⟩ := List.mem_map.mp hp
    cases hi
  · obtain ⟨target, _, h⟩ := bind_ok h
    split at h
    · cases h
      obtain ⟨q, hq, rfl⟩ := List.mem_map.mp hp
      exact Parameter.kind_ne_exec hq
    · cases h; cases hp

theorem findPin?_mem {g : Graph} {node : Key} {id : Value} {p : Pin}
    (h : g.findPin? node id = .ok (some p)) :
    ∃ ps, g.pinsOf node = .ok ps ∧ (p ∈ ps.inputs ∨ p ∈ ps.outputs) := by
  obtain ⟨ps, hps, h⟩ := bind_ok h
  refine ⟨ps, hps, ?_⟩
  have h' : ps.find? id = some p := Except.ok.inj h
  unfold PinSet.find? at h'
  split at h'
  · exact List.mem_append.mp (List.mem_of_find?_eq_some h')
  · cases h'

structure PinSet.Sided (ps : PinSet) : Prop where
  inputs : ∀ p ∈ ps.inputs, p.direction = .input
  outputs : ∀ p ∈ ps.outputs, p.direction = .output

theorem pinsOf_sided {g : Graph} {node : Key} {ps : PinSet} {t : NodeType}
    (h : g.pinsOf node = .ok ps) (ht : g.typeOf node = .ok t)
    (hin : ∀ q ∈ t.definition.inputs, q.direction = .input)
    (hout : ∀ q ∈ t.definition.outputs, q.direction = .output) : ps.Sided := by
  obtain ⟨t', n, derived, ht', _, _, hinputs, houtputs⟩ := pinsOf_ok h
  cases ht.symm.trans ht'
  constructor
  · intro p hp
    rw [hinputs] at hp
    rcases List.mem_append.mp hp with hp | hp
    · exact hin p hp
    · simpa using (List.mem_filter.mp hp).2
  · intro p hp
    rw [houtputs] at hp
    rcases List.mem_append.mp hp with hp | hp
    · exact hout p hp
    · simpa using (List.mem_filter.mp hp).2

/-- An output of a node is a listed output of its type, a branch or a parameter. -/
theorem pinsOf_output {g : Graph} {node : Key} {ps : PinSet} {p : Pin} {t : NodeType}
    (h : g.pinsOf node = .ok ps) (hp : p ∈ ps.outputs) (ht : g.typeOf node = .ok t) :
    p ∈ t.definition.outputs ∨ (t.definition.derivedPins = .branches ∧ p.isExec = true) ∨
      (t.definition.derivedPins = .parameters ∧ p.isExec = false ∧
        ∃ n, g.node? node = some n ∧ ∃ q ∈ n.parameters, p.id = q.outputPin) := by
  obtain ⟨t', n, derived, ht', hn, hd, _, houtputs⟩ := pinsOf_ok h
  cases ht.symm.trans ht'
  rw [houtputs] at hp
  rcases List.mem_append.mp hp with hp | hp
  · exact .inl hp
  · obtain ⟨hp, ho⟩ := List.mem_filter.mp hp
    rcases derivedPins_output hd hp (by simpa using ho) with h | ⟨hd, hx, q⟩
    · exact .inr (.inl h)
    · exact .inr (.inr ⟨hd, hx, n, hn, q⟩)

/-- An exec input of a node is listed by its type. -/
theorem pinsOf_execInput {g : Graph} {node : Key} {ps : PinSet} {p : Pin} {t : NodeType}
    (h : g.pinsOf node = .ok ps) (hp : p ∈ ps.inputs) (ht : g.typeOf node = .ok t)
    (hx : p.isExec = true) : p ∈ t.definition.inputs := by
  obtain ⟨t', n, derived, ht', hn, hd, hinputs, _⟩ := pinsOf_ok h
  cases ht.symm.trans ht'
  rw [hinputs] at hp
  rcases List.mem_append.mp hp with hp | hp
  · exact hp
  · obtain ⟨hp, hi⟩ := List.mem_filter.mp hp
    rw [derivedPins_input hd hp (by simpa using hi)] at hx
    cases hx

end Graph

/-! ## Exec outputs -/

namespace Definition

/-- Whether an output of the type is an exec output, whatever the properties of the node. -/
def execOutput (d : Definition) (pin : Key) : Bool :=
  d.derivedPins == .branches || d.outputs.any fun p => p.isExec && pin.alike p.id

theorem execOutput_congr (d : Definition) {a b : Key} (h : a.canonical = b.canonical) :
    d.execOutput a = d.execOutput b := by
  simp [execOutput, Key.alike, h]

/-- What makes `execOutput` right: listed pins are on their sides, outputs of one id are alike,
and a derived output is not mistaken for a listed one of the other sort. -/
structure Steady (d : Definition) : Prop where
  inputs : ∀ p ∈ d.inputs, p.direction = .input
  sides : ∀ p ∈ d.outputs, p.direction = .output
  outputs : ∀ p ∈ d.outputs, ∀ q ∈ d.outputs, p.id = q.id → p.isExec = q.isExec
  branches : d.derivedPins = .branches → ∀ p ∈ d.outputs, p.isExec = true
  parameters : d.derivedPins = .parameters → ∀ p ∈ d.outputs, p.isExec = true → p.id = "exec_out"

end Definition

theorem Parameter.outputPin_ne (p : Parameter) : p.outputPin ≠ "exec_out" := by
  intro h
  have hl := congrArg String.toList h
  simp [outputPin] at hl

/-- Whether an output of a node is an exec output depends on its id and the type of the node. -/
theorem Graph.findPin?_isExec {g : Graph} {node : Key} {p : Pin} {t : NodeType}
    (h : g.findPin? node (.text p.id) = .ok (some p)) (ho : p.direction = .output)
    (ht : g.typeOf node = .ok t) (hs : t.definition.Steady) :
    p.isExec = t.definition.execOutput (.text p.id) := by
  obtain ⟨ps, hps, hp⟩ := findPin?_mem h
  have hsided := pinsOf_sided hps ht hs.inputs hs.sides
  have hp : p ∈ ps.outputs := by
    rcases hp with hp | hp
    · rw [hsided.inputs p hp] at ho; cases ho
    · exact hp
  unfold Definition.execOutput
  rcases pinsOf_output hps hp ht with hp | ⟨hd, hx⟩ | ⟨hd, hx, n, _, q, _, hq⟩
  · by_cases hb : t.definition.derivedPins = .branches
    · simp [hb, hs.branches hb p hp]
    · cases hx : p.isExec with
      | true => exact (Bool.or_eq_true_iff.mpr (.inr (List.any_eq_true.mpr ⟨p, hp, by simp [hx]⟩))).symm
      | false =>
        symm
        simp only [Bool.or_eq_false_iff, beq_eq_false_iff_ne, List.any_eq_false]
        refine ⟨hb, fun r hr hrx => ?_⟩
        obtain ⟨hr', hid⟩ := Bool.and_eq_true_iff.mp hrx
        have hid : p.id = r.id := by simpa using hid
        have := hs.outputs p hp r hr hid
        rw [hx, hr'] at this
        cases this
  · simp [hd, hx]
  · rw [hx]
    symm
    simp only [Bool.or_eq_false_iff, beq_eq_false_iff_ne, List.any_eq_false]
    refine ⟨by simp [hd], fun r hr hrx => ?_⟩
    obtain ⟨hr', hid⟩ := Bool.and_eq_true_iff.mp hrx
    have hid : p.id = r.id := by simpa using hid
    exact q.outputPin_ne (hq ▸ hid.trans (hs.parameters hd r hr hr'))

end CartGraph
