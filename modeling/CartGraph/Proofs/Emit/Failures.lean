import CartGraph.Proofs.Emit.CallSites
import CartGraph.Proofs.Emit.Runs
import CartGraph.Proofs.Lua.Arguments

/-! # Why reading values fails

A value that can not be read is a fault of the graph, told of one of its nodes, or a setting that is
of no use. Two faults of the walk itself do not occur: a way through the graph is never longer than
the graph has nodes, and a call of the console never lacks a placeholder. One thing that is no fault
of a node does: a call of an event may lack the pin of a parameter. -/
namespace CartGraph

/-- A step that fails only in a certain way. -/
def Emit.Raises (P : Error → Prop) (m : Emit α) : Prop := ∀ s e, (m s).1 = .error e → P e

namespace Emit.Raises

variable {P : Error → Prop}

theorem pure (a : α) : Raises P (Pure.pure a : Emit α) := by
  intro s e h
  cases h

theorem lift {r : Except Error α} (h : ∀ e, r = .error e → P e) : Raises P (Emit.lift r) := by
  intro s e he
  exact h e he

theorem fail {e : Error} (h : P e) : Raises P (Emit.fail e : Emit α) := by
  intro s e' he
  cases he
  exact h

theorem record (v : Visit) : Raises P (Emit.record v) := by
  intro s e h
  cases h

theorem withSymbols (f : SymbolTable → α × SymbolTable) : Raises P (Emit.withSymbols f) := by
  intro s e h
  cases h

/-- What follows a step may rely on what the step answered. -/
theorem bind_of {m : Emit α} {f : α → Emit β} (hm : Raises P m)
    (hf : ∀ s a s', m s = (.ok a, s') → Raises P (f a)) : Raises P (m >>= f) := by
  intro s e he
  change (Emit.bind m f s).1 = .error e at he
  unfold Emit.bind at he
  rcases hms : m s with ⟨e' | a, s₁⟩ <;> rw [hms] at he
  · cases he
    exact hm s e (by rw [hms])
  · exact hf s a s₁ hms s₁ e he

theorem bind {m : Emit α} {f : α → Emit β} (hm : Raises P m) (hf : ∀ a, Raises P (f a)) :
    Raises P (m >>= f) := hm.bind_of fun _ a _ _ => hf a

/-- What would follow a failure does not matter. -/
theorem fail_bind {e : Error} (h : P e) (f : α → Emit β) : Raises P (Emit.fail e >>= f) := by
  intro s e' he
  cases he
  exact h

theorem mono {Q : Error → Prop} {m : Emit α} (hm : Raises P m) (h : ∀ e, P e → Q e) :
    Raises Q m := by
  intro s e he
  exact h e (hm s e he)

/-- A block can be closed if the enclosing ones are as they were. -/
theorem inBlock {m : Emit α} (hm : Raises P m) (hk : m.Within Progress.Extends) :
    Raises P m.inBlock := by
  intro s e he
  rw [Emit.inBlock_eq (hk s.opened)] at he
  exact hm _ e he

theorem bindOutput (node pin : Key) (name : Option String) :
    Raises P (Emit.bindOutput node pin name) := by
  unfold Emit.bindOutput
  dsimp only
  split
  · exact bind (pure _) fun _ => withSymbols _
  · exact bind (withSymbols _) fun _ => withSymbols _

end Emit.Raises

/-! ## Faults -/

/-- A connection leads from a node to an input of another, and not the one that it is entered by.
Nodes are in canonical form. -/
def Graph.Supplies (g : Graph) (a b : Key) : Prop :=
  ∃ w ∈ g.connections, w.targetPin.canonical ≠ .text "exec_in" ∧ w.sourceNode.canonical = a ∧
    w.targetNode.canonical = b

/-- What a node needs comes from itself in the end. -/
def Graph.SuppliesItself (g : Graph) (n : Key) : Prop :=
  Relation.TransGen g.Supplies n.canonical n.canonical

inductive Compilation.Faults (c : Compilation) : Error → Prop
  /-- A fault that is told of a node of the graph. -/
  | node {e : CompileError} {node : Key} (hn : c.graph.hasNode node = true) (he : e.nodeId = node)
    (hx : ∀ v, e ≠ .cycle v "exec") (hv : ∀ v, e = .cycle v "value" → c.graph.SuppliesItself node) :
    Faults c (.compile e)
  | setting {e : Error} (h : c.settings.Unusable e) : Faults c e

/-- A fault of a node other than a cycle. -/
theorem Compilation.Faults.plain {c : Compilation} {e : CompileError} {node : Key}
    (hn : c.graph.hasNode node = true) (he : e.nodeId = node)
    (hx : ∀ v relation, e ≠ .cycle v relation) : c.Faults (.compile e) :=
  .node hn he (fun v => hx v _) fun v h => absurd h (hx v _)

inductive Compilation.SiteFaults (c : Compilation) (node : Key) : Error → Prop
  | read {e : Error} (h : c.Faults e) : SiteFaults c node e
  /-- The statement is a call of an event that lacks the pin of a parameter. -/
  | lacking {n : Node} {target : Value} {signature : Signature} {p : Parameter}
    (hst : c.graph.statement? node = some .callEvent) (hn : c.graph.node? node = some n)
    (ht : c.property node "eventId" .null = .ok target) (he : c.event? target = some signature)
    (hp : p ∈ signature.parameters) (hpin : c.graph.findPin? node (.text p.inputPin) = .ok none) :
    SiteFaults c node (.noSuchPin n.definitionId p.inputPin)

def Evaluate.Faults (c : Compilation) (eval : Evaluate) : Prop :=
  ∀ node pin, c.graph.hasNode node = true → (eval node pin).Raises c.Faults

/-- Evaluating what the wire of an input brings fails only by a fault. -/
def Compilation.Brings (c : Compilation) (eval : Evaluate) (node pin : Key) : Prop :=
  ∀ w, c.graph.incoming? node pin = some w → (eval w.sourceNode w.sourcePin).Raises c.Faults

namespace Compilation

variable {c : Compilation} {node : Key} {e : Error}

theorem typeOf_error (hn : c.graph.hasNode node = true) (h : c.graph.typeOf node = .error e) :
    c.Faults e := by
  obtain ⟨n, hmem, definition, rfl⟩ := Graph.typeOf_error hn h
  exact .plain (Loaded.hasNode_iff.mpr (List.mem_map_of_mem hmem)) rfl nofun

theorem literal_error {kind : Kind} {v : Value} {key : String} (hn : c.graph.hasNode node = true)
    (h : c.literal node kind v key = .error e) : c.Faults e := by
  unfold literal at h
  split at h
  · cases h
  · cases h
    exact .plain hn rfl nofun
  · rename_i hne he
    obtain ⟨key', v', reason, rfl⟩ := Lua.literal_error he
    exact absurd rfl (hne _ _ _)

theorem comparison_error {v : Value} (hn : c.graph.hasNode node = true)
    (h : c.comparison node v = .error e) : c.Faults e := by
  unfold comparison at h
  cases hc : Lua.comparison v node with
  | ok text =>
    rw [hc] at h
    cases h
  | error e' =>
    rw [hc] at h
    cases h
    unfold Lua.comparison at hc
    generalize Text.strip _ = operator at hc
    dsimp only at hc
    split at hc <;> cases hc
    exact .plain hn rfl nofun

theorem checkLimit_error {name : String} {limit : Value} {count : Int}
    (hl : (∀ n, limit ≠ .int n) → c.settings.Unusable (.limitNotANumber name))
    (hn : c.graph.hasNode node = true) (h : checkLimit name limit count node = .error e) :
    c.Faults e := by
  rcases bind_error h with h | ⟨b, _, h⟩
  · obtain ⟨rfl, hlimit⟩ := Settings.passes_error h
    exact .setting (hl hlimit)
  · cases b with
    | false => cases h
    | true =>
      cases h
      exact .plain hn rfl nofun

theorem checkDepth_raises (depth : Int) (hn : c.graph.hasNode node = true) :
    (c.checkDepth depth node).Raises c.Faults :=
  .lift fun _ h => checkLimit_error .depth hn h

theorem tick_raises (hn : c.graph.hasNode node = true) : (c.tick node).Raises c.Faults := by
  intro s e h
  exact checkLimit_error .steps hn h

theorem boundOutput_raises (pin reader : Key) (hn : c.graph.hasNode node = true) :
    (Emit.boundOutput node pin reader).Raises c.Faults := by
  intro s e h
  unfold Emit.boundOutput at h
  dsimp only at h
  split at h
  · cases h
  · cases h
    exact .plain hn rfl nofun

section

variable (hr : Represented c.graph)
include hr

theorem property_error {key : Key} {fallback : Value} (hn : c.graph.hasNode node = true)
    (h : c.property node key fallback = .error e) : c.Faults e := by
  rcases bind_error h with h | ⟨t, ht, h⟩
  · exact typeOf_error hn h
  obtain ⟨n, hnode⟩ := Option.isSome_iff_exists.mp hn
  rcases bind_error h with h | ⟨n', _, h⟩
  · rw [Graph.node_ok_iff.mpr hnode] at h
    cases h
  dsimp only at h
  split at h
  · cases h
  rename_i p hp
  rcases bind_error h with h | ⟨_, _, h⟩
  · have hmem : p ∈ t.definition.properties := List.mem_of_find?_eq_some hp
    obtain ⟨reason, rfl⟩ :=
      Property.check_error (Library.optionTexts_isSome t (hr.type_mem ht) p hmem) h
    exact .plain hn rfl nofun
  · cases h

theorem nameProperty_error {key fallback : String} (hn : c.graph.hasNode node = true)
    (h : c.nameProperty node key fallback = .error e) : c.Faults e := by
  rcases bind_error h with h | ⟨v, _, h⟩
  · exact property_error hr hn h
  · cases h

omit hr in
theorem variableName_error (hn : c.graph.hasNode node = true)
    (h : c.variableName node = .error e) : c.Faults e := by
  obtain ⟨n, hnode⟩ := Option.isSome_iff_exists.mp hn
  unfold variableName at h
  rw [Graph.node_ok_iff.mpr hnode] at h
  rcases bind_error h with h | ⟨n', _, h⟩
  · cases h
  · dsimp only at h
    split at h <;> cases h

/-! ## Inputs -/

omit hr in
/-- An input that has a pin is at fault only as a literal, or if it is required. -/
theorem unwired_error {pin : Key} {p : Pin} (hn : c.graph.hasNode node = true)
    (hp : c.graph.findPin? node pin = .ok (some p)) (h : c.unwired node pin = .error e) :
    c.Faults e := by
  obtain ⟨n, hnode⟩ := Option.isSome_iff_exists.mp hn
  unfold unwired at h
  rw [hp, Graph.node_ok_iff.mpr hnode] at h
  simp only [bind, Except.bind] at h
  split at h
  · split at h
    · cases h
      exact literal_error hn ‹_›
    · cases h
  split at h
  · split at h
    · cases h
      exact literal_error hn ‹_›
    · cases h
  split at h
  · cases h
    exact .plain hn rfl nofun
  · cases h

omit hr in
/-- An input is empty only if its pin has no default. -/
theorem unwired_none {pin : Key} (h : c.unwired node pin = .ok none) :
    ∃ p, c.graph.findPin? node pin = .ok (some p) ∧ p.default.isNull = true := by
  obtain ⟨p, hp, h⟩ := CartGraph.bind_ok h
  obtain ⟨n, _, h⟩ := CartGraph.bind_ok h
  cases p with
  | none => cases h
  | some p =>
    refine ⟨p, hp, ?_⟩
    simp only [bind, Except.bind] at h
    split at h
    · split at h <;> cases h
    split at h
    · split at h <;> cases h
    rename_i hdefault
    simpa using hdefault

theorem wire_hasNode {pin : Key} {w : Connection} (h : c.graph.incoming? node pin = some w) :
    c.graph.hasNode w.sourceNode = true :=
  (hr.ends w ((hr.incoming _ _).mp h).1).1

omit hr in
theorem inputs_none {eval : Evaluate} {pins : List Key} {texts : List (Option String)}
    {s s' : Progress} (h : (c.inputs eval node pins) s = (.ok texts, s')) :
    List.Forall₂ (fun (pin : Key) text => text = none →
      ∃ p, c.graph.findPin? node pin = .ok (some p) ∧ p.default.isNull = true) pins texts := by
  induction pins generalizing s texts with
  | nil =>
    cases h
    exact .nil
  | cons pin pins ih =>
    obtain ⟨text, s₁, hi, h⟩ := Emit.bind_ok h
    obtain ⟨rest, s₂, hrest, h⟩ := Emit.bind_ok h
    cases h
    refine .cons ?_ (ih hrest)
    rintro rfl
    unfold input at hi
    cases hw : c.graph.incoming? node pin with
    | some w =>
      rw [hw] at hi
      obtain ⟨_, _, _, hi⟩ := Emit.bind_ok hi
      cases hi
    | none =>
      rw [hw] at hi
      exact unwired_none (Emit.lift_ok hi).1

end

theorem input_raises {eval : Evaluate} {pin : Key} (hb : c.Brings eval node pin)
    {P : Error → Prop} (hP : ∀ e, c.Faults e → P e)
    (hu : ∀ e, c.unwired node pin = .error e → P e) : (c.input eval node pin).Raises P := by
  unfold input
  split
  · rename_i w hw
    exact ((hb w hw).mono hP).bind fun _ => .pure _
  · exact .lift hu

end Compilation

/-- The pins that a type lists are found, unless what a node calls decides on its pins. -/
theorem Graph.findPin?_input {g : Graph} {node : Key} {t : NodeType} {pin : String}
    (ht : g.typeOf node = .ok t) (hd : t.definition.derivedPins ≠ .arguments)
    (hp : ∃ p ∈ t.definition.inputs, p.id = pin) :
    ∃ p ∈ t.definition.inputs, p.id = pin ∧ g.findPin? node (.text pin) = .ok (some p) := by
  obtain ⟨n, hn, _⟩ := typeOf_ok_iff.mp ht
  obtain ⟨derived, hderived⟩ : ∃ derived, g.derivedPins t.definition n = .ok derived := by
    unfold derivedPins
    split
    · exact ⟨_, rfl⟩
    · exact ⟨_, rfl⟩
    · exact ⟨_, rfl⟩
    · contradiction
  obtain ⟨p, hfind⟩ : ∃ p, t.definition.inputs.find? (fun p => p.id == pin) = some p := by
    obtain ⟨q, hq, rfl⟩ := hp
    exact Option.isSome_iff_exists.mp (List.find?_isSome.mpr ⟨q, hq, by simp⟩)
  have hid : p.id = pin := by simpa using List.find?_some hfind
  refine ⟨p, List.mem_of_find?_eq_some hfind, hid, ?_⟩
  simp [findPin?, pinsOf, ht, node_ok_iff.mpr hn, hderived, PinSet.find?, PinSet.all,
    List.find?_append, hfind, bind, Except.bind, pure, Except.pure]

namespace Compilation

/-! ## Nodes of a type -/

section

variable {c : Compilation} {node : Key} {eval : Evaluate} {t : NodeType}
  (ht : c.graph.typeOf node = .ok t) (hd : t.definition.derivedPins ≠ .arguments)
include ht hd

theorem listed_raises {pin : String} (hb : c.Brings eval node pin)
    (hp : ∃ p ∈ t.definition.inputs, p.id = pin) : (c.input eval node pin).Raises c.Faults := by
  obtain ⟨n, hn, _⟩ := Graph.typeOf_ok_iff.mp ht
  obtain ⟨p, _, _, hfind⟩ := Graph.findPin?_input ht hd hp
  exact input_raises hb (fun _ h => h) fun e he =>
    @unwired_error c node e pin p (Option.isSome_of_eq_some hn) hfind he

theorem listedOr_raises {pin : String} (hb : c.Brings eval node pin)
    (hp : ∃ p ∈ t.definition.inputs, p.id = pin) (fallback : String) :
    (c.inputOr eval node pin fallback).Raises c.Faults :=
  (listed_raises ht hd hb hp).bind fun _ => .pure _

theorem inputs_raises {pins : List String} (hb : ∀ pin ∈ pins, c.Brings eval node (.text pin))
    (hp : ∀ pin ∈ pins, ∃ p ∈ t.definition.inputs, p.id = pin) :
    (c.inputs eval node (pins.map Key.text)).Raises c.Faults := by
  induction pins with
  | nil => exact .pure _
  | cons pin pins ih =>
    obtain ⟨hpin, hpins⟩ := List.forall_mem_cons.mp hp
    obtain ⟨hbrings, hb⟩ := List.forall_mem_cons.mp hb
    exact (listed_raises ht hd hbrings hpin).bind fun _ => (ih hb hpins).bind fun _ => .pure _

/-- A call whose slots have placeholders, the last one aside, or pins with a default. -/
theorem slotArguments_raises {slots : List Slot}
    (hb : ∀ pin ∈ slots.map Slot.pin, c.Brings eval node (.text pin))
    (hp : ∀ pin ∈ slots.map Slot.pin, ∃ p ∈ t.definition.inputs, p.id = pin)
    (hf : ∀ slot ∈ slots.dropLast, t.definition.Fills slot) :
    (c.slotArguments eval node slots).Raises c.Faults := by
  have hpins : (slots.map fun slot => Key.text slot.pin) = (slots.map Slot.pin).map Key.text := by
    rw [List.map_map]
    rfl
  unfold slotArguments callArguments
  rw [hpins]
  refine (inputs_raises ht hd hb hp).bind_of fun s texts s' hs => .lift fun e he => ?_
  have hnone := inputs_none hs
  rw [List.forall₂_map_left_iff, List.forall₂_map_left_iff] at hnone
  have hlength : slots.length = texts.length := hnone.length_eq
  -- only the last slot has neither a placeholder nor a default, and it is dropped if it is empty
  obtain ⟨args, hargs⟩ := @Lua.arguments_ok _ texts (slots.map Slot.placeholder) (by simp [hlength])
    fun i hi htext => by
      obtain ⟨htexts, htext⟩ := List.getElem?_eq_some_iff.mp htext
      have hslots : i < slots.length := by omega
      rw [List.getElem?_map, List.getElem?_eq_getElem hslots]
      cases hplaceholder : slots[i].placeholder with
      | some a => exact ⟨a, congrArg some hplaceholder⟩
      | none =>
        obtain ⟨p, hfind, hnull⟩ := hnone.get hslots htexts htext
        have hmem : slots[i] ∈ slots.dropLast := by
          refine List.mem_of_getElem? (i := i) ?_
          simp [List.getElem?_dropLast, hslots]
          omega
        obtain ⟨q, hq, hid, hfind'⟩ :=
          Graph.findPin?_input ht hd (hp _ (List.mem_map_of_mem (List.getElem_mem hslots)))
        cases hfind.symm.trans hfind'
        rw [hf _ hmem hplaceholder p hq hid] at hnull
        cases hnull
  rw [hargs] at he
  cases he

end

end Compilation

section

variable {c : Compilation} {eval : Evaluate} (hr : Represented c.graph)
include hr

theorem Expression.emit_raises {node pin reader : Key} {t : NodeType} {e : Expression}
    (ht : c.graph.typeOf node = .ok t) (he : t.expression? = some e)
    (hb : ∀ pin ∈ e.inputs, c.Brings eval node (.text pin)) :
    (e.emit c eval node pin reader).Raises c.Faults := by
  obtain ⟨n, hnode, _⟩ := Graph.typeOf_ok_iff.mp ht
  have hn : c.graph.hasNode node = true := Option.isSome_of_eq_some hnode
  have hmem := hr.type_mem ht
  have hd : t.definition.derivedPins ≠ .arguments := fun hd => by
    rw [Library.arguments_expression t hmem hd] at he
    cases he
  have hinputs := Library.expression_inputs t hmem e he
  have input {pin : String} (hp : pin ∈ e.inputs) (fallback : String) :
      (c.inputOr eval node pin fallback).Raises c.Faults :=
    Compilation.listedOr_raises ht hd (hb pin hp) (hinputs pin hp) fallback
  cases e with
  | globalName => exact .lift fun _ h => Compilation.variableName_error hn h
  | localName => exact .lift fun _ h => Compilation.nameProperty_error hr hn h
  | literal kind =>
    refine .lift fun e h => ?_
    rcases bind_error h with h | ⟨v, _, h⟩
    · exact Compilation.property_error hr hn h
    · exact Compilation.literal_error hn h
  | binary operator identity =>
    exact (input (by simp [inputs]) identity).bind fun _ =>
      (input (by simp [inputs]) identity).bind fun _ => .pure _
  | compare =>
    exact (Emit.Raises.lift fun _ h => Compilation.property_error hr hn h).bind fun _ =>
      (Emit.Raises.lift fun _ h => Compilation.comparison_error hn h).bind fun _ =>
      (input (by simp [inputs]) "0").bind fun _ =>
      (input (by simp [inputs]) "0").bind fun _ => .pure _
  | apply function argument fallback =>
    exact (input (by simp [inputs, pins]) fallback).bind fun _ => .pure _
  | call function slots =>
    exact (Compilation.slotArguments_raises ht hd hb hinputs
      (Library.expression_slots t hmem _ he)).bind fun _ => .pure _
  | bound output =>
    cases output with
    | none => exact Compilation.boundOutput_raises pin reader hn
    | some output => exact Compilation.boundOutput_raises output reader hn

theorem Evaluate.Faults.brings (heval : eval.Faults c) (node pin : Key) :
    c.Brings eval node pin := fun _ hw => heval _ _ (Compilation.wire_hasNode hr hw)

variable (heval : eval.Faults c)
include heval

theorem Site.localValue_raises {s : Site} (hn : c.graph.hasNode s.node = true) (kind : Kind) :
    (s.localValue c eval kind).Raises c.Faults := by
  unfold localValue
  split
  · rename_i w hw
    exact heval _ _ (Compilation.wire_hasNode hr hw)
  · refine .lift fun e h => ?_
    rcases bind_error h with h | ⟨v, _, h⟩
    · exact Compilation.property_error hr hn h
    · split at h
      · cases h
      · exact Compilation.literal_error hn h

/-- The arguments of an event are read without fault, unless the call lacks a pin. -/
theorem Site.eventSlots_raises {s : Site} {n : Node} {target : Value} {signature : Signature}
    (hst : c.graph.statement? s.node = some .callEvent) (hn : c.graph.node? s.node = some n)
    (ht : c.property s.node "eventId" .null = .ok target) (he : c.event? target = some signature)
    {ps : List Parameter} (hps : ∀ p ∈ ps, p ∈ signature.parameters) :
    (s.eventSlots c eval ps).Raises (c.SiteFaults s.node) := by
  obtain ⟨t, hmem, htype, hst'⟩ := hr.statement_mem hst
  cases Library.callEvent_type hmem hst'
  have hpins (p : Parameter) : ∃ found, c.graph.findPin? s.node (.text p.inputPin) = .ok found := by
    unfold Compilation.event? at he
    split at he
    · exact ⟨_, Graph.findPin?_call htype hn (Compilation.calledEvent?_of_property htype hn ht) p⟩
    · cases he
  induction ps with
  | nil => exact .pure _
  | cons p ps ih =>
    obtain ⟨hp, hps⟩ := List.forall_mem_cons.mp hps
    have hinput : (c.input eval s.node p.inputPin).Raises (c.SiteFaults s.node) := by
      refine Compilation.input_raises (heval.brings hr _ _) (fun _ => .read) fun e hu => ?_
      obtain ⟨found, hfound⟩ := hpins p
      cases found with
      | some pin =>
        exact .read (@Compilation.unwired_error c s.node e p.inputPin pin
          (Option.isSome_of_eq_some hn) hfound hu)
      | none =>
        unfold Compilation.unwired at hu
        rw [show c.graph.findPin? s.node (Key.text p.inputPin) = _ from hfound,
          Graph.node_ok_iff.mpr hn] at hu
        cases hu
        exact .lacking hst hn ht he hp hfound
    exact hinput.bind fun _ => (ih hps).bind fun _ => .pure _

/-- Statements other than calls of events. -/
theorem Statement.gather_faults {s : Site} {st : Statement}
    (hst : c.graph.statement? s.node = some st) (hne : st ≠ .callEvent) :
    (st.gather c eval s).Raises c.Faults := by
  obtain ⟨t, hmem, ht, hst'⟩ := hr.statement_mem hst
  obtain ⟨n, hnode, _⟩ := Graph.typeOf_ok_iff.mp ht
  have hn : c.graph.hasNode s.node = true := Option.isSome_of_eq_some hnode
  have hinputs := Library.statement_inputs t hmem st hst'
  have hd : t.definition.derivedPins ≠ .arguments := fun hd => by
    rw [(Library.arguments_iff t hmem).mp hd] at hst'
    exact hne (Option.some.inj hst').symm
  have input {pin : String} (hp : pin ∈ st.inputs) (fallback : String) :
      (c.inputOr eval s.node pin fallback).Raises c.Faults :=
    Compilation.listedOr_raises ht hd (heval.brings hr _ _) (hinputs pin hp) fallback
  cases st with
  | callEvent => contradiction
  | follow => exact .pure _
  | openEvent =>
    unfold gather
    dsimp only
    split <;> exact .pure _
  | branch => exact (input (by simp [inputs]) "false").bind fun _ => .pure _
  | loop =>
    exact (Emit.Raises.lift fun _ h => Compilation.nameProperty_error hr hn h).bind fun _ =>
      (input (by simp [inputs]) "0").bind fun _ => (input (by simp [inputs]) "0").bind fun _ =>
      (input (by simp [inputs]) "1").bind fun _ => .pure _
  | sequence =>
    obtain ⟨ps, hps⟩ : ∃ ps, c.graph.pinsOf s.node = .ok ps := by
      have hb := (Library.sequence_iff t hmem _ hst').mpr rfl
      simp [Graph.pinsOf, ht, Graph.node_ok_iff.mpr hnode, Graph.derivedPins, hb, bind, Except.bind,
        pure, Except.pure]
    refine (Emit.Raises.lift fun e h => ?_).bind fun _ => .pure _
    rw [hps] at h
    cases h
  | assign =>
    exact (input (by simp [inputs]) "nil").bind fun _ =>
      (Emit.Raises.lift fun _ h => Compilation.variableName_error hn h).bind fun _ => .pure _
  | declare =>
    exact (Emit.Raises.lift fun _ h => Compilation.nameProperty_error hr hn h).bind fun _ =>
      (Emit.Raises.lift fun _ h => Compilation.property_error hr hn h).bind fun _ =>
      (s.localValue_raises hr heval hn _).bind fun _ => .pure _
  | call function slots =>
    exact (Compilation.slotArguments_raises ht hd (fun _ _ => heval.brings hr _ _) hinputs
      (Library.statement_slots t hmem _ hst')).bind fun _ => .pure _
  | resume =>
    refine (Compilation.listed_raises ht hd (heval.brings hr _ _)
      (hinputs _ (by simp [inputs]))).bind
      fun _ => Emit.Raises.bind ?_ fun _ => .pure _
    have hrest : ∀ pin ∈ ["arg1", "arg2"], ∃ p ∈ t.definition.inputs, p.id = pin :=
      fun pin hp => hinputs pin (.tail _ hp)
    refine (Compilation.inputs_raises ht hd (fun _ _ => heval.brings hr _ _) hrest).bind_of
      fun _ texts _ htexts => .lift fun e h => ?_
    have hlength : 2 = texts.length := (Compilation.inputs_none htexts).length_eq
    rw [Lua.arguments_same (a := "nil") (by simp [← hlength]) (by simp)] at h
    cases h

theorem Statement.gather_raises {s : Site} {st : Statement}
    (hst : c.graph.statement? s.node = some st) :
    (st.gather c eval s).Raises (c.SiteFaults s.node) := by
  by_cases hne : st = .callEvent
  · subst hne
    obtain ⟨t, _, ht, _⟩ := hr.statement_mem hst
    obtain ⟨n, hnode, _⟩ := Graph.typeOf_ok_iff.mp ht
    have hn : c.graph.hasNode s.node = true := Option.isSome_of_eq_some hnode
    refine (Emit.Raises.lift fun _ h => .read (Compilation.property_error hr hn h)).bind_of
      fun _ target _ htarget => ?_
    split
    · exact .pure _
    · rename_i signature he
      refine (Site.eventSlots_raises hr heval hst hnode (Emit.lift_ok htarget).1 he
        fun _ hp => hp).bind fun slots => (Emit.Raises.lift fun e h => ?_).bind fun _ => .pure _
      rw [Lua.arguments_same (a := "nil") (by simp) (by simp)] at h
      cases h
  · exact (Statement.gather_faults hr heval hst hne).mono fun _ => .read

end

/-! ## Ways through a graph -/

/-- A way through a graph: nodes of the graph in canonical form, each once. -/
structure Graph.Way (g : Graph) (path : List Key) : Prop where
  nodup : path.Nodup
  nodes : path ⊆ g.ids

namespace Graph.Way

variable {g : Graph} {path : List Key}

theorem nil (g : Graph) : g.Way [] := ⟨.nil, List.nil_subset _⟩

theorem cons {node : Key} (h : g.Way path) (hn : g.hasNode node = true)
    (hnew : node.canonical ∉ path) : g.Way (node.canonical :: path) :=
  ⟨List.nodup_cons.mpr ⟨hnew, h.nodup⟩, List.cons_subset.mpr ⟨Loaded.hasNode_iff.mp hn, h.nodes⟩⟩

theorem length_le (h : g.Way path) : path.length ≤ g.nodes.length := by
  have hsub := (h.nodup.subperm h.nodes).length_le
  rwa [Graph.ids, List.length_map] at hsub

end Graph.Way

/-- A number of steps that suffices after a way: the steps that are left and those of the way are
more than the graph has nodes. -/
def Compilation.Suffices (c : Compilation) (steps : Nat) (path : List Key) : Prop :=
  c.graph.Way path ∧ c.graph.nodes.length < steps + path.length

namespace Compilation.Suffices

variable {c : Compilation} {steps : Nat} {path : List Key} {node : Key}

theorem start (c : Compilation) : c.Suffices c.reach [] :=
  ⟨.nil _, by simp [reach]⟩

theorem ne_zero (h : c.Suffices 0 path) : False := by
  have hlength := h.1.length_le
  have := h.2
  omega

theorem step (h : c.Suffices (steps + 1) path) (hn : c.graph.hasNode node = true)
    (hnew : node.canonical ∉ path) : c.Suffices steps (node.canonical :: path) := by
  refine ⟨h.1.cons hn hnew, ?_⟩
  have := h.2
  rw [List.length_cons]
  omega

end Compilation.Suffices

/-- A wire to an input of an expression supplies the node. -/
theorem Represented.supplies {g : Graph} (hr : Represented g) {node : Key} {pin : String}
    {w : Connection} (hp : pin ≠ "exec_in") (hw : g.incoming? node pin = some w) :
    g.Supplies w.sourceNode.canonical node.canonical := by
  obtain ⟨hmem, htarget⟩ := (hr.incoming _ _).mp hw
  obtain ⟨hnode, hpin⟩ := Prod.mk.inj htarget
  refine ⟨w, hmem, ?_, rfl, hnode⟩
  rw [hpin]
  exact fun h => hp (Key.text.inj h)

/-- The nodes of a path are those that a value is on its way to. -/
theorem Compilation.evaluateWithin_raises {c : Compilation} (hr : Represented c.graph)
    {steps : Nat} {path : List Key} (h : c.Suffices steps path) {node : Key}
    (hn : c.graph.hasNode node = true)
    (hpath : ∀ k ∈ path, Relation.TransGen c.graph.Supplies node.canonical k) (reader pin : Key) :
    (c.evaluateWithin steps reader path node pin).Raises c.Faults := by
  induction steps generalizing reader path node pin with
  | zero => exact h.ne_zero.elim
  | succ steps ih =>
    rw [evaluateWithin_succ]
    unfold evaluateStep evaluateCall
    by_cases hp : path.contains node.canonical = true
    · rw [if_pos hp]
      have hcycle := hpath _ (by simpa using hp)
      exact .fail_bind (.node hn rfl (by simp) fun _ _ => hcycle) _
    rw [if_neg hp]
    have hnew : node.canonical ∉ path := by simpa using hp
    refine (checkDepth_raises _ hn).bind fun _ => (tick_raises hn).bind fun _ =>
      (Emit.Raises.lift fun _ he => typeOf_error hn he).bind_of fun s t s' ht =>
      (Emit.Raises.record _).bind fun _ => ?_
    have ht := (Emit.lift_ok ht).1
    cases he : t.expression? with
    | some e =>
      refine e.emit_raises hr ht he fun pin hpin w hw => ?_
      have hexec : pin ≠ "exec_in" := fun h =>
        Library.expression_pins t (hr.type_mem ht) e he (h ▸ hpin)
      have hsupplies := hr.supplies hexec hw
      refine ih (h.step hn hnew) (wire_hasNode hr hw) (fun k hk => ?_) node w.sourcePin
      rcases List.mem_cons.mp hk with rfl | hk
      · exact .single hsupplies
      · exact .head hsupplies (hpath k hk)
    | none =>
      dsimp only
      split
      · exact boundOutput_raises pin reader hn
      · exact .fail (.plain hn rfl fun _ _ h => by cases h)

/-- Values are read without fault of the walk. -/
theorem Compilation.evaluate_faults {c : Compilation} (hr : Represented c.graph) (reader : Key) :
    (c.evaluate reader).Faults c := fun _ pin hn =>
  evaluateWithin_raises hr (.start c) hn (by simp) reader pin

end CartGraph
