import CartGraph.Proofs.Emit.Reads
import CartGraph.Proofs.Emit.Unfolding
import CartGraph.Proofs.Faults
import CartGraph.Proofs.GivenNames
import CartGraph.Proofs.Graph.Loaded
import CartGraph.Proofs.Lua.Arguments

/-! # The text of a value is its tree, written out

Operands are put in brackets and arguments between commas, and no leaf can be taken for something
else. So the text that is emitted for an output is read as the tree that the output unfolds to: no
priority of an operator and no sign, quote or comma inside an operand regroups it. -/
namespace CartGraph

open Lua (Tree)

/-! ## Arguments of a call -/

namespace Lua

/-- The arguments that are written are those of the tree. -/
theorem reads_providedSlots {slots : List (Option String)} {trees : List (Option Tree)}
    (h : List.Forall₂ (Option.Rel Reads) slots trees) :
    List.Forall₂ Reads ((providedSlots slots).map fun slot => slot.getD "nil")
      (Tree.arguments trees) := by
  induction h with
  | nil => exact .nil
  | @cons slot tree slots trees hslot _ ih =>
    have hempty : (Tree.arguments trees).isEmpty = (providedSlots slots).isEmpty := by
      have hlength := ih.length_eq
      rw [List.length_map] at hlength
      rw [Bool.eq_iff_iff, List.isEmpty_iff_length_eq_zero, List.isEmpty_iff_length_eq_zero, hlength]
    rw [providedSlots_cons, Tree.arguments, hempty]
    cases hslot with
    | none =>
      cases (providedSlots slots).isEmpty
      · exact .cons (reads_constant (by decide)) ih
      · exact .nil
    | some hread => exact .cons hread ih

theorem reads_arguments_of_slots {slots placeholders : List (Option String)}
    {trees : List (Option Tree)} {arguments : List String}
    (h : List.Forall₂ (Option.Rel Reads) slots trees)
    (hplaceholders : ∀ p ∈ placeholders, p = some "nil")
    (ha : Lua.arguments slots placeholders = .ok arguments) :
    List.Forall₂ Reads arguments (Tree.arguments trees) := by
  have hlength : slots.length ≤ placeholders.length := by
    unfold Lua.arguments at ha
    split at ha
    · cases ha
    · omega
  rw [arguments_same hlength hplaceholders] at ha
  rw [← Except.ok.inj ha]
  exact reads_providedSlots h

end Lua

/-! ## Inputs and nodes -/

namespace Compilation

variable {c : Compilation} {node : Key}

/-- A node has one tree, and a text is read as it. -/
def Emits (c : Compilation) (node : Key) (text : String) : Prop :=
  ∃ tree, (∀ other, c.Unfolds node other ↔ other = tree) ∧ Lua.Reads text tree

/-- The same of an input, which may be empty. -/
def EmitsInput (c : Compilation) (node : Key) (pin : String) (kind : Kind) (text : Option String) :
    Prop :=
  ∃ slot, (∀ other, c.Operand node pin kind other ↔ other = slot) ∧ Option.Rel Lua.Reads text slot

theorem literal_ok {kind : Kind} {v : Value} {key text : String}
    (h : c.literal node kind v key = .ok text) : Lua.literal kind v key = .ok text := by
  unfold literal at h
  split at h
  · rename_i ht
    exact Except.ok.inj h ▸ ht
  · cases h
  · cases h

theorem findPin?_plain {t : NodeType} {pin : String} {p : Pin} {found : Option Pin}
    (ht : c.graph.typeOf node = .ok t) (hderived : t.definition.derivedPins = .none)
    (hp : t.definition.inputs.find? (fun p => p.id == pin) = some p)
    (h : c.graph.findPin? node (.text pin) = .ok found) : found = some p := by
  obtain ⟨ps, hps, h⟩ := bind_ok h
  obtain ⟨t', ht', hps⟩ := bind_ok hps
  cases ht.symm.trans ht'
  obtain ⟨n, _, hps⟩ := bind_ok hps
  obtain ⟨derived, hd, hps⟩ := bind_ok hps
  unfold Graph.derivedPins at hd
  rw [hderived] at hd
  cases hd
  cases hps
  rw [← Except.ok.inj h]
  simp [Graph.PinSet.find?, Graph.PinSet.all, List.find?_append, hp]

/-- An input without a wire is what was typed inline, if anything was. -/
theorem unwired_ok {t : NodeType} {pin : String} {p : Pin} {kind : Kind} {text : Option String}
    (ht : c.graph.typeOf node = .ok t) (hderived : t.definition.derivedPins = .none)
    (hp : t.definition.inputs.find? (fun p => p.id == pin) = some p)
    (hoptional : p.isOptional kind = true) (hkind : kind ≠ .string)
    (h : c.unwired node pin = .ok text) :
    ∃ n, c.graph.node? node = some n ∧
      let v := n.properties.get (inlineKey pin)
      (v.isUnset = true ∧ text = none ∨ v.isUnset = false ∧
        ∃ literal, Lua.literal kind v (inlineKey pin) = .ok literal ∧ text = some literal) := by
  obtain ⟨found, hfound, h⟩ := bind_ok h
  rw [findPin?_plain ht hderived hp hfound] at h
  obtain ⟨n, hn, h⟩ := bind_ok h
  refine ⟨n, Graph.node_ok_iff.mp hn, ?_⟩
  simp only [Pin.isOptional, Bool.and_eq_true, beq_iff_eq] at hoptional
  obtain ⟨⟨rfl, hdefault⟩, hrequired⟩ := hoptional
  have hset : (!(n.properties.get (inlineKey pin)).isNull &&
      !((n.properties.get (inlineKey pin)).isEmptyText && p.kind != .string)) =
        !(n.properties.get (inlineKey pin)).isUnset := by
    rw [bne_iff_ne.mpr hkind, Bool.and_true, Value.isUnset, Bool.not_or]
  have hrequired : p.required = false := by simpa using hrequired
  dsimp only at h
  rw [hset, hdefault, hrequired] at h
  cases hv : (n.properties.get (inlineKey pin)).isUnset with
  | true =>
    rw [hv] at h
    exact .inl ⟨hv, (Except.ok.inj h).symm⟩
  | false =>
    rw [hv] at h
    obtain ⟨literal, hl, h⟩ := bind_ok h
    exact .inr ⟨hv, literal, literal_ok hl, (Except.ok.inj h).symm⟩

/-- The values that are wired to a node are emitted as their trees. -/
def Faithful (c : Compilation) (eval : Evaluate) (reader : Key) : Prop :=
  ∀ {source pin : Key} {s s' : Progress} {text : String}, source ∈ c.graph.suppliers reader →
    eval source pin s = (.ok text, s') → c.Emits source text

/-- A node of a type that unfolds, with all that its inputs take for granted. -/
structure Unfolding (c : Compilation) (eval : Evaluate) (node : Key) (e : Expression) : Prop where
  standard : c.graph.catalogue = Library.catalogue
  standsFor : c.StandsFor node e
  plain : c.graph.isPlainAt node = true
  faithful : c.Faithful eval node
  globals : ∀ id name, c.globals.lookup id = some name →
    Lua.hasNameShape name.toList = true ∧ name ∉ Lua.reserved

variable {eval : Evaluate} {e : Expression} {s s' : Progress}

theorem type_mem {t : NodeType} (h : c.graph.catalogue = Library.catalogue)
    (ht : c.graph.typeOf node = .ok t) : t ∈ Library.types := by
  obtain ⟨n, _, hf⟩ := Graph.typeOf_ok_iff.mp ht
  exact Library.types_of_find? (h ▸ hf)

theorem operands_kind {pin : String} {kind : Kind} (h : (pin, kind) ∈ e.operands) :
    kind ≠ .string := by
  rintro rfl
  cases e <;> simp [Expression.operands] at h

theorem Unfolding.input (hu : c.Unfolding eval node e) {pin : String} {kind : Kind}
    (hpin : (pin, kind) ∈ e.operands) {text : Option String}
    (h : (c.input eval node pin) s = (.ok text, s')) : c.EmitsInput node pin kind text := by
  obtain ⟨t, ht, hlookup⟩ := hu.standsFor
  obtain ⟨_, hderived⟩ := Library.plain_expression t (type_mem hu.standard ht) e hlookup
  obtain ⟨p, hp, hoptional⟩ := (Option.any_eq_true _ _).mp
    (Library.plain_operands t (type_mem hu.standard ht) e hlookup _ hpin)
  have hmem := List.mem_of_find?_eq_some hp
  have hid : p.id = pin := by simpa using List.find?_some hp
  unfold Compilation.input at h
  cases hw : c.graph.incoming? node pin with
  | some wire =>
    rw [hw] at h
    obtain ⟨source, _, hs, h⟩ := Emit.bind_ok h
    cases h
    obtain ⟨tree, htree, hread⟩ := hu.faithful (Graph.mem_suppliers ht hmem (hid ▸ hw)) hs
    refine ⟨some tree, fun other => ⟨fun ho => ?_, ?_⟩, .some hread⟩
    · cases ho with
      | wired hw' hu' =>
        cases hw.symm.trans hw'
        rw [(htree _).mp hu']
      | inline hw' => cases hw.symm.trans hw'
      | empty hw' => cases hw.symm.trans hw'
    · rintro rfl
      exact .wired hw ((htree _).mpr rfl)
  | none =>
    rw [hw] at h
    obtain ⟨n, hn, hv⟩ :=
      unwired_ok ht hderived hp hoptional (operands_kind hpin) (Emit.lift_ok h).1
    obtain ⟨t', n', ht', hn', _, hinline, _⟩ := Graph.of_isPlainAt hu.plain
    cases ht.symm.trans ht'
    cases hn.symm.trans hn'
    have hinline := hinline p hmem (hid ▸ hw)
    simp only [Pin.isOptional, Bool.and_eq_true, beq_iff_eq] at hoptional
    rw [hid, hoptional.1.1] at hinline
    rcases hv with ⟨hunset, rfl⟩ | ⟨hset, literal, hl, rfl⟩
    · refine ⟨none, fun other => ⟨fun ho => ?_, ?_⟩, .none⟩
      · cases ho with
        | wired hw' => cases hw.symm.trans hw'
        | inline _ hn' hv' =>
          cases hn.symm.trans hn'
          rw [hunset] at hv'
          cases hv'
        | empty => rfl
      · rintro rfl
        exact .empty hw hn hunset
    · refine ⟨some (.ofLiteral literal), fun other => ⟨fun ho => ?_, ?_⟩, .some ?_⟩
      · cases ho with
        | wired hw' => cases hw.symm.trans hw'
        | inline _ hn' _ hl' =>
          cases hn.symm.trans hn'
          rw [Except.ok.inj (hl.symm.trans hl')]
        | empty _ hn' hv' =>
          cases hn.symm.trans hn'
          rw [hset] at hv'
          cases hv'
      · rintro rfl
        exact .inline hw hn hset hl
      · refine Lua.literal_reads (hinline.resolve_left fun hunset => ?_) hl
        rw [hset] at hunset
        cases hunset

/-- An input with a numeral that stands for it when it is empty. -/
theorem Unfolding.inputOr (hu : c.Unfolding eval node e) {pin fallback : String} {kind : Kind}
    (hpin : (pin, kind) ∈ e.operands) (hfallback : Lua.isDecimal fallback.toList = true)
    {text : String} (h : (c.inputOr eval node pin fallback) s = (.ok text, s')) :
    ∃ slot, (∀ other, c.Operand node pin kind other ↔ other = slot) ∧
      Lua.Reads text (slot.getD (.ofLiteral fallback)) := by
  obtain ⟨found, _, hi, h⟩ := Emit.bind_ok h
  cases h
  obtain ⟨slot, hslot, hrel⟩ := hu.input hpin hi
  refine ⟨slot, hslot, ?_⟩
  cases hrel with
  | some hread => exact hread
  | none => exact Lua.IsNumberText.reads ⟨_, hfallback, .inl String.ofList_toList.symm⟩

theorem Unfolding.inputs (hu : c.Unfolding eval node e) {pins : List String}
    (hpins : ∀ pin ∈ pins, (pin, Kind.number) ∈ e.operands) {texts : List (Option String)}
    (h : (c.inputs eval node (pins.map Key.text)) s = (.ok texts, s')) :
    ∃ slots, (∀ other, c.Operands node pins other ↔ other = slots) ∧
      List.Forall₂ (Option.Rel Lua.Reads) texts slots := by
  induction pins generalizing s texts with
  | nil =>
    cases h
    refine ⟨[], fun other => ⟨fun ho => ?_, ?_⟩, .nil⟩
    · cases ho
      rfl
    · rintro rfl
      exact .nil
  | cons pin pins ih =>
    obtain ⟨hpin, hpins⟩ := List.forall_mem_cons.mp hpins
    obtain ⟨text, _, hi, h⟩ := Emit.bind_ok h
    obtain ⟨rest, _, hrest, h⟩ := Emit.bind_ok h
    cases h
    obtain ⟨slot, hslot, hrel⟩ := hu.input hpin hi
    obtain ⟨slots, hslots, hrels⟩ := ih hpins hrest
    refine ⟨slot :: slots, fun other => ⟨fun ho => ?_, ?_⟩, .cons hrel hrels⟩
    · cases ho with
      | cons ha has => rw [(hslot _).mp ha, (hslots _).mp has]
    · rintro rfl
      exact .cons ((hslot _).mpr rfl) ((hslots _).mpr rfl)

/-! ## Properties -/

theorem Unfolding.literal (hu : c.Unfolding eval node e) {kind : Kind} (he : e = .literal kind)
    {v : Value} (hv : c.property node "value" .null = .ok v) : Lua.isPlain kind v = true := by
  subst he
  have hkind := hu.standsFor.isWritable
  simp only [Expression.isWritable, List.contains_cons, List.contains_nil, Bool.or_false,
    Bool.or_eq_true, beq_iff_eq] at hkind
  rcases hkind with rfl | rfl | rfl
  · obtain ⟨t, ht, hlookup⟩ := hu.standsFor
    obtain ⟨t', n, ht', hn, _, _, hnumber⟩ := Graph.of_isPlainAt hu.plain
    cases ht.symm.trans ht'
    have hid := plainTypes_number _ (Association.mem_of_lookup hlookup) rfl
    obtain ⟨p, hp, hdefault⟩ := (Option.any_eq_true _ _).mp
      (Library.number_default t (type_mem hu.standard ht) hid)
    obtain ⟨value, hvalue, _, rfl⟩ := property_ok ht hn hp hv
    have hplain : Lua.isPlain .number value = true := by
      rw [hvalue]
      split
      · exact hdefault
      · exact (hnumber hid).resolve_left ‹_›
    have hnull : value.isNull = false := by
      cases value <;> first | rfl | cases hplain
    rw [hnull]
    exact hplain
  · rfl
  · rfl

theorem check_enum {p : Property} {v node : Value} (htype : p.type = .enum) (hv : v.isNull = false)
    (h : p.check v node = .ok ()) : p.hasOption v.display = true := by
  unfold Property.check at h
  rw [hv] at h
  obtain ⟨misfit, hm, h⟩ := bind_ok h
  unfold Property.misfit? at hm
  rw [htype] at hm
  dsimp only at hm
  split at hm
  · assumption
  · cases hoptions : p.optionTexts with
    | error _ =>
      rw [hoptions] at hm
      cases hm
    | ok options =>
      rw [hoptions] at hm
      cases hm
      cases h

theorem hasOption_symbol {p : Property} {s : String}
    (hoptions : (p.options.all fun
      | .text option => (comparisonSymbols.lookup option).isSome
      | _ => false) = true) (h : p.hasOption s = true) :
    (comparisonSymbols.lookup s).isSome = true := by
  obtain ⟨option, hmem, hs⟩ := List.any_eq_true.mp h
  have hsome := List.all_eq_true.mp hoptions option hmem
  cases option with
  | text option =>
    rw [← eq_of_beq hs]
    exact hsome
  | _ => cases hs

theorem comparison_symbol {v : Value} {symbol : String} (hnull : v.isNull = false)
    (h : comparisonSymbols.lookup v.display = some symbol) (node : Value) :
    Lua.comparison v node = .ok symbol := by
  obtain ⟨hstrip, hcontains, hwritten, _⟩ := comparisonSymbols_written _ (Association.mem_of_lookup h)
  unfold Lua.comparison
  dsimp only at *
  rw [hnull, if_neg Bool.false_ne_true, hstrip, if_pos hcontains, hwritten]

/-- The comparison that a node names is written by its symbol. -/
theorem Unfolding.comparison (hu : c.Unfolding eval node .compare) {v : Value} {operator : String}
    (hv : c.property node "operator" (.text "==") = .ok v)
    (ho : c.comparison node v = .ok operator) :
    comparisonSymbols.lookup v.display = some operator := by
  obtain ⟨t, ht, hlookup⟩ := hu.standsFor
  obtain ⟨t', n, ht', hn, _⟩ := Graph.of_isPlainAt hu.plain
  cases ht.symm.trans ht'
  have hid := plainTypes_compare _ (Association.mem_of_lookup hlookup) rfl
  obtain ⟨p, hp, hoptions⟩ := (Option.any_eq_true _ _).mp
    (Library.comparison_options t (type_mem hu.standard ht) hid)
  obtain ⟨htype, hoptions⟩ := Bool.and_eq_true_iff.mp hoptions
  obtain ⟨value, _, hcheck, rfl⟩ := property_ok ht hn hp hv
  have hsome : ∃ v : Value, v = (if value.isNull then .text "==" else value) ∧ v.isNull = false ∧
      (comparisonSymbols.lookup v.display).isSome = true := by
    refine ⟨_, rfl, ?_⟩
    cases hnull : value.isNull with
    | true => exact ⟨rfl, rfl⟩
    | false =>
      exact ⟨hnull, hasOption_symbol hoptions (check_enum (eq_of_beq htype) hnull hcheck)⟩
  obtain ⟨v, hv, hnull, hsome⟩ := hsome
  rw [← hv] at ho ⊢
  obtain ⟨symbol, hsymbol⟩ := Option.isSome_iff_exists.mp hsome
  unfold Compilation.comparison at ho
  rw [comparison_symbol hnull hsymbol] at ho
  exact hsymbol.trans (congrArg some (Except.ok.inj ho))

/-! ## Values -/

theorem variableName_shape
    (hglobals : ∀ id name, c.globals.lookup id = some name →
      Lua.hasNameShape name.toList = true ∧ name ∉ Lua.reserved) {name : String}
    (h : c.variableName node = .ok name) :
    Lua.hasNameShape name.toList = true ∧ name ∉ Lua.reserved := by
  obtain ⟨n, _, h⟩ := bind_ok h
  dsimp only at h
  split at h
  · rename_i id _
    rw [← Except.ok.inj h]
    cases hl : c.globals.lookup id with
    | some name => exact hglobals id name hl
    | none =>
      rw [Option.getD_none]
      exact ⟨Lua.sanitize_shape _, Lua.sanitize_free _⟩
  · rw [← Except.ok.inj h]
    exact ⟨Lua.sanitize_shape _, Lua.sanitize_free _⟩

theorem nameProperty_shape {key fallback name : String}
    (h : c.nameProperty node key fallback = .ok name) :
    Lua.hasNameShape name.toList = true ∧ name ∉ Lua.reserved := by
  obtain ⟨v, _, h⟩ := bind_ok h
  rw [← Except.ok.inj h]
  exact ⟨Lua.sanitize_shape _, Lua.sanitize_free _⟩

/-- The text of a node is read as its tree, given that this holds of the nodes that supply it. -/
theorem Unfolding.emits (hu : c.Unfolding eval node e) {pin reader : Key} {text : String}
    (h : (e.emit c eval node pin reader) s = (.ok text, s')) : c.Emits node text := by
  have hunfolds {tree : Tree} := @unfolds_iff c node e hu.standsFor tree
  have hwritable := hu.standsFor.isWritable
  cases e with
  | globalName =>
    have hn := (Emit.lift_ok h).1
    obtain ⟨hshape, hfree⟩ := variableName_shape hu.globals hn
    refine ⟨.name text, fun other => ?_, (Lua.reads_name hshape hfree).2⟩
    simp [hunfolds, Roots, hn]
  | localName =>
    have hn := (Emit.lift_ok h).1
    obtain ⟨hshape, hfree⟩ := nameProperty_shape hn
    refine ⟨.name text, fun other => ?_, (Lua.reads_name hshape hfree).2⟩
    simp [hunfolds, Roots, hn]
  | literal kind =>
    obtain ⟨v, hv, hl⟩ := bind_ok (Emit.lift_ok h).1
    have hl := literal_ok hl
    refine ⟨.ofLiteral text, fun other => ?_, Lua.literal_reads (hu.literal rfl hv) hl⟩
    simp [hunfolds, Roots, hv, hl]
  | binary operator identity =>
    obtain ⟨hoperator, hidentity⟩ := Bool.and_eq_true_iff.mp hwritable
    obtain ⟨a, _, ha, h⟩ := Emit.bind_ok h
    obtain ⟨b, _, hb, h⟩ := Emit.bind_ok h
    cases h
    obtain ⟨left, hleft, hreada⟩ := hu.inputOr List.mem_cons_self hidentity ha
    obtain ⟨right, hright, hreadb⟩ := hu.inputOr (.tail _ (.head _)) hidentity hb
    refine ⟨_, fun other => ?_, hreada.binary hreadb (by simpa using hoperator)⟩
    simp [hunfolds, Roots, hleft, hright]
  | compare =>
    obtain ⟨v, _, hv, h⟩ := Emit.bind_ok h
    obtain ⟨operator, _, ho, h⟩ := Emit.bind_ok h
    obtain ⟨a, _, ha, h⟩ := Emit.bind_ok h
    obtain ⟨b, _, hb, h⟩ := Emit.bind_ok h
    cases h
    have hv := (Emit.lift_ok hv).1
    have hsymbol := hu.comparison hv (Emit.lift_ok ho).1
    obtain ⟨_, _, _, hwritten⟩ := comparisonSymbols_written _ (Association.mem_of_lookup hsymbol)
    obtain ⟨left, hleft, hreada⟩ := hu.inputOr List.mem_cons_self (by decide) ha
    obtain ⟨right, hright, hreadb⟩ := hu.inputOr (.tail _ (.head _)) (by decide) hb
    refine ⟨_, fun other => ?_, hreada.binary hreadb hwritten⟩
    simp [hunfolds, Roots, hv, hsymbol, hleft, hright]
  | apply function pin fallback =>
    obtain ⟨hfunction, hfallback⟩ := Bool.and_eq_true_iff.mp hwritable
    obtain ⟨hshape, hfree⟩ := Bool.and_eq_true_iff.mp hfunction
    obtain ⟨a, _, ha, h⟩ := Emit.bind_ok h
    cases h
    obtain ⟨slot, hslot, hread⟩ := hu.inputOr List.mem_cons_self hfallback ha
    refine ⟨_, fun other => ?_,
      Lua.Reads.call (Lua.reads_name hshape (by simpa using hfree)).1 (.cons hread .nil)⟩
    simp [hunfolds, Roots, hslot]
  | call function slots =>
    obtain ⟨hfunction, hslots⟩ := Bool.and_eq_true_iff.mp hwritable
    obtain ⟨hshape, hfree⟩ := Bool.and_eq_true_iff.mp hfunction
    obtain ⟨arguments, _, ha, h⟩ := Emit.bind_ok h
    cases h
    obtain ⟨texts, _, hi, ha⟩ := Emit.bind_ok ha
    have hoperands : ∀ pin ∈ slots.map Slot.pin,
        (pin, Kind.number) ∈ (Expression.call function slots).operands := by
      intro pin hp
      obtain ⟨slot, hslot, rfl⟩ := List.mem_map.mp hp
      exact List.mem_map.mpr ⟨slot, hslot, rfl⟩
    have hplaceholders : ∀ p ∈ slots.map Slot.placeholder, p = some "nil" := by
      intro p hp
      obtain ⟨slot, hslot, rfl⟩ := List.mem_map.mp hp
      simpa using List.all_eq_true.mp hslots slot hslot
    have hpins : slots.map (fun slot => Key.text slot.pin) = (slots.map Slot.pin).map Key.text := by
      simp
    rw [hpins] at hi
    obtain ⟨trees, htrees, hrel⟩ := hu.inputs hoperands hi
    have hreads := Lua.reads_arguments_of_slots hrel hplaceholders (Emit.lift_ok ha).1
    refine ⟨_, fun other => ?_,
      Lua.Reads.call (Lua.reads_name hshape (by simpa using hfree)).1 hreads⟩
    simp [hunfolds, Roots, htrees]
  | bound output => cases hwritable

theorem evaluateWithin_emits (hcatalogue : c.graph.catalogue = Library.catalogue)
    (hglobals : ∀ id name, c.globals.lookup id = some name →
      Lua.hasNameShape name.toList = true ∧ name ∉ Lua.reserved)
    {steps : Nat} {reader pin : Key} {path : List Key} {text : String} (hplain : c.graph.Plain node)
    (h : c.evaluateWithin steps reader path node pin s = (.ok text, s')) : c.Emits node text := by
  induction steps generalizing node reader pin path s s' text with
  | zero => cases h
  | succ steps ih =>
    obtain ⟨t, n, ht, _, hsome, _⟩ := Graph.of_isPlainAt hplain.here
    obtain ⟨e, he⟩ := Option.isSome_iff_exists.mp hsome
    obtain ⟨hexpression, _⟩ := Library.plain_expression t (type_mem hcatalogue ht) e he
    obtain ⟨_, t', s₁, ht', _, hemit, _⟩ := evaluateWithin_ok h
    cases ht.symm.trans ht'
    have hemit := hemit _ hexpression
    have hu : c.Unfolding (c.evaluateWithin steps node (node.canonical :: path)) node e :=
      ⟨hcatalogue, ⟨t, ht, he⟩, hplain.here, fun hs hv => ih (hplain.supplier hs) hv, hglobals⟩
    exact hu.emits hemit

end Compilation

/-- The text of a value is read as the one tree that the value unfolds to: it is grouped by the
language as the graph groups it. -/
theorem evaluate_parse {c : Compilation} {globals : List Variable}
    {declarations : Variable.Declarations} (hcatalogue : c.graph.catalogue = Library.catalogue)
    (hdeclare : Variable.declare globals = .ok declarations)
    (hglobals : c.globals = declarations.names) {node : Key} (hplain : c.graph.Plain node)
    {steps : Nat} {reader pin : Key} {path : List Key} {s s' : Progress} {text : String}
    (h : c.evaluateWithin steps reader path node pin s = (.ok text, s')) :
    ∃ tree, (∀ other, c.Unfolds node other ↔ other = tree) ∧ Lua.parse text = some tree := by
  have hnames : ∀ id name, c.globals.lookup id = some name →
      Lua.hasNameShape name.toList = true ∧ name ∉ Lua.reserved := fun id name hl =>
    ⟨Variable.declare_shape hdeclare (hglobals ▸ hl),
      (Variable.declare_names hdeclare (hglobals ▸ hl)).2⟩
  obtain ⟨tree, htree, hread⟩ := Compilation.evaluateWithin_emits hcatalogue hnames hplain h
  exact ⟨tree, htree, hread.parse⟩

/-- A comparison of a sum that has a negative operand with a button of which only the player is
given. -/
def comparedSum : Value := Graph.outline
  [("test", "compare", [("operator", .text "!=")]), ("sum", "add_number", [("pin:b", .int (-2))]),
    ("score", "get_var", [("name", .text "Score")]), ("pad", "input_btn", [("pin:player", .int 1)])]
  [("sum", "sum", "test", "a"), ("pad", "value", "test", "b"), ("score", "value", "sum", "a")]

theorem evaluate_parse_comparedSum : ∃ g s', Graph.load comparedSum Library.catalogue = .ok g ∧
    g.Plain "test" ∧
    let text := "((score) + (-2)) ~= (btn(nil, 1))"
    Compilation.evaluate { graph := g } "reader" "test" "res" {} = (.ok text, s') ∧
    ∃ tree, (∀ other, Compilation.Unfolds { graph := g } "test" other ↔ other = tree) ∧
      Lua.parse text = some tree := by
  let nodes : List Key := ["test", "sum", "score", "pad"]
  have heval : ((Graph.load comparedSum Library.catalogue).toOption.any fun g =>
      nodes.all g.isPlainAt && (nodes.all fun m => (g.suppliers m).all nodes.contains) &&
      (Compilation.evaluate { graph := g } "reader" "test" "res" {}).1.toOption ==
        some "((score) + (-2)) ~= (btn(nil, 1))") = true := by
    decide +kernel
  obtain ⟨g, hload, heval⟩ := exists_ok_of_any heval
  simp only [Bool.and_eq_true, List.all_eq_true, List.contains_iff_mem] at heval
  obtain ⟨⟨hplain, hclosed⟩, heval⟩ := heval
  have hplain : g.Plain "test" := .of_closed hplain hclosed (.head _)
  rcases hrun : Compilation.evaluate { graph := g } "reader" "test" "res" {} with ⟨e | text, s'⟩
  · rw [hrun] at heval
    cases heval
  · rw [hrun] at heval
    cases Option.some.inj (eq_of_beq heval)
    have hdeclare : Variable.declare [] = .ok {} := rfl
    exact ⟨g, s', hload, hplain, hrun,
      evaluate_parse (Loaded.of_load hload).catalogue hdeclare rfl hplain hrun⟩

end CartGraph
