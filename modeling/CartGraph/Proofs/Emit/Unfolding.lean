import CartGraph.Proofs.Library
import CartGraph.Proofs.Lua.Literals
import Mathlib.Logic.Relation

/-! # The tree of a value

Going back along the wires from an output gives a tree: literals and names are its leaves, operators
and calls its inner nodes, and what is wired twice stands in it twice. `Graph.Plain` says which
nodes unfold so, and `Compilation.Unfolds` what to. -/
namespace CartGraph

open Lua (Tree)

/-- The types whose values unfold, with the expression that each stands for. -/
def plainTypes : List (String × Expression) := [
  ("number_literal", .literal .number), ("string_literal", .literal .string),
  ("boolean_literal", .literal .boolean), ("get_var", .globalName), ("get_local_var", .localName),
  ("add_number", .binary "+" "0"), ("multiply_number", .binary "*" "1"), ("compare", .compare),
  ("math_rnd", .apply "rnd" "value" "1"), ("math_flr", .apply "flr" "value" "0"),
  ("input_btn", .call "btn" [⟨"button", some "nil"⟩, ⟨"player", some "nil"⟩])]

def comparisonSymbols : List (String × String) :=
  [("==", "=="), ("!=", "~="), (">", ">"), ("<", "<"), (">=", ">="), ("<=", "<=")]

def Value.isUnset (v : Value) : Bool := v.isNull || v.isEmptyText

/-- Arguments of a call. Empty ones after the last that is given are dropped. -/
def Lua.Tree.arguments : List (Option Tree) → List Tree
  | [] => []
  | slot :: rest =>
    let later := arguments rest
    if slot.isNone && later.isEmpty then [] else slot.getD (.constant "nil") :: later

namespace Compilation

def StandsFor (c : Compilation) (node : Key) (e : Expression) : Prop :=
  ∃ t, c.graph.typeOf node = .ok t ∧ plainTypes.lookup t.id = some e

mutual

inductive Unfolds (c : Compilation) : Key → Tree → Prop
  | literal {node : Key} {kind : Kind} {v : Value} {text : String}
    (he : c.StandsFor node (.literal kind)) (hv : c.property node "value" .null = .ok v)
    (ht : Lua.literal kind v "value" = .ok text) : Unfolds c node (.ofLiteral text)
  | globalName {node : Key} {name : String} (he : c.StandsFor node .globalName)
    (hn : c.variableName node = .ok name) : Unfolds c node (.name name)
  | localName {node : Key} {name : String} (he : c.StandsFor node .localName)
    (hn : c.nameProperty node "name" "localVar" = .ok name) : Unfolds c node (.name name)
  | binary {node : Key} {operator identity : String} {a b : Option Tree}
    (he : c.StandsFor node (.binary operator identity)) (ha : Operand c node "a" .number a)
    (hb : Operand c node "b" .number b) :
    Unfolds c node (.binary operator (a.getD (.ofLiteral identity)) (b.getD (.ofLiteral identity)))
  | compare {node : Key} {v : Value} {operator : String} {a b : Option Tree}
    (he : c.StandsFor node .compare) (hv : c.property node "operator" (.text "==") = .ok v)
    (ho : comparisonSymbols.lookup v.display = some operator) (ha : Operand c node "a" .any a)
    (hb : Operand c node "b" .any b) :
    Unfolds c node (.binary operator (a.getD (.ofLiteral "0")) (b.getD (.ofLiteral "0")))
  | apply {node : Key} {function pin fallback : String} {a : Option Tree}
    (he : c.StandsFor node (.apply function pin fallback)) (ha : Operand c node pin .number a) :
    Unfolds c node (.call (.name function) [a.getD (.ofLiteral fallback)])
  | call {node : Key} {function : String} {slots : List Slot} {as : List (Option Tree)}
    (he : c.StandsFor node (.call function slots))
    (ha : Operands c node (slots.map Slot.pin) as) :
    Unfolds c node (.call (.name function) (Tree.arguments as))

/-- The tree of an input that takes values of some kind, none when the input is empty. -/
inductive Operand (c : Compilation) : Key → String → Kind → Option Tree → Prop
  | wired {node : Key} {pin : String} {kind : Kind} {wire : Connection} {tree : Tree}
    (hw : c.graph.incoming? node pin = some wire) (hu : Unfolds c wire.sourceNode tree) :
    Operand c node pin kind (some tree)
  | inline {node : Key} {pin : String} {kind : Kind} {n : Node} {text : String}
    (hw : c.graph.incoming? node pin = none) (hn : c.graph.node? node = some n)
    (hv : (n.properties.get (inlineKey pin)).isUnset = false)
    (ht : Lua.literal kind (n.properties.get (inlineKey pin)) (inlineKey pin) = .ok text) :
    Operand c node pin kind (some (.ofLiteral text))
  | empty {node : Key} {pin : String} {kind : Kind} {n : Node}
    (hw : c.graph.incoming? node pin = none) (hn : c.graph.node? node = some n)
    (hv : (n.properties.get (inlineKey pin)).isUnset = true) : Operand c node pin kind none

inductive Operands (c : Compilation) : Key → List String → List (Option Tree) → Prop
  | nil {node : Key} : Operands c node [] []
  | cons {node : Key} {pin : String} {pins : List String} {a : Option Tree} {as : List (Option Tree)}
    (ha : Operand c node pin .number a) (has : Operands c node pins as) :
    Operands c node (pin :: pins) (a :: as)

end

end Compilation

namespace Graph

/-- Whether a node unfolds and what was typed into it are plain values: numbers where numbers are
wanted, and neither lists nor tables elsewhere. -/
def isPlainAt (g : Graph) (node : Key) : Bool :=
  match g.typeOf node, g.node? node with
  | .ok t, some n =>
    (plainTypes.lookup t.id).isSome &&
    (t.definition.inputs.all fun p =>
      let v := n.properties.get (Compilation.inlineKey p.id)
      (g.incoming? node p.id).isSome || v.isUnset || Lua.isPlain p.kind v) &&
    (t.id != "number_literal" ||
      let v := n.properties.get "value"
      v.isNull || Lua.isPlain .number v)
  | _, _ => false

def suppliers (g : Graph) (node : Key) : List Key :=
  match g.typeOf node with
  | .ok t => t.definition.inputs.filterMap fun p =>
    (g.incoming? node p.id).map Connection.sourceNode
  | .error _ => []

/-- All that a node unfolds to is plain. -/
def Plain (g : Graph) (node : Key) : Prop :=
  ∀ source, Relation.ReflTransGen (fun reader source => source ∈ g.suppliers reader) node source →
    g.isPlainAt source = true

variable {g : Graph} {node : Key}

theorem of_isPlainAt (h : g.isPlainAt node = true) :
    ∃ t n, g.typeOf node = .ok t ∧ g.node? node = some n ∧ (plainTypes.lookup t.id).isSome = true ∧
      (∀ p ∈ t.definition.inputs, g.incoming? node p.id = none →
        (n.properties.get (Compilation.inlineKey p.id)).isUnset = true ∨
          Lua.isPlain p.kind (n.properties.get (Compilation.inlineKey p.id)) = true) ∧
      (t.id = "number_literal" → (n.properties.get "value").isNull = true ∨
        Lua.isPlain .number (n.properties.get "value") = true) := by
  unfold isPlainAt at h
  split at h
  · rename_i t n ht hn
    simp only [Bool.and_eq_true, List.all_eq_true, Bool.or_eq_true, bne_iff_ne] at h
    obtain ⟨⟨hsome, hinputs⟩, hnumber⟩ := h
    refine ⟨t, n, ht, hn, hsome, fun p hp hw => ?_, fun hid => ?_⟩
    · rcases hinputs p hp with (hwired | hunset) | hplain
      · rw [hw] at hwired
        cases hwired
      · exact .inl hunset
      · exact .inr hplain
    · exact hnumber.resolve_left (fun hne => hne hid)
  · cases h

theorem mem_suppliers {t : NodeType} {p : Pin} {wire : Connection} (ht : g.typeOf node = .ok t)
    (hp : p ∈ t.definition.inputs) (hw : g.incoming? node p.id = some wire) :
    wire.sourceNode ∈ g.suppliers node := by
  unfold suppliers
  rw [ht]
  exact List.mem_filterMap.mpr ⟨p, hp, by rw [hw]; rfl⟩

theorem Plain.here (h : g.Plain node) : g.isPlainAt node = true := h node .refl

theorem Plain.supplier {source : Key} (h : g.Plain node) (hs : source ∈ g.suppliers node) :
    g.Plain source := fun _ hm => h _ (.head hs hm)

/-- Plain nodes that are supplied by each other only. -/
theorem Plain.of_closed {nodes : List Key} (hplain : ∀ m ∈ nodes, g.isPlainAt m = true)
    (hclosed : ∀ m ∈ nodes, ∀ source ∈ g.suppliers m, source ∈ nodes) (h : node ∈ nodes) :
    g.Plain node := by
  intro source hs
  refine hplain source ?_
  induction hs with
  | refl => exact h
  | tail _ hs ih => exact hclosed _ ih _ hs

end Graph

namespace Compilation

variable {c : Compilation} {node : Key}

theorem StandsFor.unique {e e' : Expression} (h : c.StandsFor node e) (h' : c.StandsFor node e') :
    e = e' := by
  obtain ⟨t, ht, he⟩ := h
  obtain ⟨t', ht', he'⟩ := h'
  cases ht.symm.trans ht'
  exact Option.some.inj (he.symm.trans he')

/-- What the tree of a node is, by the expression that the node stands for. -/
def Roots (c : Compilation) (node : Key) (tree : Tree) : Expression → Prop
  | .literal kind => ∃ v text, c.property node "value" .null = .ok v ∧
    Lua.literal kind v "value" = .ok text ∧ tree = .ofLiteral text
  | .globalName => ∃ name, c.variableName node = .ok name ∧ tree = .name name
  | .localName => ∃ name, c.nameProperty node "name" "localVar" = .ok name ∧ tree = .name name
  | .binary operator identity => ∃ a b, c.Operand node "a" .number a ∧ c.Operand node "b" .number b ∧
    tree = .binary operator (a.getD (.ofLiteral identity)) (b.getD (.ofLiteral identity))
  | .compare => ∃ v operator a b, c.property node "operator" (.text "==") = .ok v ∧
    comparisonSymbols.lookup v.display = some operator ∧ c.Operand node "a" .any a ∧
    c.Operand node "b" .any b ∧
    tree = .binary operator (a.getD (.ofLiteral "0")) (b.getD (.ofLiteral "0"))
  | .apply function pin fallback => ∃ a, c.Operand node pin .number a ∧
    tree = .call (.name function) [a.getD (.ofLiteral fallback)]
  | .call function slots => ∃ as, c.Operands node (slots.map Slot.pin) as ∧
    tree = .call (.name function) (Tree.arguments as)
  | .bound _ => False

theorem unfolds_iff {e : Expression} (he : c.StandsFor node e) {tree : Tree} :
    c.Unfolds node tree ↔ c.Roots node tree e := by
  constructor
  · intro h
    cases h with
    | literal he' hv ht => cases he.unique he'; exact ⟨_, _, hv, ht, rfl⟩
    | globalName he' hn => cases he.unique he'; exact ⟨_, hn, rfl⟩
    | localName he' hn => cases he.unique he'; exact ⟨_, hn, rfl⟩
    | binary he' ha hb => cases he.unique he'; exact ⟨_, _, ha, hb, rfl⟩
    | compare he' hv ho ha hb => cases he.unique he'; exact ⟨_, _, _, _, hv, ho, ha, hb, rfl⟩
    | apply he' ha => cases he.unique he'; exact ⟨_, ha, rfl⟩
    | call he' ha => cases he.unique he'; exact ⟨_, ha, rfl⟩
  · intro h
    cases e with
    | literal kind => obtain ⟨_, _, hv, ht, rfl⟩ := h; exact .literal he hv ht
    | globalName => obtain ⟨_, hn, rfl⟩ := h; exact .globalName he hn
    | localName => obtain ⟨_, hn, rfl⟩ := h; exact .localName he hn
    | binary operator identity => obtain ⟨_, _, ha, hb, rfl⟩ := h; exact .binary he ha hb
    | compare => obtain ⟨_, _, _, _, hv, ho, ha, hb, rfl⟩ := h; exact .compare he hv ho ha hb
    | apply function pin fallback => obtain ⟨_, ha, rfl⟩ := h; exact .apply he ha
    | call function slots => obtain ⟨_, ha, rfl⟩ := h; exact .call he ha
    | bound output => exact h.elim

end Compilation

/-! ## The types that unfold -/

/-- The inputs that an expression reads, with the kinds of values that they take. -/
def Expression.operands : Expression → List (String × Kind)
  | .binary _ _ => [("a", .number), ("b", .number)]
  | .compare => [("a", .any), ("b", .any)]
  | .apply _ pin _ => [(pin, .number)]
  | .call _ slots => slots.map fun slot => (slot.pin, .number)
  | _ => []

/-- Whether an input takes values of a kind and may be left empty. -/
def Pin.isOptional (p : Pin) (kind : Kind) : Bool :=
  p.kind == kind && p.default.isNull && !p.required

theorem Library.plain_expression : ∀ t ∈ types, ∀ e ∈ plainTypes.lookup t.id,
    t.expression? = some e ∧ t.definition.derivedPins = .none := by
  decide

theorem Library.plain_operands : ∀ t ∈ types, ∀ e ∈ plainTypes.lookup t.id,
    ∀ operand ∈ e.operands, (t.definition.inputs.find? fun p => p.id == operand.1).any fun p =>
      p.isOptional operand.2 := by
  decide

theorem Library.number_default : ∀ t ∈ types, t.id = "number_literal" →
    (t.definition.property? "value").any fun p => Lua.isPlain .number p.default := by
  decide

theorem Library.comparison_options : ∀ t ∈ types, t.id = "compare" →
    (t.definition.property? "operator").any fun p => p.type == .enum && p.options.all fun
      | .text option => (comparisonSymbols.lookup option).isSome
      | _ => false := by
  decide

/-- What the text of an expression takes for granted about its parts. -/
def Expression.isWritable : Expression → Bool
  | .binary operator identity =>
    Lua.writtenOperators.contains operator && Lua.isDecimal identity.toList
  | .apply function _ fallback =>
    Lua.hasNameShape function.toList && !Lua.reserved.contains function &&
      Lua.isDecimal fallback.toList
  | .call function slots =>
    Lua.hasNameShape function.toList && !Lua.reserved.contains function &&
      slots.all fun slot => slot.placeholder == some "nil"
  | .literal kind => [.number, .string, .boolean].contains kind
  | .globalName | .localName | .compare => true
  | .bound _ => false

theorem plainTypes_isWritable : ∀ entry ∈ plainTypes, entry.2.isWritable = true := by
  decide

theorem Compilation.StandsFor.isWritable {c : Compilation} {node : Key} {e : Expression}
    (h : c.StandsFor node e) : e.isWritable = true := by
  obtain ⟨t, _, he⟩ := h
  exact plainTypes_isWritable _ (Association.mem_of_lookup he)

theorem plainTypes_number : ∀ entry ∈ plainTypes, entry.2 = .literal .number →
    entry.1 = "number_literal" := by
  decide

theorem plainTypes_compare : ∀ entry ∈ plainTypes, entry.2 = .compare → entry.1 = "compare" := by
  decide

/-- A comparison between blanks or not is written by its symbol. -/
theorem comparisonSymbols_written : ∀ entry ∈ comparisonSymbols,
    Text.strip entry.1 = entry.1 ∧ Lua.comparisons.contains entry.1 = true ∧
      (if entry.1 == "!=" then "~=" else entry.1) = entry.2 ∧ entry.2 ∈ Lua.writtenOperators := by
  decide

end CartGraph
