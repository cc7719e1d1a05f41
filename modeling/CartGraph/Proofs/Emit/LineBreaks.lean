import CartGraph.Proofs.Document.Accepted
import CartGraph.Proofs.Emit.LocalScope
import CartGraph.Proofs.Emit.Nesting
import CartGraph.Proofs.Emit.ValueText
import CartGraph.Proofs.Lua.OneLine

/-! # Every line that is emitted is one line

Whatever a user types reaches the text through a name, a literal or an operator, and none of them
breaks a line (`Text.OneLine`). What is bound to an output is such a text as well, so it is one
wherever it is read. There are two exceptions: a key of a table that was typed in brackets is
written as it is, like the expression of a table, and so is the id of a branch in the comment over
the branch. -/
namespace CartGraph

open Text (OneLine oneLine_blanks)

/-! ## Names in scope -/

/-- All names that are bound or issued stand on one line. -/
structure SymbolTable.OneLine (t : SymbolTable) : Prop where
  bound : ∀ scope ∈ t.top :: t.outer, ∀ e ∈ scope, Text.OneLine e.2
  issued : ∀ e ∈ t.issued, Text.OneLine e.2

namespace SymbolTable.OneLine

variable {t : SymbolTable}

theorem empty : SymbolTable.OneLine {} where
  bound scope hs e he := by
    cases List.mem_singleton.mp hs
    cases he
  issued e he := by cases he

theorem push (h : t.OneLine) : t.push.OneLine where
  bound scope hs e he := by
    rcases List.mem_cons.mp hs with rfl | hs
    · cases he
    · exact h.bound scope hs e he
  issued := h.issued

theorem pop {t' : SymbolTable} (h : t.OneLine) (hp : t.pop = .ok t') : t'.OneLine := by
  unfold SymbolTable.pop at hp
  split at hp
  · cases hp
  · rename_i scope rest houter
    cases hp
    exact ⟨fun scope hs => h.bound scope (houter ▸ .tail _ hs), h.issued⟩

theorem bind {name : String} (h : t.OneLine) (hname : Text.OneLine name) (node pin : Key) :
    (t.bind node pin name).OneLine where
  bound scope hs e he := by
    rcases List.mem_cons.mp hs with rfl | hs
    · rcases Association.mem_assign he with rfl | he
      · exact hname
      · exact h.bound _ (.head _) e he
    · exact h.bound scope (.tail _ hs) e he
  issued := h.issued

theorem lookup {node pin : Key} {name : String} (h : t.OneLine)
    (hl : t.lookup node pin = some name) : Text.OneLine name := by
  obtain ⟨scope, hs, hl⟩ := List.exists_of_findSome?_eq_some hl
  exact h.bound scope hs _ (Association.mem_of_lookup hl)

/-- Temporaries are made of the characters of names. -/
theorem temp (h : t.OneLine) (node label : Key) :
    Text.OneLine (t.temp node label).1 ∧ (t.temp node label).2.OneLine := by
  unfold SymbolTable.temp
  split
  · rename_i name hl
    exact ⟨h.issued _ (Association.mem_of_lookup hl), h⟩
  · have hname : Text.OneLine (Lua.fresh (t.issued.map (·.2))
        (Lua.hidden node.spelling label.spelling) 2) := fun c hc =>
      Text.isBreak_of_pos (by decide) (Lua.fresh_lower (Lua.hidden_lower _ _) _ _ c hc)
    refine ⟨hname, h.bound, fun e he => ?_⟩
    rcases List.mem_append.mp he with he | he
    · exact h.issued e he
    · cases List.mem_singleton.mp he
      exact hname

end SymbolTable.OneLine

/-! ## Steps -/

/-- A step that leaves names on one line and whose answers have a property, whatever names on one
line are in scope. -/
def Emit.Gives (Q : α → Prop) (m : Emit α) : Prop :=
  ∀ s, s.symbols.OneLine → (m s).2.symbols.OneLine ∧ ∀ a, (m s).1 = .ok a → Q a

namespace Emit.Gives

variable {Q : α → Prop} {R : β → Prop} {m : Emit α}

theorem pure {a : α} (h : Q a) : Gives Q (Pure.pure a : Emit α) := fun _ hs =>
  ⟨hs, fun _ ha => Except.ok.inj ha ▸ h⟩

theorem lift {r : Except Error α} (h : ∀ a, r = .ok a → Q a) : Gives Q (Emit.lift r) :=
  fun _ hs => ⟨hs, h⟩

theorem fail (e : Error) : Gives Q (Emit.fail e) := lift fun _ h => by cases h

theorem bind {f : α → Emit β} (hm : Gives Q m) (hf : ∀ a, Q a → Gives R (f a)) :
    Gives R (m >>= f) := by
  intro s hs
  change (Emit.bind m f s).2.symbols.OneLine ∧ ∀ b, (Emit.bind m f s).1 = .ok b → R b
  obtain ⟨hsymbols, hanswer⟩ := hm s hs
  unfold Emit.bind
  rcases hms : m s with ⟨e | a, s₁⟩ <;> rw [hms] at hsymbols hanswer
  · exact ⟨hsymbols, fun b hb => by cases hb⟩
  · exact hf a (hanswer a rfl) s₁ hsymbols

theorem bind_lift {r : Except Error α} {f : α → Emit β} (hf : ∀ a, r = .ok a → Gives R (f a)) :
    Gives R (Emit.lift r >>= f) := (lift fun _ h => h).bind hf

theorem ite {p : Prop} [Decidable p] {m' : Emit α} (h : Gives Q m) (h' : Gives Q m') :
    Gives Q (if p then m else m') := by
  split
  · exact h
  · exact h'

/-- A step that does not touch the names. -/
theorem of_symbols {m : Emit Unit} (h : ∀ s, (m s).2.symbols = s.symbols) :
    Gives (fun _ => True) m := fun s hs => ⟨h s ▸ hs, fun _ _ => trivial⟩

theorem record (v : Visit) : Gives (fun _ => True) (Emit.record v) := of_symbols fun _ => rfl

theorem tick (c : Compilation) (node : Key) : Gives (fun _ => True) (c.tick node) :=
  of_symbols fun _ => rfl

theorem checkDepth (c : Compilation) (depth : Int) (node : Key) :
    Gives (fun _ => True) (c.checkDepth depth node) := of_symbols fun _ => rfl

theorem temp (node label : Key) : Gives OneLine (Emit.temp node label) := by
  intro s hs
  obtain ⟨hname, hsymbols⟩ := hs.temp node label
  exact ⟨hsymbols, fun _ ha => Except.ok.inj ha ▸ hname⟩

theorem bindOutput {name : String} (hname : OneLine name) (node pin : Key) :
    Gives OneLine (Emit.bindOutput node pin (some name)) := by
  have binding (x : String) (hx : OneLine x) :
      Gives OneLine (Emit.withSymbols fun t => (x, t.bind node pin x)) := fun s hs =>
    ⟨hs.bind hx node pin, fun _ ha => Except.ok.inj ha ▸ hx⟩
  unfold Emit.bindOutput
  dsimp only
  split
  · rename_i x hx
    cases (Option.filter_eq_some_iff.mp hx).1
    exact (pure hname).bind binding
  · exact (temp node pin).bind binding

theorem boundOutput (node pin reader : Key) : Gives OneLine (Emit.boundOutput node pin reader) := by
  intro s hs
  unfold Emit.boundOutput
  cases hl : s.symbols.lookup node pin with
  | none => exact ⟨hs, fun _ ha => by cases ha⟩
  | some name => exact ⟨hs, fun _ ha => Except.ok.inj ha ▸ hs.lookup hl⟩

theorem inBlock (h : Gives Q m) : Gives Q (Emit.inBlock m) := by
  intro s hs
  obtain ⟨hsymbols, hanswer⟩ := h { s with symbols := s.symbols.push } hs.push
  unfold Emit.inBlock
  dsimp only
  split
  · rename_i symbols hp
    exact ⟨hsymbols.pop hp, hanswer⟩
  · exact ⟨hsymbols, fun _ ha => by cases ha⟩

end Emit.Gives

/-! ## What a compilation reads -/

/-- What the graph of a compilation and the names that were chosen before the walk give stands on
one line. -/
structure Compilation.Unbroken (c : Compilation) : Prop where
  represented : Represented c.graph
  unreserved : c.Unreserved
  parameters : c.NamesParameters
  properties : ∀ n ∈ c.graph.nodes, ∀ e ∈ n.properties, e.2.isUnbroken = true
  locals : ∀ n ∈ c.graph.nodes, n.definitionId = Library.setLocal.id →
    n.properties.get "variableType" ≠ .text "table"

theorem Library.pins_unbroken : ∀ t ∈ types, ∀ p ∈ t.definition.inputs ++ t.definition.outputs,
    p.kind ≠ .table ∧ p.default.isUnbroken = true := by
  decide

theorem Library.properties_unbroken : ∀ t ∈ types, ∀ p ∈ t.definition.properties,
    p.default.isUnbroken = true := by
  decide

/-- A local is a table only if that type was chosen by its very name. -/
theorem Library.declare_property : ∀ t ∈ types, t.statement? = some .declare →
    t.id = setLocal.id ∧ ∃ p ∈ t.definition.property? "variableType", p.type = .enum ∧
      p.default.isNull = false ∧ Kind.ofValue p.default ≠ .table ∧
      ∀ option ∈ p.options, Kind.ofValue option = .table → option.display = "table" := by
  decide

theorem Property.mem_of_hasOption {p : Property} {s : String} (h : p.hasOption s = true) :
    .text s ∈ p.options := by
  obtain ⟨option, hmem, hs⟩ := List.any_eq_true.mp h
  cases option with
  | text option => exact eq_of_beq hs ▸ hmem
  | _ => cases hs

theorem Table.exists_mem_of_find? {t : Table} {k : Key} {v : Value} (h : t.find? k = some v) :
    ∃ e ∈ t, e.2 = v := by
  induction t with
  | nil => cases h
  | cons entry rest ih =>
    unfold find? at h
    split at h
    · exact ⟨entry, .head _, Option.some.inj h⟩
    · obtain ⟨e, he, hv⟩ := ih h
      exact ⟨e, .tail _ he, hv⟩

theorem Graph.derivedPins_plain {g : Graph} {d : Definition} {n : Node} {derived : List Pin}
    (h : g.derivedPins d n = .ok derived) : ∀ p ∈ derived, p.kind ≠ .table ∧ p.default = .null := by
  intro p hp
  unfold derivedPins at h
  split at h
  · cases h
    cases hp
  · cases h
    obtain ⟨id, _, rfl⟩ := List.mem_map.mp hp
    exact ⟨Kind.noConfusion, rfl⟩
  · cases h
    obtain ⟨q, hq, rfl⟩ := List.mem_map.mp hp
    exact ⟨(Parameter.kind_isData hq).2, rfl⟩
  · obtain ⟨target, _, h⟩ := bind_ok h
    split at h
    · cases h
      obtain ⟨q, hq, rfl⟩ := List.mem_map.mp hp
      exact ⟨(Parameter.kind_isData hq).2, rfl⟩
    · cases h
      cases hp

/-- No pin takes a table expression. -/
theorem Represented.findPin?_unbroken {g : Graph} (h : Represented g) {node : Key} {id : Value}
    {p : Pin} (hp : g.findPin? node id = .ok (some p)) :
    p.kind ≠ .table ∧ p.default.isUnbroken = true := by
  obtain ⟨ps, hps, hp⟩ := Graph.findPin?_mem hp
  obtain ⟨t, n, derived, ht, _, hd, hinputs, houtputs⟩ := Graph.pinsOf_ok hps
  have hlisted := Library.pins_unbroken t (h.type_mem ht)
  have hderived : ∀ p ∈ derived, p.kind ≠ .table ∧ p.default.isUnbroken = true := fun p hp => by
    obtain ⟨hkind, hdefault⟩ := Graph.derivedPins_plain hd p hp
    exact ⟨hkind, hdefault ▸ rfl⟩
  rw [hinputs, houtputs] at hp
  rcases hp with hp | hp
  · rcases List.mem_append.mp hp with hp | hp
    · exact hlisted p (List.mem_append_left _ hp)
    · exact hderived p (List.mem_filter.mp hp).1
  · rcases List.mem_append.mp hp with hp | hp
    · exact hlisted p (List.mem_append_right _ hp)
    · exact hderived p (List.mem_filter.mp hp).1

theorem Lua.not_isNumberText_table : ¬IsNumberText "table" := by
  rintro ⟨cs, hcs, h | h⟩
  · have hl : cs = "table".toList := by rw [h, String.toList_ofList]
    rw [hl] at hcs
    exact absurd hcs (by decide)
  · have hl : "table".toList = '-' :: cs := by rw [h, String.toList_ofList]
    simp at hl

/-- Only the text itself is shown like this. -/
theorem Value.eq_of_display_table {v : Value} (h : v.display = "table") : v = .text "table" := by
  cases v with
  | text s => exact congrArg Value.text h
  | null | omitted => exact absurd h (by decide)
  | bool b => exact absurd h (by cases b <;> decide)
  | int n =>
    have hn : toString n = "table" := h
    exact absurd (hn ▸ Lua.isNumberText_int n) Lua.not_isNumberText_table
  | float x =>
    have hx : x.toText = "table" := h
    by_cases hfinite : x.isFinite = true
    · exact absurd (hx ▸ Lua.isNumberText_toText hfinite) Lua.not_isNumberText_table
    · unfold Binary64.toText at hx
      rw [Bool.not_eq_true] at hfinite
      rw [hfinite] at hx
      have hl := congrArg String.toList hx
      cases hn : x.isNaN <;> cases hs : x.isNegative <;> rw [hn] at hl <;> simp [hs] at hl
  | list items =>
    have hl := congrArg String.toList h
    simp [display, inspect] at hl
  | table entries =>
    have hl := congrArg String.toList h
    simp [display, inspect] at hl

namespace Compilation.Unbroken

variable {c : Compilation} {node : Key}

theorem stored (h : c.Unbroken) {n : Node} (hn : c.graph.node? node = some n) (k : Key) :
    ((n.properties.find? k).getD .null).isUnbroken = true := by
  cases hv : n.properties.find? k with
  | none => rfl
  | some v =>
    obtain ⟨e, he, rfl⟩ := Table.exists_mem_of_find? hv
    exact h.properties n (List.mem_of_find?_eq_some hn) e he

theorem property (h : c.Unbroken) {key : Key} {fallback v : Value}
    (hfallback : fallback.isUnbroken = true) (hv : c.property node key fallback = .ok v) :
    v.isUnbroken = true := by
  obtain ⟨t, ht, hv⟩ := bind_ok hv
  obtain ⟨n, hn, hv⟩ := bind_ok hv
  have hstored := h.stored (Graph.node_ok_iff.mp hn) key
  have either {q : Bool} {a b : Value} (ha : a.isUnbroken = true) (hb : b.isUnbroken = true) :
      (if q then a else b).isUnbroken = true := by
    cases q
    · exact hb
    · exact ha
  dsimp only at hv
  split at hv
  · cases hv
    exact either hfallback hstored
  · rename_i p hp
    obtain ⟨_, _, hv⟩ := bind_ok hv
    cases hv
    have hdefault := Library.properties_unbroken t (h.represented.type_mem ht) p
      (List.mem_of_find?_eq_some hp)
    exact either hfallback (either hdefault hstored)

/-- A local that is not declared as a table is written by a literal. -/
theorem kind_ne_table (h : c.Unbroken) (hst : c.graph.statement? node = some .declare) {v : Value}
    (hv : c.property node "variableType" (.text "number") = .ok v) : Kind.ofValue v ≠ .table := by
  obtain ⟨t, ht, htype, hst⟩ := h.represented.statement_mem hst
  obtain ⟨hid, p, hp, henum, hset, hdefault, hoptions⟩ := Library.declare_property t ht hst
  obtain ⟨n, hn, _⟩ := Graph.typeOf_ok_iff.mp htype
  have hlocal := h.locals n (List.mem_of_find?_eq_some hn)
    ((Graph.typeOf_id htype hn).symm.trans hid)
  obtain ⟨value, hvalue, hcheck, rfl⟩ := property_ok htype hn hp hv
  change value = if (n.properties.get "variableType").isNull then p.default
    else n.properties.get "variableType" at hvalue
  cases hnull : (n.properties.get "variableType").isNull with
  | true =>
    rw [hnull, if_pos rfl] at hvalue
    rw [hvalue, hset, if_neg Bool.false_ne_true]
    exact hdefault
  | false =>
    rw [hnull, if_neg Bool.false_ne_true] at hvalue
    rw [hvalue] at hcheck ⊢
    rw [hnull, if_neg Bool.false_ne_true]
    -- a type that passed the check is an option, so only its very name gives a table
    have hoption := Property.mem_of_hasOption (check_enum henum hnull hcheck)
    exact fun hkind => hlocal (Value.eq_of_display_table (hoptions (.text _) hoption hkind))

theorem unwired (h : c.Unbroken) {pin : Key} {text : Option String}
    (hu : c.unwired node pin = .ok text) : ∀ x ∈ text, OneLine x := by
  obtain ⟨found, hp, hu⟩ := bind_ok hu
  obtain ⟨n, hn, hu⟩ := bind_ok hu
  cases found with
  | none => cases hu
  | some p =>
    obtain ⟨hkind, hdefault⟩ := h.represented.findPin?_unbroken hp
    have hinline := h.stored (Graph.node_ok_iff.mp hn) (inlineKey pin)
    have written {v : Value} {key : String} (hv : v.isUnbroken = true)
        (hl : (c.literal node p.kind v key >>= fun text => pure (some text)) = .ok text) :
        ∀ x ∈ text, OneLine x := by
      obtain ⟨literal, hliteral, ht⟩ := bind_ok hl
      cases ht
      intro x hx
      cases hx
      exact Lua.literal_oneLine hkind hv (literal_ok hliteral)
    dsimp only at hu
    split_ifs at hu
    · exact written hinline hu
    · exact written hdefault hu
    · cases hu
      exact fun x hx => by cases hx

end Compilation.Unbroken

/-! ## Values -/

namespace Lua

theorem oneLine_call {function : String} {arguments : List String} (hf : OneLine function)
    (ha : ∀ x ∈ arguments, OneLine x) : OneLine (call function arguments) := by
  have harguments : OneLine (", ".intercalate arguments) := .intercalate (by decide) ha
  simp +decide [call, hf, harguments]

theorem oneLine_binaryText {operator a b : String} (ho : OneLine operator) (ha : OneLine a)
    (hb : OneLine b) : OneLine (binaryText operator a b) := by
  simp +decide [binaryText, ho, ha, hb]

theorem comparison_oneLine {v node : Value} {operator : String}
    (h : comparison v node = .ok operator) : OneLine operator := by
  have hall : ∀ op ∈ comparisons, OneLine (if op == "!=" then "~=" else op) := by decide
  unfold comparison at h
  dsimp only at h
  generalize Text.strip (if v.isNull = true then "==" else v.display) = op at h
  split at h
  · rename_i hop
    cases h
    exact hall _ (List.contains_iff_mem.mp hop)
  · cases h

end Lua

/-- The texts that an expression writes whatever the graph says. -/
def Expression.texts : Expression → List String
  | .binary operator identity => [operator, identity]
  | .apply function _ fallback => [function, fallback]
  | .call function slots => function :: slots.filterMap Slot.placeholder
  | _ => []

def Statement.texts : Statement → List String
  | .call function slots => function :: slots.filterMap Slot.placeholder
  | _ => []

theorem Library.expression_texts : ∀ t ∈ types, ∀ e ∈ t.expression?, ∀ s ∈ e.texts, OneLine s := by
  decide

theorem Library.statement_texts : ∀ t ∈ types, ∀ st ∈ t.statement?, ∀ s ∈ st.texts, OneLine s := by
  decide

theorem Library.literal_kinds : ∀ t ∈ types, ∀ e ∈ t.expression?, e ≠ .literal .table := by
  decide

section

variable {c : Compilation} (h : c.Unbroken) {eval : Evaluate}
  (heval : ∀ node pin, (eval node pin).Gives OneLine)
include h heval

namespace Compilation

variable (node : Key)

theorem input_gives (pin : Key) :
    (c.input eval node pin).Gives fun text => ∀ x ∈ text, OneLine x := by
  unfold input
  split
  · refine (heval _ _).bind fun text ht => .pure fun x hx => ?_
    cases hx
    exact ht
  · exact .lift fun text ht => h.unwired ht

theorem inputOr_gives (pin : Key) {fallback : String} (hf : OneLine fallback) :
    (c.inputOr eval node pin fallback).Gives OneLine := by
  refine (c.input_gives h heval node pin).bind fun text ht => .pure ?_
  cases text with
  | none => exact hf
  | some text => exact ht text rfl

theorem inputs_gives (pins : List Key) :
    (c.inputs eval node pins).Gives fun texts => ∀ x, some x ∈ texts → OneLine x := by
  induction pins with
  | nil => exact .pure fun x hx => by cases hx
  | cons pin rest ih =>
    refine (c.input_gives h heval node pin).bind fun text ht => ih.bind fun texts hts => .pure ?_
    intro x hx
    rcases List.mem_cons.mp hx with hx | hx
    · exact ht x hx.symm
    · exact hts x hx

theorem callArguments_gives (pins : List Key) {placeholders : List (Option String)}
    (hp : ∀ x, some x ∈ placeholders → OneLine x) :
    (c.callArguments eval node pins placeholders).Gives fun args => ∀ x ∈ args, OneLine x := by
  refine (c.inputs_gives h heval node pins).bind fun texts ht => .lift fun args ha x hx => ?_
  exact (Lua.arguments_mem ha x hx).elim (ht x) (hp x)

theorem slotArguments_gives {slots : List Slot}
    (hs : ∀ x ∈ slots.filterMap Slot.placeholder, OneLine x) :
    (c.slotArguments eval node slots).Gives fun args => ∀ x ∈ args, OneLine x := by
  refine c.callArguments_gives h heval node _ fun x hx => hs x ?_
  obtain ⟨slot, hslot, hx⟩ := List.mem_map.mp hx
  exact List.mem_filterMap.mpr ⟨slot, hslot, hx⟩

end Compilation

theorem Expression.emit_gives (node pin reader : Key) {e : Expression}
    (htexts : ∀ s ∈ e.texts, OneLine s) (hkind : e ≠ .literal .table) :
    (e.emit c eval node pin reader).Gives OneLine := by
  have binary {operator identity : String} (ho : OneLine operator) (hi : OneLine identity) :
      Emit.Gives OneLine (do
        let a ← c.inputOr eval node "a" identity
        let b ← c.inputOr eval node "b" identity
        return binaryText operator a b) := by
    refine (c.inputOr_gives h heval node _ hi).bind fun a ha =>
      (c.inputOr_gives h heval node _ hi).bind fun b hb => .pure ?_
    exact Lua.oneLine_binaryText ho ha hb
  cases e with
  | globalName =>
    refine .lift fun name hn => ?_
    exact (Compilation.variableName_free h.unreserved hn).1.oneLine
  | localName => exact .lift fun name hn => (c.nameProperty_isName hn).oneLine
  | literal kind =>
    refine .lift fun text ht => ?_
    obtain ⟨v, hv, ht⟩ := bind_ok ht
    exact Lua.literal_oneLine (fun hk => hkind (hk ▸ rfl)) (h.property rfl hv)
      (Compilation.literal_ok ht)
  | binary operator identity => exact binary (htexts _ (.head _)) (htexts _ (.tail _ (.head _)))
  | compare =>
    refine .bind_lift fun v _ => .bind_lift fun operator ho => binary ?_ (by decide)
    cases hop : Lua.comparison v node with
    | error e =>
      rw [Compilation.comparison, hop] at ho
      cases ho
    | ok symbol =>
      rw [Compilation.comparison, hop] at ho
      cases ho
      exact Lua.comparison_oneLine hop
  | apply function argument fallback =>
    have hfallback := htexts fallback (.tail _ (.head _))
    refine (c.inputOr_gives h heval node _ hfallback).bind fun text ht => .pure ?_
    exact Lua.oneLine_call (htexts _ (.head _)) (List.forall_mem_singleton.mpr ht)
  | call function slots =>
    refine (c.slotArguments_gives h heval node fun x hx => htexts x (.tail _ hx)).bind
      fun args ha => .pure ?_
    exact Lua.oneLine_call (htexts _ (.head _)) ha
  | bound output =>
    cases output with
    | none => exact .boundOutput _ _ _
    | some output => exact .boundOutput _ _ _

omit heval in
theorem Compilation.evaluateWithin_gives (steps : Nat) (reader : Key) (path : List Key)
    (node pin : Key) : (c.evaluateWithin steps reader path node pin).Gives OneLine := by
  -- what a node is made of is evaluated in fewer steps, with the node on the path
  induction steps generalizing reader path node pin with
  | zero => exact .fail _
  | succ steps ih =>
    rw [evaluateWithin_succ]
    unfold evaluateStep evaluateCall
    refine .ite ((Emit.Gives.fail (Q := fun _ => False) _).bind fun _ => False.elim) ?_
    refine (Emit.Gives.checkDepth c _ node).bind fun _ _ => (Emit.Gives.tick c node).bind fun _ _ =>
      .bind_lift fun t ht => (Emit.Gives.record _).bind fun _ _ => ?_
    have htype := h.represented.type_mem ht
    cases hexp : t.expression? with
    | some e =>
      exact e.emit_gives h (ih node _) node pin reader (Library.expression_texts t htype e hexp)
        (Library.literal_kinds t htype e hexp)
    | none =>
      dsimp only
      split
      · exact .boundOutput node pin reader
      · exact .fail _

end

/-! ## Lines -/

/-- The comment over a branch whose id breaks the line. -/
def Graph.IsBranchComment (g : Graph) (line : String) : Prop :=
  ∃ n ∈ g.nodes, n.definitionId = Library.sequence.id ∧ ∃ id ∈ n.branchIds, ¬OneLine id ∧
    ∃ width, line = Settings.blanks width ++
      ("-- sequence " ++ Text.lower (Pin.branchOut id (Text.upper id)).label)

/-- A line that is one line, but for the comments over branches. -/
def Graph.Keeps (g : Graph) (line : String) : Prop := OneLine line ∨ g.IsBranchComment line

def Graph.KeepsAll (g : Graph) (lines : List String) : Prop := ∀ line ∈ lines, g.Keeps line

theorem Graph.keepsAll_nil {g : Graph} : g.KeepsAll [] := fun _ h => by cases h

theorem Graph.Keeps.single {g : Graph} {line : String} (h : g.Keeps line) : g.KeepsAll [line] :=
  List.forall_mem_singleton.mpr h

theorem Graph.KeepsAll.append {g : Graph} {lines more : List String} (h : g.KeepsAll lines)
    (hm : g.KeepsAll more) : g.KeepsAll (lines ++ more) := List.forall_mem_append.mpr ⟨h, hm⟩

def Graph.KeepsText (g : Graph) (text : String) : Prop :=
  ∀ width, g.Keeps (Settings.blanks width ++ text)

theorem Graph.keepsText {g : Graph} {text : String} (h : OneLine text) : g.KeepsText text :=
  fun width => .inl ((oneLine_blanks width).append h)

def Part.Keeps (g : Graph) : Part → Prop
  | .line text => g.KeepsText text
  | .follow _ => True
  | .block _ comment => OneLine comment
  | .loop index => OneLine index

def Opening.Keeps (g : Graph) : Opening → Prop
  | .silent parts => ∀ part ∈ parts, part.Keeps g
  | .parameters ps => ∀ p ∈ ps, OneLine p.luaName
  | .line text parts => OneLine text ∧ ∀ part ∈ parts, part.Keeps g
  | .resume call => OneLine call

theorem Part.follow_keeps (g : Graph) (pin : String) :
    ∀ part ∈ [Part.follow pin], part.Keeps g := List.forall_mem_singleton.mpr trivial

theorem Opening.Keeps.parts {g : Graph} {opening : Opening} (h : opening.Keeps g) :
    ∀ part ∈ opening.parts, part.Keeps g := by
  cases opening with
  | silent parts => exact h
  | parameters ps => exact Part.follow_keeps g _
  | line text parts => exact h.2
  | resume call => exact Part.follow_keeps g _

/-- The comment over a branch is kept to its line, unless the id of the branch is not. -/
theorem Graph.keepsText_branch {g : Graph} {n : Node} (hn : n ∈ g.nodes)
    (hid : n.definitionId = Library.sequence.id) {id : String} (hb : id ∈ n.branchIds) :
    g.KeepsText ("-- sequence " ++ Text.lower (Pin.branchOut id (Text.upper id)).label) := by
  by_cases h : OneLine id
  · refine keepsText (OneLine.append (by decide) (OneLine.lower ?_))
    unfold Pin.label
    split
    · exact h
    · exact h.upper
  · exact fun width => .inr ⟨n, hn, hid, id, hb, h, width, rfl⟩

theorem Library.sequence_id : ∀ t ∈ types, t.statement? = some .sequence → t.id = sequence.id := by
  decide

/-- The comments over the branches of a sequence. -/
theorem Represented.sequenceParts_keeps {g : Graph} (h : Represented g) {node : Key}
    {ps : Graph.PinSet} (hst : g.statement? node = some .sequence) (hps : g.pinsOf node = .ok ps) :
    ∀ part ∈ Site.sequenceParts ps.outputs, part.Keeps g := by
  obtain ⟨t, ht, htype, hst⟩ := h.statement_mem hst
  have hderives := (Library.sequence_iff t ht _ hst).mpr rfl
  obtain ⟨t', n, derived, htype', hn, hd, _, houtputs⟩ := Graph.pinsOf_ok hps
  cases htype.symm.trans htype'
  unfold Graph.derivedPins at hd
  rw [hderives] at hd
  cases hd
  rw [Library.sequence_outputs t ht hderives, List.nil_append] at houtputs
  have hid : n.definitionId = Library.sequence.id :=
    (Graph.typeOf_id htype hn).symm.trans (Library.sequence_id t ht hst)
  intro part hpart
  obtain ⟨pin, hpin, hpart⟩ := List.mem_flatMap.mp hpart
  rw [houtputs] at hpin
  obtain ⟨id, hb, rfl⟩ := List.mem_map.mp (List.mem_filter.mp hpin).1
  rcases List.mem_cons.mp hpart with rfl | hpart
  · exact Graph.keepsText_branch (List.mem_of_find?_eq_some hn) hid hb
  · cases List.mem_singleton.mp hpart
    exact trivial

theorem Site.branchParts_keeps (s : Site) (c : Compilation) :
    ∀ part ∈ s.branchParts c, part.Keeps c.graph := by
  have hline (text : String) (ht : OneLine text) : (Part.line text).Keeps c.graph :=
    Graph.keepsText ht
  have hblock (pin comment : String) (hc : OneLine comment) :
      (Part.block pin comment).Keeps c.graph := hc
  unfold branchParts
  refine List.forall_mem_cons.mpr ⟨hblock _ _ (by decide), List.forall_mem_append.mpr
    ⟨?_, List.forall_mem_singleton.mpr (hline _ (by decide))⟩⟩
  split
  · exact fun part hp => by cases hp
  · exact List.forall_mem_cons.mpr ⟨hline _ (by decide),
      List.forall_mem_singleton.mpr (hblock _ _ (by decide))⟩

section

variable {c : Compilation} (h : c.Unbroken) {eval : Evaluate}
  (heval : ∀ node pin, (eval node pin).Gives OneLine) (s : Site)
include h heval

theorem Site.eventSlots_gives (ps : List Parameter) :
    (s.eventSlots c eval ps).Gives fun slots => ∀ x, some x ∈ slots → OneLine x := by
  induction ps with
  | nil => exact .pure fun x hx => by cases hx
  | cons p rest ih =>
    refine (c.input_gives h heval s.node _).bind fun text ht => ih.bind fun slots hs =>
      .pure fun x hx => ?_
    rcases List.mem_cons.mp hx with hx | hx
    · split at hx
      · cases hx
        cases p.kind <;> decide
      · exact ht x hx.symm
    · exact hs x hx

theorem Site.localValue_gives {kind : Kind} (hkind : kind ≠ .table) :
    (s.localValue c eval kind).Gives OneLine := by
  unfold localValue
  split
  · exact heval _ _
  · refine .lift fun text ht => ?_
    obtain ⟨v, hv, ht⟩ := bind_ok ht
    split at ht
    · cases ht
      cases kind <;> decide
    · exact Lua.literal_oneLine hkind (h.property rfl hv) (Compilation.literal_ok ht)

/-- What a statement opens with keeps to its lines, and so do the parts that it leaves to do. -/
theorem Statement.gather_gives {st : Statement} (hst : c.graph.statement? s.node = some st) :
    (st.gather c eval s).Gives fun opening => opening.Keeps c.graph := by
  have follow := Part.follow_keeps c.graph "exec_out"
  cases st with
  | follow => exact .pure follow
  | openEvent =>
    cases he : c.event? s.node with
    | none =>
      simp only [gather, he]
      exact .pure follow
    | some signature =>
      simp only [gather, he]
      exact .pure fun p hp => (h.parameters _ signature he p hp).oneLine
  | callEvent =>
    refine .bind_lift fun target _ => ?_
    split
    · exact .pure ⟨by decide, follow⟩
    · rename_i signature he
      refine (s.eventSlots_gives h heval _).bind fun slots hs =>
        .bind_lift fun args ha => .pure ⟨?_, follow⟩
      refine Lua.oneLine_call (h.unreserved.functions _ signature he).1.oneLine fun x hx => ?_
      refine (Lua.arguments_mem ha x hx).elim (hs x) fun hx => ?_
      obtain ⟨_, _, hx⟩ := List.mem_map.mp hx
      cases hx
      decide
  | branch =>
    refine (c.inputOr_gives h heval s.node _ (by decide)).bind fun condition hc => .pure ⟨?_, ?_⟩
    · simp +decide [hc]
    · exact s.branchParts_keeps c
  | loop =>
    have hinput (pin : Key) {fallback : String} (hf : OneLine fallback) :=
      c.inputOr_gives h heval s.node pin hf
    refine .bind_lift fun index hi => ?_
    have hindex := (c.nameProperty_isName hi).oneLine
    refine (hinput _ (by decide)).bind fun first hfirst => (hinput _ (by decide)).bind
      fun last hlast => (hinput _ (by decide)).bind fun step hstep => .pure ⟨?_, ?_⟩
    · simp +decide [hindex, hfirst, hlast, hstep]
    · have hclose : (Part.line "end").Keeps c.graph := Graph.keepsText (by decide)
      exact List.forall_mem_cons.mpr ⟨hindex, List.forall_mem_cons.mpr ⟨hclose,
        List.forall_mem_singleton.mpr trivial⟩⟩
  | sequence =>
    exact .bind_lift fun pins hp => .pure (h.represented.sequenceParts_keeps hst hp)
  | assign =>
    refine (c.inputOr_gives h heval s.node _ (by decide)).bind fun value hv =>
      .bind_lift fun name hn => .pure ⟨?_, follow⟩
    have hname := (Compilation.variableName_free h.unreserved hn).1.oneLine
    simp +decide [hname, hv]
  | declare =>
    refine .bind_lift fun name hn => .bind_lift fun kind hk =>
      (s.localValue_gives h heval (h.kind_ne_table hst hk)).bind fun value hv =>
        .pure ⟨?_, follow⟩
    have hname := (c.nameProperty_isName hn).oneLine
    simp +decide [hname, hv]
  | call function slots =>
    obtain ⟨t, ht, _, hst⟩ := h.represented.statement_mem hst
    have htexts := Library.statement_texts t ht _ hst
    refine (c.slotArguments_gives h heval s.node fun x hx => htexts x (.tail _ hx)).bind
      fun args ha => .pure ⟨?_, follow⟩
    exact Lua.oneLine_call (htexts function (.head _)) ha
  | resume =>
    have hplaceholders : ∀ x, some x ∈ [some "nil", some "nil"] → OneLine x := by
      intro x hx
      have hx : x = "nil" := by simpa using hx
      exact hx ▸ by decide
    refine (c.input_gives h heval s.node _).bind fun coroutine hc =>
      (c.callArguments_gives h heval s.node _ hplaceholders).bind fun args ha => .pure ?_
    refine Lua.oneLine_call (by decide) fun x hx => ?_
    rcases List.mem_append.mp hx with hx | hx
    · exact hc x (Option.mem_toList.mp hx)
    · exact ha x hx

end

section

variable {c : Compilation} {chain : Chain} (s : Site)

theorem Site.lineAt_gives (level : Int) {text : String} (ht : c.graph.KeepsText text) :
    (s.lineAt c level text).Gives c.graph.Keeps := by
  refine .bind_lift fun line hl => (Emit.Gives.record _).bind fun _ _ => .pure ?_
  obtain ⟨width, rfl⟩ := c.line_ok hl
  exact ht width

theorem Site.bindParameters_gives {ps : List Parameter} (h : ∀ p ∈ ps, OneLine p.luaName) :
    (s.bindParameters ps).Gives fun _ => True := by
  induction ps with
  | nil => exact .pure trivial
  | cons p rest ih =>
    obtain ⟨hp, hrest⟩ := List.forall_mem_cons.mp h
    exact (Emit.Gives.bindOutput hp _ _).bind fun _ _ => ih hrest

theorem Opening.perform_gives {opening : Opening} (h : opening.Keeps c.graph) :
    (opening.perform c s).Gives c.graph.KeepsAll := by
  cases opening with
  | silent parts => exact .pure Graph.keepsAll_nil
  | parameters ps =>
    exact (s.bindParameters_gives h).bind fun _ _ => .pure Graph.keepsAll_nil
  | line text parts =>
    exact (s.lineAt_gives _ (Graph.keepsText h.1)).bind fun line hl =>
      .pure hl.single
  | resume call =>
    refine (Emit.Gives.temp _ _).bind fun success hs => (Emit.Gives.bindOutput hs _ _).bind
      fun success hs => (Emit.Gives.temp _ _).bind fun result hr =>
        (Emit.Gives.bindOutput hr _ _).bind fun result hr => ?_
    have hcall : OneLine call := h
    have htext : OneLine ("local " ++ success ++ ", " ++ result ++ " = " ++ call) := by
      simp +decide [hs, hr, hcall]
    exact (s.lineAt_gives _ (Graph.keepsText htext)).bind fun line hl =>
      .pure hl.single

variable (hchain : ∀ target level path,
  (chain target level path).Gives c.graph.KeepsAll)
include hchain

theorem Chain.all_gives (level : Int) (path targets : List Key) :
    (chain.all level path targets).Gives c.graph.KeepsAll := by
  induction targets with
  | nil => exact .pure Graph.keepsAll_nil
  | cons target rest ih =>
    exact (hchain target level path).bind fun lines hl => ih.bind fun more hm =>
      .pure (hl.append hm)

theorem Site.branchAt_gives (pin : Key) (level : Int) (path : List Key) :
    (s.branchAt c chain pin level path).Gives c.graph.KeepsAll := by
  unfold branchAt
  split
  · exact .pure Graph.keepsAll_nil
  · exact .ite (.inBlock (chain.all_gives hchain _ _ _)) (chain.all_gives hchain _ _ _)

theorem Site.body_gives (pin : String) {comment : String} (hc : OneLine comment) :
    (s.body c chain pin comment).Gives c.graph.KeepsAll := by
  refine (s.branchAt_gives hchain _ _ _).bind fun lines hl => .ite ?_ (.pure hl)
  exact (s.lineAt_gives _ (Graph.keepsText hc)).bind fun line hl =>
    .pure hl.single

theorem Part.emit_gives {part : Part} (h : part.Keeps c.graph) :
    (part.emit c chain s).Gives c.graph.KeepsAll := by
  cases part with
  | line text =>
    exact (s.lineAt_gives _ h).bind fun line hl => .pure hl.single
  | follow pin => exact s.branchAt_gives hchain _ _ _
  | block pin comment => exact s.body_gives hchain pin h
  | loop index =>
    exact .inBlock ((Emit.Gives.bindOutput h _ _).bind fun _ _ =>
      s.body_gives hchain _ (by decide))

theorem Part.emitAll_gives {parts : List Part} (h : ∀ part ∈ parts, part.Keeps c.graph) :
    (Part.emitAll c chain s parts).Gives c.graph.KeepsAll := by
  induction parts with
  | nil => exact .pure Graph.keepsAll_nil
  | cons part rest ih =>
    obtain ⟨hpart, hrest⟩ := List.forall_mem_cons.mp h
    exact (Part.emit_gives s hchain hpart).bind fun lines hl => (ih hrest).bind fun more hm =>
      .pure (hl.append hm)

end

section

variable {c : Compilation} (h : c.Unbroken)
include h

theorem Compilation.chainWithin_gives (steps : Nat) (node : Key) (level : Int) (path : List Key) :
    (c.chainWithin steps node level path).Gives c.graph.KeepsAll := by
  induction steps generalizing node level path with
  | zero => exact .fail _
  | succ steps ih =>
    rw [chainWithin_succ]
    unfold chainStep chainCall
    refine .ite ((Emit.Gives.fail (Q := fun _ => False) _).bind fun _ => False.elim) ?_
    refine (Emit.Gives.checkDepth c _ node).bind fun _ _ => (Emit.Gives.tick c node).bind fun _ _ =>
      .bind_lift fun t ht => ?_
    cases hst : t.statement? with
    | none => exact .fail _
    | some st =>
      have hst : c.graph.statement? node = some st := by
        unfold Graph.statement?
        rw [ht]
        exact hst
      -- the chains that leave the statement are what the induction speaks of
      dsimp only
      rw [Statement.emit_eq _ _ _ h.represented]
      refine (Emit.Gives.record _).bind fun _ _ =>
        (st.gather_gives h (c.evaluateWithin_gives h _ _ _) _ hst).bind fun opening ho =>
          (Opening.perform_gives _ ho).bind fun lines hl =>
            (Part.emitAll_gives _ ih ho.parts).bind fun more hm => .pure ?_
      exact hl.append hm

theorem Compilation.entry_gives (node : Key) (level : Int) :
    (c.entry node level).Gives c.graph.KeepsAll :=
  .inBlock (c.chainWithin_gives h _ _ _ _)

/-- Between functions all temporaries that were issued stand on one line. -/
theorem Idle.oneLine {s : Progress} (hs : Idle c s) : s.symbols.OneLine := by
  induction hs with
  | start => exact .empty
  | entry node level _ ih => exact (c.entry_gives h node level _ ih).1

end

/-- Every line of a function that was emitted is one line, or the comment over a branch whose id
breaks it: if no local was declared as a table, and no table has a key that was typed in brackets
and breaks the line. -/
theorem entry_lines_unbroken {document : Value} {c : Compilation} {globals : List Variable}
    {declarations : Variable.Declarations} {customs : List Node}
    (hload : Graph.load document Library.catalogue = .ok c.graph)
    (hglobals : Variable.declare globals = .ok declarations)
    (hnames : c.globals = declarations.names) (hevents : c.events = Signature.ofNodes customs)
    (hlocals : ∀ n ∈ c.graph.nodes, n.definitionId = Library.setLocal.id →
      n.properties.get "variableType" ≠ .text "table")
    (hkeys : ∀ n ∈ c.graph.nodes, ∀ e ∈ n.properties, e.2.isUnbroken = true)
    {s s' : Progress} (hs : Idle c s) {entry : Key} {level : Int} {lines : List String}
    (hrun : c.entry entry level s = (.ok lines, s')) :
    ∀ line ∈ lines, OneLine line ∨ c.graph.IsBranchComment line := by
  have hc : c.Unbroken := {
    represented := (Loaded.of_load hload).toRepresented
    unreserved := Compilation.unreserved hglobals hnames hevents
    parameters := c.namesParameters hevents
    properties := hkeys
    locals := hlocals }
  have hgives := c.entry_gives hc entry level s (hs.oneLine hc)
  exact hgives.2 lines (congrArg Prod.fst hrun)

/-- Names, keys, numbers and texts that break lines. -/
def brokenTexts : Value := Graph.outline
  [("boot", "event_start", []),
    ("steps", "sequence", [("branches", .list [.text "first", .text "second"])]),
    ("keep", "set_var", [("name", .text "a\nb"), ("pin:value",
      .object [("x\ny", .text "c\r\nd"), ("[1]", .int 2)])]),
    ("loop", "for_loop", [("index", .text "i\nj"), ("pin:end", .text "\n3\n")]),
    ("note", "set_local_var", [("name", .text "n\rm"), ("variableType", .text "string"),
      ("value", .text "p\nq")])]
  [("boot", "exec_out", "steps", "exec_in"), ("steps", "first", "keep", "exec_in"),
    ("steps", "second", "loop", "exec_in"), ("loop", "loop", "note", "exec_in")]

def brokenTextsWritten : List String := [
  "  -- sequence first", "  a_b = \x7b [\"x\\ny\"] = \"c\\r\\nd\", [1] = 2 \x7d",
  "  -- sequence second", "  for i_j = 0, 3, 1 do", "    local n_m = \"p\\nq\"", "  end"]

theorem entry_lines_unbroken_brokenTexts : ∃ g s',
    Graph.load brokenTexts Library.catalogue = .ok g ∧
    Compilation.entry { graph := g } "boot" 1 {} = (.ok brokenTextsWritten, s') ∧
    ∀ line ∈ brokenTextsWritten, OneLine line ∨ g.IsBranchComment line := by
  have heval : ((Graph.load brokenTexts Library.catalogue).toOption.any fun g =>
      (Compilation.entry { graph := g } "boot" 1 {}).1.toOption == some brokenTextsWritten &&
      (g.nodes.all fun n => (n.properties.get "variableType").display != "table") &&
      g.nodes.all fun n => n.properties.all fun e => e.2.isUnbroken) = true := by
    decide +kernel
  obtain ⟨g, hload, heval⟩ := exists_ok_of_any heval
  obtain ⟨⟨hlines, hlocals⟩, hkeys⟩ := by simpa only [Bool.and_eq_true] using heval
  rcases hrun : Compilation.entry { graph := g } "boot" 1 {} with ⟨e | lines, s'⟩
  · rw [hrun] at hlines
    cases hlines
  rw [hrun] at hlines
  cases Option.some.inj (eq_of_beq hlines)
  have hdeclared : Variable.declare [] = .ok {} := rfl
  have hevents : ([] : List (Key × Signature)) = Signature.ofNodes [] := rfl
  refine ⟨g, s', hload, hrun, entry_lines_unbroken (c := { graph := g }) hload hdeclared rfl hevents
    (fun n hn _ ht => ?_) (fun n hn => ?_) .start hrun⟩
  · have hne := List.all_eq_true.mp hlocals n hn
    rw [ht] at hne
    exact absurd hne (by decide)
  · exact List.all_eq_true.mp (List.all_eq_true.mp hkeys n hn)

/-- A branch whose id breaks the line, and a key in brackets that does. -/
def brokenLines : Value := Graph.outline
  [("boot", "event_start", []), ("steps", "sequence", [("branches", .list [.text "a\nb"])]),
    ("keep", "set_var", [("name", .text "t"), ("pin:value", .object [("[x\ny]", .int 1)])])]
  [("boot", "exec_out", "steps", "exec_in"), ("steps", "a\nb", "keep", "exec_in")]

def brokenLinesWritten : List String := ["  -- sequence a\nb", "  t = \x7b [x\ny] = 1 \x7d"]

/-- The document passes the check and declares no local, and none of its lines is one line. -/
theorem brokenLines_emitted : ∃ g s',
    (Document.check (some Library.catalogue) true brokenLines).fault = none ∧
    Graph.load brokenLines Library.catalogue = .ok g ∧
    (∀ n ∈ g.nodes, n.definitionId ≠ Library.setLocal.id) ∧
    Compilation.entry { graph := g } "boot" 1 {} = (.ok brokenLinesWritten, s') ∧
    ∀ line ∈ brokenLinesWritten, ¬OneLine line := by
  have haccepted : (Document.check (some Library.catalogue) true brokenLines).fault = none := by
    decide +kernel
  have heval : ((Graph.load brokenLines Library.catalogue).toOption.any fun g =>
      (g.nodes.all fun n => n.definitionId != Library.setLocal.id) &&
      (Compilation.entry { graph := g } "boot" 1 {}).1.toOption == some brokenLinesWritten) =
      true := by
    decide +kernel
  obtain ⟨g, hload, heval⟩ := exists_ok_of_any heval
  obtain ⟨hlocals, hlines⟩ := Bool.and_eq_true_iff.mp heval
  rcases hrun : Compilation.entry { graph := g } "boot" 1 {} with ⟨e | lines, s'⟩
  · rw [hrun] at hlines
    cases hlines
  rw [hrun] at hlines
  cases Option.some.inj (eq_of_beq hlines)
  refine ⟨g, s', haccepted, hload, fun n hn => ?_, hrun, by decide⟩
  exact bne_iff_ne.mp (List.all_eq_true.mp hlocals n hn)

end CartGraph
