import CartGraph.Emit.Compilation
import CartGraph.Proofs.Graph.Wire

/-! # Faults of literals, properties, types and settings

A literal that can not be written is a fault of a property that is told of no node, so whoever asked
for it can tell it of its own. A property that does not fit is a fault of its node, and so is a type
that is not known. A setting that was given a value of the wrong kind, or a unit of indentation that
there is no room for, shows where it is put to use. -/
namespace CartGraph

theorem bind_error {x : Except ε α} {f : α → Except ε β} {e : ε} (h : x >>= f = .error e) :
    x = .error e ∨ ∃ a, x = .ok a ∧ f a = .error e := by
  cases x with
  | error e' =>
    cases h
    exact .inl rfl
  | ok a => exact .inr ⟨a, rfl, h⟩

theorem map_ok {x : Except ε α} {f : α → β} {b : β} (h : x.map f = .ok b) :
    ∃ a, x = .ok a ∧ f a = b := by
  cases x with
  | error e => cases h
  | ok a => exact ⟨a, rfl, Except.ok.inj h⟩

theorem mapError_ok {x : Except ε α} {f : ε → ε'} {a : α} (h : x.mapError f = .ok a) :
    x = .ok a := by
  cases x with
  | error e => cases h
  | ok _ => exact congrArg _ (Except.ok.inj h)

theorem mapError_error {x : Except ε α} {f : ε → ε'} {e' : ε'} (h : x.mapError f = .error e') :
    ∃ e, x = .error e ∧ e' = f e := by
  cases x with
  | error e => exact ⟨e, rfl, (Except.error.inj h).symm⟩
  | ok _ => cases h

theorem map_error {x : Except ε α} {f : α → β} {e : ε} (h : x.map f = .error e) : x = .error e := by
  cases x with
  | error e' =>
    cases h
    rfl
  | ok a => cases h

/-! ## Literals -/

namespace Lua

def Invalid (e : CompileError) : Prop := ∃ key v reason, e = .invalidProperty .null key v reason

variable {key : String} {v : Value} {e : CompileError}

theorem invalid_error {reason : String} (h : invalid key v reason = .error e) : Invalid e := by
  cases h
  exact ⟨_, _, _, rfl⟩

theorem floatLiteral_error {x : Binary64} (h : floatLiteral key x = .error e) : Invalid e := by
  unfold floatLiteral at h
  split at h
  · exact invalid_error h
  · cases h

theorem keyLiteral_error {k : Key} (h : keyLiteral k = .error e) : Invalid e := by
  cases k with
  | float x => exact floatLiteral_error (map_error h)
  | null | bool | int | text => cases h

mutual

theorem anyLiteral_error (key : String) (v : Value) (e : CompileError)
    (h : anyLiteral key v = .error e) : Invalid e := by
  cases v with
  | float x =>
    rw [anyLiteral] at h
    exact floatLiteral_error h
  | list items =>
    rw [anyLiteral] at h
    exact itemLiterals_error items e (map_error h)
  | table entries =>
    rw [anyLiteral] at h
    exact entryLiterals_error entries e (map_error h)
  | null | omitted | bool | int | text =>
    rw [anyLiteral] at h
    cases h

theorem itemLiterals_error (items : List Value) (e : CompileError)
    (h : itemLiterals items = .error e) : Invalid e := by
  cases items with
  | nil =>
    rw [itemLiterals] at h
    cases h
  | cons v rest =>
    rw [itemLiterals] at h
    rcases bind_error h with h | ⟨_, _, h⟩
    · exact anyLiteral_error "value" v e h
    rcases bind_error h with h | ⟨_, _, h⟩
    · exact itemLiterals_error rest e h
    · cases h

theorem entryLiterals_error (entries : List (Key × Value)) (e : CompileError)
    (h : entryLiterals entries = .error e) : Invalid e := by
  cases entries with
  | nil =>
    rw [entryLiterals] at h
    cases h
  | cons entry rest =>
    rw [entryLiterals] at h
    rcases bind_error h with h | ⟨_, _, h⟩
    · exact keyLiteral_error h
    rcases bind_error h with h | ⟨_, _, h⟩
    · exact anyLiteral_error "value" entry.2 e h
    rcases bind_error h with h | ⟨_, _, h⟩
    · exact entryLiterals_error rest e h
    · cases h

end

theorem numberLiteral_error (h : numberLiteral key v = .error e) : Invalid e := by
  cases v with
  | int n => cases h
  | float x => exact floatLiteral_error h
  | text s =>
    unfold numberLiteral at h
    dsimp only at h
    split at h
    · cases h
    · exact invalid_error h
  | null | omitted | bool | list | table => exact invalid_error h

theorem booleanLiteral_error (h : booleanLiteral key v = .error e) : Invalid e := by
  cases v with
  | bool b => cases h
  | text s =>
    unfold booleanLiteral at h
    dsimp only at h
    split at h
    · cases h
    · exact invalid_error h
  | int n =>
    unfold booleanLiteral at h
    dsimp only at h
    split at h
    · cases h
    split at h
    · cases h
    · exact invalid_error h
  | null | omitted | float | list | table => exact invalid_error h

theorem stringLiteral_error (h : stringLiteral key v = .error e) : Invalid e := by
  cases v with
  | list | table => exact invalid_error h
  | null | omitted | bool | int | float | text => cases h

theorem tableLiteral_error (h : tableLiteral key v = .error e) : Invalid e := by
  cases v with
  | text s => cases h
  | list | table => exact anyLiteral_error _ _ _ h
  | null | omitted | bool | int | float => exact invalid_error h

theorem literal_error {kind : Kind} (h : literal kind v key = .error e) : Invalid e := by
  unfold literal at h
  split at h
  · cases h
  · cases h
  cases kind with
  | number => exact numberLiteral_error h
  | boolean => exact booleanLiteral_error h
  | string => exact stringLiteral_error h
  | table => exact tableLiteral_error h
  | any | exec => exact anyLiteral_error _ _ _ h

end Lua

/-! ## Properties -/

theorem Property.check_error {p : Property} {v node : Value} {e : Error}
    (ho : p.optionTexts.toOption.isSome = true) (h : p.check v node = .error e) :
    ∃ reason, e = .compile (.invalidProperty node p.key v reason) := by
  obtain ⟨options, ho⟩ : ∃ options, p.optionTexts = .ok options := by
    cases hp : p.optionTexts with
    | ok options => exact ⟨options, rfl⟩
    | error e' =>
      rw [hp] at ho
      cases ho
  have hmisfit : ∃ misfit, p.misfit? v = .ok misfit := by
    unfold misfit?
    split
    · split
      · exact ⟨_, rfl⟩
      · rw [ho]
        exact ⟨_, rfl⟩
    all_goals exact ⟨_, rfl⟩
  obtain ⟨misfit, hm⟩ := hmisfit
  unfold check at h
  split at h
  · cases h
  rw [hm] at h
  cases misfit with
  | none => cases h
  | some reason =>
    cases h
    exact ⟨reason, rfl⟩

/-- What a property that fits answers: what is stored, else the default, else the fallback. -/
theorem Compilation.property_ok {c : Compilation} {node key : Key} {fallback v : Value}
    {t : NodeType} {n : Node} {p : Property} (ht : c.graph.typeOf node = .ok t) (hn : c.graph.node? node = some n)
    (hp : t.definition.property? key = some p) (h : c.property node key fallback = .ok v) :
    ∃ value, value = (if ((n.properties.find? key).getD .null).isNull then p.default
        else (n.properties.find? key).getD .null) ∧
      p.check value node = .ok () ∧ v = if value.isNull then fallback else value := by
  obtain ⟨t', ht', h⟩ := bind_ok h
  cases ht.symm.trans ht'
  obtain ⟨n', hn', h⟩ := bind_ok h
  cases (Graph.node_ok_iff.mpr hn).symm.trans hn'
  dsimp only at h
  rw [hp] at h
  obtain ⟨_, hc, h⟩ := bind_ok h
  exact ⟨_, rfl, hc, (Except.ok.inj h).symm⟩

/-! ## Types -/

/-- A node whose type is not known is told as such. -/
theorem Graph.typeOf_error {g : Graph} {node : Key} {e : Error} (hn : g.hasNode node = true)
    (h : g.typeOf node = .error e) :
    ∃ n ∈ g.nodes, ∃ definition, e = .compile (.unknownDefinition definition n.id) := by
  obtain ⟨n, hn⟩ := Option.isSome_iff_exists.mp hn
  unfold typeOf at h
  rw [node_ok_iff.mpr hn] at h
  change g.catalogue.require (.text n.definitionId) n.id = .error e at h
  unfold Catalogue.require at h
  rw [show g.catalogue.named? (.text n.definitionId) = .ok (g.catalogue.find? n.definitionId)
    from rfl] at h
  cases hf : g.catalogue.find? n.definitionId with
  | some t =>
    rw [hf] at h
    cases h
  | none =>
    rw [hf] at h
    cases h
    exact ⟨n, List.mem_of_find?_eq_some hn, _, rfl⟩

/-! ## Settings -/

namespace Settings

inductive Unusable (s : Settings) : Error → Prop
  | depth (h : ∀ n, s.maxDepth ≠ .int n) : Unusable s (.limitNotANumber "max_depth")
  | steps (h : ∀ n, s.maxSteps ≠ .int n) : Unusable s (.limitNotANumber "max_steps")
  | indent (h : ∀ n, s.indentWidth ≠ .int n) : Unusable s .indentNotAnInteger
  /-- No text is that long. -/
  | range {n : Int} (h : s.indentWidth = .int n) (hn : n < -widthBound ∨ widthBound ≤ n) :
    Unusable s (.indentOutOfRange n)
  /-- There is no room for a text that long. -/
  | room {n : Int} (h : s.indentWidth = .int n) (hn : widthRoom ≤ n) : Unusable s (.indentTooWide n)

theorem passes_error {name : String} {limit : Value} {count : Int} {e : Error}
    (h : passes name limit count = .error e) :
    e = .limitNotANumber name ∧ ∀ n, limit ≠ .int n := by
  have hlimit : ∀ n, limit ≠ .int n := by
    rintro n rfl
    rw [passes_int] at h
    cases h
  refine ⟨?_, hlimit⟩
  unfold passes at h
  split at h
  · split at h <;> cases h
    rfl
  · cases h
    rfl

theorem width_error {s : Settings} {e : Error} (h : s.width = .error e) : s.Unusable e := by
  unfold width at h
  split at h
  · rename_i n hn
    unfold widthOf at h
    split at h
    · rename_i hrange
      cases h
      refine .range hn ?_
      simpa using hrange
    · split at h
      · cases h
        exact .room hn ‹_›
      · cases h
  · cases h
  · rename_i hn _
    cases h
    exact .indent hn

/-- A setting that is of no use is no fault of a graph. -/
theorem Unusable.ne_compile {s : Settings} {e : Error} (h : s.Unusable e) (ce : CompileError) :
    e ≠ .compile ce := by
  cases h <;> nofun

end Settings

end CartGraph
