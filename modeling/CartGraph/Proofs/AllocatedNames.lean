import CartGraph.Proofs.Program.GlobalNames

/-! # Names that are given in turn

Variables, parameters and custom events are named one after the other. Different texts may have the
same base, and a base with a number may be the base of another, before it or after it. Each takes
the first of its candidates that is free (`Lua.Takes`), as a search without a bound would find it,
so no two of a list are called the same (`names_allocated`). -/
namespace CartGraph

namespace Lua

/-- What a base is called where some names are in use: like itself if it is free, else with the
first number from `start` on that is. -/
inductive Takes (start : Nat) (used : List String) (base : String) : String → Prop
  | base (free : base ∉ used) : Takes start used base base
  | number {n : Nat} (taken : base ∈ used) (start_le : start ≤ n)
    (before : ∀ i, start ≤ i → i < n → numbered base i ∈ used) (free : numbered base n ∉ used) :
    Takes start used base (numbered base n)

inductive Allocates (start : Nat) : List String → List String → List String → Prop
  | nil {used} : Allocates start used [] []
  | cons {used base name bases names} (takes : Takes start used base name)
    (rest : Allocates start (name :: used) bases names) :
    Allocates start used (base :: bases) (name :: names)

theorem fresh_takes (used : List String) (base : String) (start : Nat) :
    Takes start used base (fresh used base start) := by
  have hfree := fresh_not_mem used base start
  unfold fresh at hfree ⊢
  split
  · rename_i htaken
    rw [if_pos htaken] at hfree
    obtain ⟨n, hn, hstart, _, hbefore, _⟩ := firstFree_cases used base used.length start
    rw [hn] at hfree ⊢
    exact .number (by simpa using htaken) hstart hbefore hfree
  · rename_i hbase
    exact .base (by simpa using hbase)

theorem freshAll_allocates (start : Nat) (used bases : List String) :
    Allocates start used bases (freshAll start used bases) := by
  induction bases generalizing used with
  | nil => exact .nil
  | cons base rest ih => exact .cons (fresh_takes used base start) (ih _)

def lineName (line : String) : String := String.ofList (line.toList.takeWhile isNameChar)

theorem lineName_declaration {name : String} (h : IsDefinable name) (value : String) :
    lineName (Variable.declaration (name, value)) = name := by
  have hname : ∀ c ∈ name.toList, isNameChar c = true := by
    have hshape := h.1
    cases hcs : name.toList with
    | nil => simp
    | cons c cs =>
      rw [hcs] at hshape
      obtain ⟨hc, hcs⟩ := Bool.and_eq_true_iff.mp hshape
      refine List.forall_mem_cons.mpr ⟨?_, List.all_eq_true.mp hcs⟩
      exact Bool.or_eq_true_iff.mpr ((Bool.or_eq_true_iff.mp hc).imp_left fun halpha =>
        Bool.or_eq_true_iff.mpr (.inl halpha))
  have hline : (Variable.declaration (name, value)).toList =
      name.toList ++ ' ' :: '=' :: ' ' :: value.toList := by
    simp [Variable.declaration]
  rw [lineName, hline, List.takeWhile_append_of_pos hname,
    List.takeWhile_cons_of_neg (by decide), List.append_nil, String.ofList_toList]

/-- Names that can stand beside each other: each can be defined, and no two are the same. -/
structure Distinct (names : List String) : Prop where
  definable : ∀ name ∈ names, IsDefinable name
  nodup : names.Nodup

end Lua

/-! ## Variables -/

namespace Variable

variable {globals : List Variable} {declarations : Declarations}

/-- The id map is that of the variables declared before, with the variables of a list written over
it. -/
theorem declareFrom_lookup {index : Nat} {used : List String} {found : Declarations}
    (h : declareFrom index used found globals = .ok declarations) (id : String) :
    declarations.names.lookup id =
      ((((globals.zip (Lua.freshAll 2 used
        ((globals.zipIdx index).map fun v => v.1.baseName v.2))).filter
        fun e => e.1.id = id).getLast?.map Prod.snd).or (found.names.lookup id)) := by
  induction globals generalizing index used found with
  | nil =>
    cases h
    simp
  | cons v rest ih =>
    obtain ⟨text, _, h⟩ := bind_ok h
    rw [ih h, Association.lookup_assign]
    simp only [List.zipIdx_cons, List.map_cons, Lua.freshAll, List.zip_cons_cons]
    by_cases hid : v.id = id
    · rw [List.filter_cons_of_pos (by simpa using hid), List.getLast?_cons, if_pos hid.symm]
      cases ((rest.zip _).filter _).getLast? with
      | none => simp
      | some e => simp
    · rw [List.filter_cons_of_neg (by simpa using hid), if_neg (Ne.symm hid)]

theorem luaNames_distinct (globals : List Variable) : Lua.Distinct (luaNames globals) :=
  ⟨fun _ => luaNames_isDefinable, Lua.freshAll_nodup 2 [] _⟩

/-- A line declares each variable, under its name and with its value. -/
theorem declare_lines (h : declare globals = .ok declarations) :
    declarations.lines.map Lua.lineName = luaNames globals ∧
      ∃ values, globals.mapM defaultLiteral = .ok values ∧
        declarations.lines = ((luaNames globals).zip values).map declaration := by
  obtain ⟨declared, hnames, hvalues, hlines⟩ := declareFrom_lines h
  have hnames : declared.map Prod.fst = luaNames globals := hnames
  have hlines : declarations.lines = declared.map declaration := by simpa using hlines
  refine ⟨?_, _, hvalues, ?_⟩
  · rw [hlines, ← hnames, List.map_map]
    refine List.map_congr_left fun v hv => Lua.lineName_declaration ?_ v.2
    exact luaNames_isDefinable (hnames ▸ List.mem_map_of_mem hv)
  · rw [hlines, ← hnames, ← List.unzip_fst, ← List.unzip_snd, List.zip_unzip]

theorem declare_lookup (h : declare globals = .ok declarations) (id : String) :
    declarations.names.lookup id =
      ((globals.zip (luaNames globals)).filter fun e => e.1.id = id).getLast?.map Prod.snd :=
  (declareFrom_lookup h id).trans Option.or_none

end Variable

/-! ## Parameters and custom events -/

namespace Parameter

theorem ofEntry_luaName (index : Nat) (used : List String) (v : Value) :
    (ofEntry index used v).luaName =
      Lua.fresh used (Lua.sanitize (ofEntry index used v).name) 2 := by
  unfold ofEntry
  dsimp only

theorem ofEntries_luaNames (index : Nat) (used : List String) (items : List Value) :
    (ofEntries index used items).map luaName =
      Lua.freshAll 2 used ((ofEntries index used items).map fun p => Lua.sanitize p.name) := by
  induction items generalizing index used with
  | nil => rfl
  | cons v rest ih =>
    simp only [ofEntries, List.map_cons, Lua.freshAll]
    rw [← ofEntry_luaName, ← ih]

theorem ofValue_luaNames (v : Value) :
    (ofValue v).map luaName =
      Lua.freshAll 2 [] ((ofValue v).map fun p => Lua.sanitize p.name) := by
  unfold ofValue
  split
  · exact ofEntries_luaNames 0 [] _
  · rfl

theorem ofValue_distinct (v : Value) : Lua.Distinct ((ofValue v).map luaName) := by
  rw [ofValue_luaNames]
  refine ⟨fun name hname => ?_, Lua.freshAll_nodup 2 [] _⟩
  obtain ⟨base, hbase, used, rfl⟩ := Lua.freshAll_base hname
  obtain ⟨p, _, rfl⟩ := List.mem_map.mp hbase
  exact Lua.fresh_isDefinable (Lua.sanitize_isName _) (Lua.sanitize_free _) (Lua.sanitize_head _)
    used 2

end Parameter

namespace Signature

variable {nodes : List Node}

theorem ofNodes_keys (hids : (nodes.map fun n => n.id.canonical).Nodup) :
    (ofNodes nodes).map Prod.fst = nodes.map fun n => n.id.canonical := by
  have hturn (used : List String) (nodes : List Node) :
      (inTurn used nodes).map Prod.fst = nodes.map fun n => n.id.canonical := by
    induction nodes generalizing used with
    | nil => rfl
    | cons n rest ih => simp [inTurn, ih]
  rw [ofNodes_eq_inTurn hids, hturn]

theorem ofNodes_distinct (hids : (nodes.map fun n => n.id.canonical).Nodup) :
    Lua.Distinct ((ofNodes nodes).map fun e => e.2.functionName) ∧
      ∀ name ∈ (ofNodes nodes).map (fun e => e.2.functionName),
        "custom_".toList <+: name.toList := by
  have hcustom : ∀ name ∈ (ofNodes nodes).map (fun e => e.2.functionName),
      Lua.IsDefinable name ∧ "custom_".toList <+: name.toList := by
    intro name hname
    obtain ⟨entry, hentry, rfl⟩ := List.mem_map.mp hname
    obtain ⟨n, _, used, hs⟩ := ofNodes_mem hentry
    exact fresh_custom (by rw [hs]; rfl)
  refine ⟨⟨fun name hname => (hcustom name hname).1, ?_⟩, fun name hname => (hcustom name hname).2⟩
  rw [ofNodes_names hids]
  exact Lua.freshAll_nodup 1 [] _

end Signature

/-- Three lists of names. The lines that declare variables, one for each in their order, start with
names that can be defined and that differ, and an id stands for the name of the last variable that
has it. So do the parameters of any property, and the functions of nodes with different ids, which
start with `custom_`. In each list a name is the first candidate that is free, given the names
before it. -/
theorem names_allocated (globals : List Variable) (property : Value) (nodes : List Node) :
    (∀ declarations, Variable.declare globals = .ok declarations →
      let names := declarations.lines.map Lua.lineName
      (∃ values, globals.mapM Variable.defaultLiteral = .ok values ∧
        declarations.lines = (names.zip values).map Variable.declaration) ∧
      Lua.Allocates 2 [] (globals.zipIdx.map fun v => v.1.baseName v.2) names ∧
      Lua.Distinct names ∧
      ∀ id, declarations.names.lookup id =
        ((globals.zip names).filter fun e => e.1.id = id).getLast?.map Prod.snd) ∧
    (let parameters := Parameter.ofValue property
      let names := parameters.map Parameter.luaName
      Lua.Allocates 2 [] (parameters.map fun p => Lua.sanitize p.name) names ∧
      Lua.Distinct names) ∧
    ((nodes.map fun n => n.id.canonical).Nodup →
      let signatures := Signature.ofNodes nodes
      let names := signatures.map fun e => e.2.functionName
      signatures.map Prod.fst = (nodes.map fun n => n.id.canonical) ∧
      Lua.Allocates 1 [] (nodes.map fun n => Signature.baseName (Signature.displayNameOf n)) names ∧
      Lua.Distinct names ∧ ∀ name ∈ names, "custom_".toList <+: name.toList) := by
  refine ⟨fun declarations h => ?_, ?_, fun hids => ?_⟩
  · obtain ⟨hnames, hlines⟩ := Variable.declare_lines h
    rw [hnames]
    exact ⟨hlines, Lua.freshAll_allocates 2 [] _, Variable.luaNames_distinct globals,
      Variable.declare_lookup h⟩
  · refine ⟨?_, Parameter.ofValue_distinct property⟩
    rw [Parameter.ofValue_luaNames]
    exact Lua.freshAll_allocates 2 [] _
  · refine ⟨Signature.ofNodes_keys hids, ?_, Signature.ofNodes_distinct hids⟩
    rw [Signature.ofNodes_names hids]
    exact Lua.freshAll_allocates 1 [] _

/-- Variables that want the numbered variants of another, one before it is numbered and one after,
and two that share an id. -/
def crossingVariables : List Variable :=
  [("a", "Score"), ("b", "score 2"), ("a", "score"), ("c", "SCORE 3")].map fun v =>
    { id := v.1, name := v.2, kind := .number, default := .null }

/-- Custom events of which the last is called like the numbered variant of the second. -/
def crossingEvents : List Node :=
  ["Boom", "custom boom", "boom 1"].zipIdx.map fun v =>
    { id := .int v.2, definitionId := "custom_event", properties := [("name", .text v.1)] }

theorem names_allocated_crossing :
    (∃ declarations, Variable.declare crossingVariables = .ok declarations ∧
      let names := declarations.lines.map Lua.lineName
      names = ["score", "score_2", "score_3", "score_3_2"] ∧ Lua.Distinct names ∧
      declarations.names.lookup "a" = some "score_3") ∧
    (crossingEvents.map fun n => n.id.canonical).Nodup ∧
    let names := (Signature.ofNodes crossingEvents).map fun e => e.2.functionName
    names = ["custom_boom", "custom_boom_1", "custom_boom_1_1"] ∧ Lua.Distinct names := by
  obtain ⟨hvariables, _, hevents⟩ := names_allocated crossingVariables .null crossingEvents
  have hmade : ((Variable.declare crossingVariables).toOption.any fun declarations =>
      declarations.lines.map Lua.lineName == ["score", "score_2", "score_3", "score_3_2"]) =
      true := by
    decide +kernel
  have hids : (crossingEvents.map fun n => n.id.canonical).Nodup := by decide
  have hnames : (Signature.ofNodes crossingEvents).map (fun e => e.2.functionName) =
      ["custom_boom", "custom_boom_1", "custom_boom_1_1"] := by
    decide +kernel
  obtain ⟨declarations, hdeclare, hlines⟩ := exists_ok_of_any hmade
  obtain ⟨_, _, hdistinct, hlookup⟩ := hvariables declarations hdeclare
  have hlines := eq_of_beq hlines
  refine ⟨⟨declarations, hdeclare, hlines, hdistinct, ?_⟩, hids, hnames, (hevents hids).2.2.1⟩
  rw [hlookup, hlines]
  rfl

end CartGraph
