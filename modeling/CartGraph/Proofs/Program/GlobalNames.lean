import CartGraph.Proofs.Document.Order

/-! # Global names of a program

Workspace variables and functions are globals of one program. The names of variables and of custom
events are made for them: they are sanitised and numbered, each list apart from the other. The names
of events are taken from the document as they are, and each is answered once. So what a program
defines has names that the language takes, and each once, if and only if the events that the
document names itself are no trouble and no variable is called like a function
(`Document.wellNamed_iff`). -/
namespace CartGraph

/-! ## Names that are made -/

namespace Variable

/-- The names that variables are given, before they are numbered. -/
def givenNames (globals : List Variable) : List String :=
  globals.zipIdx.map fun v => v.1.baseName v.2

def luaNames (globals : List Variable) : List String := Lua.freshAll 2 [] (givenNames globals)

def declaration (v : String × String) : String := v.1 ++ " = " ++ v.2

theorem declareFrom_lines {globals : List Variable} {index : Nat} {used : List String}
    {found declarations : Declarations}
    (h : declareFrom index used found globals = .ok declarations) :
    ∃ declared : List (String × String), declared.map Prod.fst =
        Lua.freshAll 2 used ((globals.zipIdx index).map fun v => v.1.baseName v.2) ∧
      globals.mapM defaultLiteral = .ok (declared.map Prod.snd) ∧
      declarations.lines = found.lines ++ declared.map declaration := by
  induction globals generalizing index used found with
  | nil =>
    cases h
    exact ⟨[], by simp [Lua.freshAll, pure, Except.pure]⟩
  | cons v rest ih =>
    obtain ⟨text, htext, h⟩ := bind_ok h
    obtain ⟨declared, hnames, hvalues, hlines⟩ := ih h
    refine ⟨(Lua.fresh used (v.baseName index) 2, text) :: declared, ?_, ?_, ?_⟩
    · simp [Lua.freshAll, hnames]
    · rw [List.mapM_cons, htext, hvalues]
      rfl
    · simp [hlines, declaration]

theorem luaNames_isDefinable {globals : List Variable} {name : String}
    (h : name ∈ luaNames globals) : Lua.IsDefinable name := by
  obtain ⟨base, hbase, used, rfl⟩ := Lua.freshAll_base h
  obtain ⟨⟨v, index⟩, _, rfl⟩ := List.mem_map.mp hbase
  obtain ⟨hname, hfree⟩ := v.baseName_isName index
  refine Lua.fresh_isDefinable hname hfree ?_ used 2
  unfold baseName
  dsimp only
  exact Lua.sanitize_head _

end Variable

namespace Signature

theorem inTurn_names (used : List String) (nodes : List Node) :
    (inTurn used nodes).map (fun e => e.2.functionName) =
      Lua.freshAll 1 used (nodes.map fun n => baseName (displayNameOf n)) := by
  induction nodes generalizing used with
  | nil => rfl
  | cons n rest ih => simp [inTurn, Lua.freshAll, ofNode, ih]

/-- Nodes with different ids have their functions named in turn. -/
theorem ofNodes_names {nodes : List Node} (hids : (nodes.map fun n => n.id.canonical).Nodup) :
    (ofNodes nodes).map (fun e => e.2.functionName) =
      Lua.freshAll 1 [] (nodes.map fun n => baseName (displayNameOf n)) := by
  rw [ofNodes_eq_inTurn hids, inTurn_names]

theorem baseName_custom (displayName : String) :
    "custom_".toList <+: (baseName displayName).toList := by
  unfold baseName
  dsimp only
  split
  · exact List.isPrefixOf_iff_prefix.mp ‹_›
  · rw [String.toList_append]
    exact List.prefix_append _ _

theorem baseName_head (displayName : String) :
    ∀ c ∈ (baseName displayName).toList.head?, c.isDigit = false := by
  obtain ⟨rest, hrest⟩ := baseName_custom displayName
  rw [← hrest]
  simp

theorem fresh_custom {displayName name : String} {used : List String}
    (h : name = Lua.fresh used (baseName displayName) 1) :
    Lua.IsDefinable name ∧ "custom_".toList <+: name.toList := by
  obtain ⟨hname, hfree⟩ := baseName_isName displayName
  subst h
  exact ⟨Lua.fresh_isDefinable hname hfree (baseName_head displayName) used 1,
    (baseName_custom displayName).trans (Lua.fresh_base used _ 1)⟩

end Signature

/-! ## Events that a document names -/

/-- The events that entry nodes name themselves. Other entry nodes leave the event to their type. -/
def Graph.ownEvents (g : Graph) : List String :=
  (g.nodes.filter fun n => n.eventName.truthy &&
    (g.entryInfo n).toOption.any fun info => info.1.truthy).map fun n => n.eventName.display

theorem Library.eventName_lifecycle : ∀ t ∈ types, t.eventName.truthy = true →
    t.eventName.display ∈ Program.lifecycle := by
  decide

theorem Value.key_of_isReference {v : Value} (h : v.isReference = true) (ht : v.truthy = true) :
    v.key = .ok (.text v.display) := by
  cases v with
  | null => cases ht
  | text s => rfl
  | omitted | bool | int | float | list | table => cases h

namespace Program

theorem lifecycle_names : ∀ s ∈ lifecycle, Lua.IsDefinable s ∧ ¬ "custom_".toList <+: s.toList := by
  decide

/-- A variable is called like an event of the console only if it was given that name. -/
theorem lifecycle_mem_luaNames {globals : List Variable} {name : String} (h : name ∈ lifecycle) :
    name ∈ Variable.luaNames globals ↔ name ∈ Variable.givenNames globals := by
  have htail : ∀ s ∈ lifecycle, '_' ∉ s.toList.tail := by decide
  refine Lua.mem_freshAll_iff (htail name h) fun base hbase => ?_
  obtain ⟨⟨v, index⟩, _, rfl⟩ := List.mem_map.mp hbase
  exact (v.baseName_isName index).1.ne_empty

namespace Entries

variable {g : Graph} {settings : Settings} {entries : Entries}

/-- The names of the functions of events, in the order of the functions. -/
def eventNames (entries : Entries) : List String :=
  (Order.sortBy (fun a b => eventLE a.1 b.1) entries.named).map fun entry => entry.1.display

/-- The names of the functions of custom events, in the order of the functions. -/
def customNames (entries : Entries) : List String :=
  (Order.sortBy signatureLE ((Signature.ofNodes entries.custom).map (·.2))).map
    Signature.functionName

def functionNames (entries : Entries) : List String := entries.eventNames ++ entries.customNames

theorem eventNames_perm (entries : Entries) :
    entries.eventNames.Perm (entries.named.map fun entry => entry.1.display) :=
  (Order.sortBy_perm _ _).map _

theorem customNames_perm (entries : Entries) : entries.customNames.Perm
    ((Signature.ofNodes entries.custom).map fun e => e.2.functionName) := by
  have h := (Order.sortBy_perm signatureLE ((Signature.ofNodes entries.custom).map (·.2))).map
    Signature.functionName
  rwa [List.map_map] at h

/-- Events that are answered once have different names. -/
theorem eventNames_nodup (hplain : entries.Plain) (hcheck : entries.check = .ok ()) :
    entries.eventNames.Nodup := by
  have hevents := (check_ok_iff hplain.comparable).mp hcheck
  rw [entries.eventNames_perm.nodup_iff]
  refine List.Nodup.map_on (fun a ha b hb hname => ?_) hevents.of_map
  refine List.inj_on_of_nodup_map hevents ha hb ?_
  rw [Key.eq_text (hplain a ha).1, Key.eq_text (hplain b hb).1, hname]

theorem customNames_nodup (hids : (entries.custom.map fun n => n.id.canonical).Nodup) :
    entries.customNames.Nodup := by
  rw [entries.customNames_perm.nodup_iff, Signature.ofNodes_names hids]
  exact Lua.freshAll_nodup 1 [] _

theorem customNames_custom {name : String} (h : name ∈ entries.customNames) :
    Lua.IsDefinable name ∧ "custom_".toList <+: name.toList := by
  obtain ⟨entry, hentry, rfl⟩ := List.mem_map.mp (entries.customNames_perm.mem_iff.mp h)
  obtain ⟨n, _, used, hs⟩ := Signature.ofNodes_mem hentry
  exact Signature.fresh_custom (by rw [hs]; rfl)

theorem not_mem_customNames {name : String} (h : name ∈ lifecycle) :
    name ∉ entries.customNames := by
  intro hcustom
  exact (lifecycle_names name h).2 (customNames_custom hcustom).2

theorem remap_display (settings : Settings) (s : String) :
    (remap settings (.text s)).display = s ∨
      s ∈ lifecycle ∧ (remap settings (.text s)).display ∈ lifecycle := by
  unfold remap
  split
  · rename_i h
    have hs : s = "_update" := by
      have halike := (Bool.and_eq_true_iff.mp h).1
      simpa using halike
    subst hs
    exact .inr (by decide)
  · exact .inl rfl

/-- An event is one of the console or one that a node names itself. -/
theorem eventNames_given (hr : Represented g) (hplain : ∀ n ∈ g.nodes, n.Plain)
    (h : ofGraph g settings = .ok entries) {name : String} (hname : name ∈ entries.eventNames) :
    name ∈ lifecycle ∨ name ∈ g.ownEvents := by
  obtain ⟨⟨k, id⟩, he, rfl⟩ := List.mem_map.mp (entries.eventNames_perm.mem_iff.mp hname)
  obtain ⟨n, hn, _, event, ⟨entry, v, hinfo, hentry, hv, hkey⟩, rfl⟩ :=
    (lists_of_graph h).named _ he
  have hevent := Graph.entryInfo_event hr (hplain n hn) hinfo
  cases (Value.key_of_isReference hevent hv).symm.trans hkey
  obtain ⟨t, ht, hpair⟩ := bind_ok hinfo
  rcases remap_display settings v.display with hsame | ⟨_, hconsole⟩
  · rw [hsame]
    cases hpair
    by_cases hown : n.eventName.truthy = true
    · refine .inr (List.mem_map.mpr ⟨n, List.mem_filter.mpr ⟨hn, ?_⟩, ?_⟩)
      · simp [hown, hinfo, hentry, Except.toOption]
      · rw [Value.orElse, if_pos hown]
    · rw [Value.orElse, if_neg hown] at hv ⊢
      exact .inl (Library.eventName_lifecycle t (hr.type_mem ht) hv)
  · exact .inl hconsole

/-- What an entry node adds that names its event itself. -/
theorem add_own {n : Node} {part : Entries} (hplain : n.Plain) (hown : n.eventName.truthy = true)
    (hentry : ((g.entryInfo n).toOption.any fun info => info.1.truthy) = true)
    (h : add g settings {} n = .ok part) :
    (remap settings (.text n.eventName.display), n.id) ∈ part.named := by
  obtain ⟨⟨entry, event⟩, hinfo, hentry⟩ := exists_ok_of_any hentry
  obtain ⟨t, _, hpair⟩ := bind_ok hinfo
  have hevent : event = n.eventName := by
    cases hpair
    rw [Value.orElse, if_pos hown]
  subst hevent
  have hkey := Value.key_of_isReference hplain.eventName hown
  have hpart : part = { named := [(remap settings (.text n.eventName.display), n.id)] } := by
    simpa [add, hinfo, hentry, hown, hkey, bind, Except.bind, pure, Except.pure, eq_comm] using h
  simp [hpart]

/-- An event that a node names itself is answered, under its own name or as one of the console. -/
theorem ownEvents_named (hplain : ∀ n ∈ g.nodes, n.Plain) (h : ofGraph g settings = .ok entries)
    {name : String} (hname : name ∈ g.ownEvents) :
    name ∈ lifecycle ∨ name ∈ entries.eventNames := by
  obtain ⟨n, hn, rfl⟩ := List.mem_map.mp hname
  obtain ⟨hn, hown⟩ := List.mem_filter.mp hn
  obtain ⟨hown, hentry⟩ := Bool.and_eq_true_iff.mp hown
  rcases remap_display settings n.eventName.display with hsame | ⟨hconsole, _⟩
  · refine .inr (entries.eventNames_perm.mem_iff.mpr (List.mem_map.mpr
      ⟨(remap settings (.text n.eventName.display), n.id), ?_, hsame⟩))
    obtain ⟨parts, hparts, rfl⟩ := foldlM_add_iff.mp h
    obtain ⟨part, hpart, hadd⟩ := Graph.exists_of_forall₂ hparts.flip hn
    refine List.mem_append_right _ (List.mem_flatMap.mpr ⟨part, hpart, ?_⟩)
    exact add_own (hplain n hn) hown hentry hadd
  · exact .inl hconsole

/-- All functions have names that the language takes, and each its own, if and only if the events
that nodes name themselves have such names, and none the name of a custom event. -/
theorem functionNames_iff (hr : Represented g) (hplain : ∀ n ∈ g.nodes, n.Plain)
    (h : ofGraph g settings = .ok entries) (hevents : entries.eventNames.Nodup)
    (hcustom : entries.customNames.Nodup) :
    ((∀ name ∈ entries.functionNames, Lua.IsDefinable name) ∧ entries.functionNames.Nodup) ↔
      ∀ name ∈ g.ownEvents, Lua.IsDefinable name ∧ name ∉ entries.customNames := by
  constructor
  · intro ⟨hnames, hnodup⟩ name hown
    rcases ownEvents_named hplain h hown with hconsole | hname
    · exact ⟨(lifecycle_names name hconsole).1, not_mem_customNames hconsole⟩
    · exact ⟨hnames name (by simp [functionNames, hname]), fun hcustom =>
        (List.nodup_append.mp hnodup).2.2 name hname name hcustom rfl⟩
  · intro hown
    have hgiven : ∀ name ∈ entries.eventNames,
        Lua.IsDefinable name ∧ name ∉ entries.customNames := by
      intro name hname
      rcases eventNames_given hr hplain h hname with hconsole | hname
      · exact ⟨(lifecycle_names name hconsole).1, not_mem_customNames hconsole⟩
      · exact hown name hname
    constructor
    · intro name hname
      rcases List.mem_append.mp hname with hname | hname
      · exact (hgiven name hname).1
      · exact (customNames_custom hname).1
    · refine List.nodup_append.mpr ⟨hevents, hcustom, ?_⟩
      rintro name hname _ hcustom rfl
      exact (hgiven name hname).2 hcustom

/-- No function has the name of a variable if and only if no event of the document's own and no
custom event has, and no variable is given the name of an event of the console that is answered. -/
theorem functionNames_apart_iff (hr : Represented g) (hplain : ∀ n ∈ g.nodes, n.Plain)
    (h : ofGraph g settings = .ok entries) (globals : List Variable) :
    (∀ name ∈ entries.functionNames, name ∉ Variable.luaNames globals) ↔
      (∀ name ∈ g.ownEvents, name ∉ lifecycle → name ∉ Variable.luaNames globals) ∧
      (∀ name ∈ lifecycle, name ∈ entries.eventNames → name ∉ Variable.givenNames globals) ∧
      ∀ name ∈ entries.customNames, name ∉ Variable.luaNames globals := by
  constructor
  · intro hapart
    refine ⟨fun name hown hother => ?_, fun name hconsole hname => ?_, fun name hname => ?_⟩
    · have hname := (ownEvents_named hplain h hown).resolve_left hother
      exact hapart name (List.mem_append_left _ hname)
    · rw [← lifecycle_mem_luaNames hconsole]
      exact hapart name (List.mem_append_left _ hname)
    · exact hapart name (List.mem_append_right _ hname)
  · intro ⟨hown, hconsole, hcustom⟩ name hname
    rcases List.mem_append.mp hname with hname | hname
    · by_cases hlife : name ∈ lifecycle
      · rw [lifecycle_mem_luaNames hlife]
        exact hconsole name hlife hname
      · exact hown name ((eventNames_given hr hplain h hname).resolve_left hlife) hlife
    · exact hcustom name hname

end Entries

/-! ## Programs as they are laid out -/

structure Written where
  name : String
  parameters : String
  body : List String

def Written.lines (f : Written) : List String :=
  "" :: ("function " ++ (f.name ++ "(" ++ f.parameters ++ ")")) :: f.body ++ ["end"]

/-- A program as it is laid out: the variables that it declares, each with the text of its value,
and the functions that it defines. -/
structure Layout where
  declared : List (String × String)
  functions : List Written

namespace Layout

def text (layout : Layout) : String :=
  "\n".intercalate (header :: preamble (layout.declared.map Variable.declaration) ++
    layout.functions.flatMap Written.lines)

def functionNames (layout : Layout) : List String := layout.functions.map Written.name

def variableNames (layout : Layout) : List String := layout.declared.map Prod.fst

/-- Functions have names that the language takes, each its own and none that of a variable. -/
structure WellNamed (layout : Layout) : Prop where
  definable : ∀ name ∈ layout.functionNames, Lua.IsDefinable name
  nodup : layout.functionNames.Nodup
  apart : ∀ name ∈ layout.functionNames, name ∉ layout.variableNames

end Layout

/-- What stands after the word `function`, in parts. -/
def Entries.heads (entries : Entries) : List (String × String) :=
  (Order.sortBy (fun a b => eventLE a.1 b.1) entries.named).map (fun entry =>
      (entry.1.display, "")) ++
    (Order.sortBy signatureLE ((Signature.ofNodes entries.custom).map (·.2))).map fun s =>
      (s.functionName, s.parameterList)

theorem Entries.heads_names (entries : Entries) :
    entries.heads.map Prod.fst = entries.functionNames := by
  simp [heads, functionNames, eventNames, customNames, Function.comp_def]

theorem functions_heads (entries : Entries) :
    (functions entries ((Signature.ofNodes entries.custom).map (·.2))).map Function.head =
      entries.heads.map fun head => head.1 ++ "(" ++ head.2 ++ ")" := by
  simp [functions, Entries.heads, Function.comp_def, String.append_assoc]

/-- The bodies of functions, emitted one after the other from the nodes that they start from, within
some room. -/
def bodiesOn (c : Compilation) (room : Room) : List Key → Emit (List (List String))
  | [] => pure []
  | node :: rest => do
    let body ← c.entryOn room node 1
    let more ← bodiesOn c room rest
    return body :: more

def bodies (c : Compilation) (nodes : List Key) : Emit (List (List String)) :=
  bodiesOn c .endless nodes

/-- Compilations that are alike find the same bodies. -/
theorem bodiesOn_mirrors {P : Error → Prop} {S : Key → Prop} {c c' : Compilation}
    (h : c.Resembles P S c') {room room' : Room} (hroom : room.Eases P room') {nodes : List Key}
    (hnodes : ∀ n ∈ nodes, S n) : (bodiesOn c room nodes).Mirrors P (bodiesOn c' room' nodes) := by
  induction nodes with
  | nil => exact .pure _
  | cons node rest ih =>
    obtain ⟨hnode, hrest⟩ := List.forall_mem_cons.mp hnodes
    exact (Compilation.entryOn_mirrors h hroom hnode 1).bind fun _ =>
      (ih hrest).bind fun _ => .pure _

theorem bodiesOn_length {c : Compilation} {room : Room} {nodes : List Key} {s : Progress}
    {found : List (List String)} (h : (bodiesOn c room nodes s).1 = .ok found) :
    found.length = nodes.length := by
  induction nodes generalizing s found with
  | nil =>
    cases h
    rfl
  | cons node rest ih =>
    obtain ⟨body, s₁, _, h⟩ := Emit.bind_ok (Prod.ext h rfl)
    obtain ⟨more, s₂, hmore, h⟩ := Emit.bind_ok h
    cases h
    rw [List.length_cons, List.length_cons, ih (congrArg Prod.fst hmore)]

/-- A head, and the body that is written under it. -/
def Written.ofParts (f : (String × String) × List String) : Written := ⟨f.1.1, f.1.2, f.2⟩

section

variable {heads : List (String × String)} {found : List (List String)}

theorem Written.map_head_ofParts (h : heads.length ≤ found.length) :
    ((heads.zip found).map ofParts).map (fun f => (f.name, f.parameters)) = heads := by
  rw [List.map_map]
  exact List.map_fst_zip h

theorem Written.map_body_ofParts (h : found.length ≤ heads.length) :
    ((heads.zip found).map ofParts).map body = found := by
  rw [List.map_map]
  exact List.map_snd_zip h

theorem Written.map_name_ofParts (h : heads.length ≤ found.length) :
    ((heads.zip found).map ofParts).map name = heads.map Prod.fst := by
  calc ((heads.zip found).map ofParts).map name
      = (((heads.zip found).map ofParts).map fun f => (f.name, f.parameters)).map Prod.fst := by
        rw [List.map_map, List.map_map, List.map_map]
        rfl
    _ = heads.map Prod.fst := by rw [map_head_ofParts h]

end

/-- Functions are written one after the other under their heads. -/
theorem emitAllOn_eq {c : Compilation} {room : Room} {fs : List Function}
    {heads : List (String × String)}
    (hheads : fs.map Function.head = heads.map fun head => head.1 ++ "(" ++ head.2 ++ ")")
    (s : Progress) :
    (emitAllOn c room fs s).1 = (bodiesOn c room (fs.map Function.node) s).1.map fun found =>
      ((heads.zip found).map Written.ofParts).flatMap Written.lines := by
  induction fs generalizing heads s with
  | nil =>
    cases heads with
    | nil => rfl
    | cons head rest => cases hheads
  | cons f fs ih =>
    cases heads with
    | nil => cases hheads
    | cons head rest =>
      obtain ⟨hhead, hrest⟩ := List.cons.inj hheads
      rcases hrun : c.entryOn room f.node 1 s with ⟨e | body, s₁⟩
      · simp only [emitAllOn, Function.emitOn, bodiesOn, List.map_cons, bind, Emit.bind, hrun,
          Except.map]
      · have hmore := ih hrest s₁
        rcases hbodies : bodiesOn c room (fs.map Function.node) s₁ with ⟨e | found, s₂⟩ <;>
          rcases hlines : emitAllOn c room fs s₁ with ⟨e' | more, s₃⟩ <;>
          rw [hbodies, hlines] at hmore <;> cases hmore
        all_goals
          simp only [emitAllOn, Function.emitOn, bodiesOn, List.map_cons, bind, Emit.bind, hrun,
            hbodies, hlines, Except.map, pure, Emit.pure]
        simp [Written.ofParts, Written.lines, hhead]

/-- Entries that pass the check are written after the variables, each function under its head. -/
theorem Entries.text_eq {entries : Entries} {g : Graph} {settings : Settings}
    {globals : List Variable} {room : Room} {declarations : Variable.Declarations}
    {declared : List (String × String)} (hsome : entries.isEmpty = false)
    (hcheck : entries.check = .ok ())
    (hdeclare : Variable.declareOn (room.less declareFrames) globals = .ok declarations)
    (hlines : declarations.lines = declared.map Variable.declaration) :
    entries.text g settings globals room =
      (bodiesOn (compilation g settings entries declarations.names) (room.less entryFrames)
        ((functions entries ((Signature.ofNodes entries.custom).map (·.2))).map Function.node)
        {}).1.map fun found =>
          Layout.text ⟨declared, (entries.heads.zip found).map Written.ofParts⟩ := by
  unfold Entries.text
  rw [hsome, hcheck, hdeclare]
  change (emitAllOn _ _ _ _).1.map _ = _
  rw [emitAllOn_eq (functions_heads entries)]
  cases (bodiesOn _ _ _ _).1 with
  | error e => rfl
  | ok found => simp [Except.map, Layout.text, hlines]

/-- What a program that is made consists of: each event is answered once, each variable is declared
with the text of its value, and each function is written under its head. -/
theorem assemble_parts {g : Graph} {settings : Settings} {globals : List Variable} {text : String}
    (h : assemble g settings globals = .ok text) :
    ∃ entries, Entries.ofGraph g settings = .ok entries ∧
      (entries.isEmpty = true ∧ text = "\n".intercalate [header, noEntry] ∨
        entries.check = .ok () ∧ ∃ declarations declared found,
          Variable.declare globals = .ok declarations ∧
          declared.map Prod.fst = Variable.luaNames globals ∧
          globals.mapM Variable.defaultLiteral = .ok (declared.map Prod.snd) ∧
          (bodies (compilation g settings entries declarations.names)
            ((functions entries ((Signature.ofNodes entries.custom).map (·.2))).map Function.node)
            {}).1 = .ok found ∧
          text = Layout.text ⟨declared, (entries.heads.zip found).map Written.ofParts⟩) := by
  rw [assemble_eq] at h
  obtain ⟨entries, hentries, h⟩ := bind_ok h
  refine ⟨entries, hentries, ?_⟩
  by_cases hempty : entries.isEmpty = true
  · rw [Entries.text, if_pos hempty] at h
    exact .inl ⟨hempty, (Except.ok.inj h).symm⟩
  have hsome := Bool.eq_false_iff.mpr hempty
  obtain ⟨hcheck, declarations, hdeclareOn⟩ : entries.check = .ok () ∧
      ∃ declarations,
        Variable.declareOn (Room.endless.less declareFrames) globals = .ok declarations := by
    rw [Entries.text, if_neg hempty] at h
    obtain ⟨_, hcheck, h⟩ := bind_ok h
    obtain ⟨declarations, hdeclare, _⟩ := bind_ok h
    exact ⟨hcheck, declarations, hdeclare⟩
  have hdeclare := Variable.declareOn_ok hdeclareOn
  obtain ⟨declared, hnames, hvalues, hlines⟩ := Variable.declareFrom_lines hdeclare
  rw [Entries.text_eq hsome hcheck hdeclareOn hlines] at h
  obtain ⟨found, hbodies, rfl⟩ := map_ok h
  exact .inr ⟨hcheck, declarations, declared, found, hdeclare, hnames, hvalues, hbodies, rfl⟩

/-- As many bodies are found as there are functions. -/
theorem Entries.length_of_bodies {entries : Entries} {c : Compilation} {room : Room} {s : Progress}
    {found : List (List String)}
    (h : (bodiesOn c room ((functions entries ((Signature.ofNodes entries.custom).map (·.2))).map
      Function.node) s).1 = .ok found) : entries.heads.length = found.length := by
  rw [bodiesOn_length h, List.length_map, ← List.length_map Function.head, functions_heads,
    List.length_map]

/-- A program that is made is laid out with the names of its variables and functions, and each event
is answered once. -/
theorem assemble_layout {g : Graph} {settings : Settings} {globals : List Variable} {text : String}
    (h : assemble g settings globals = .ok text) :
    ∃ entries, Entries.ofGraph g settings = .ok entries ∧
      (entries.isEmpty = true ∧ text = "\n".intercalate [header, noEntry] ∨
        entries.check = .ok () ∧ ∃ layout : Layout, text = layout.text ∧
          layout.variableNames = Variable.luaNames globals ∧
          layout.functionNames = entries.functionNames) := by
  obtain ⟨entries, hentries, hparts⟩ := assemble_parts h
  refine ⟨entries, hentries, hparts.imp_right ?_⟩
  rintro ⟨hcheck, _, declared, found, _, hnames, _, hbodies, rfl⟩
  refine ⟨hcheck, _, rfl, hnames, ?_⟩
  rw [← entries.heads_names]
  exact Written.map_name_ofParts (Entries.length_of_bodies hbodies).le

end Program

/-! ## Documents -/

namespace Document

theorem check_of_compile {document : Table} {settings : Settings} {strict : Bool} {text : String}
    (h : compile (.table document) Library.catalogue settings strict = .ok text) :
    (check (some Library.catalogue) strict (.table document)).fault = none := by
  have hcatalogue : catalogueFor Library.catalogue = Library.catalogue := rfl
  unfold compile compileLogged at h
  rw [hcatalogue] at h
  dsimp only at h
  split at h
  · cases h
  · assumption
  · assumption

/-- The global names of a document that compiles. The text declares a variable for each variable of
the document and defines a function for each entry node. Variables and custom events have names that
the language takes, and among themselves each its own; so have events. All is well named if and only
if three things hold. An event that an entry node names itself has a name that the language takes,
which is not that of a custom event nor, unless it is one of the console, that of a variable. No
variable is given the name of an event of the console that is answered. No custom event has the name
of a variable. -/
theorem wellNamed_iff {document : Table} {settings : Settings} {strict : Bool} {text : String}
    (h : compile (.table document) Library.catalogue settings strict = .ok text) :
    ∃ g workspace entries, Graph.load (.table document) Library.catalogue = .ok g ∧
      globals document = .ok workspace ∧
      Program.Entries.ofGraph g (settingsFor document settings) = .ok entries ∧
      (entries.isEmpty = true ∧ text = "\n".intercalate [Program.header, Program.noEntry] ∨
        ∃ layout : Program.Layout, text = layout.text ∧
          layout.variableNames = Variable.luaNames workspace ∧
          layout.functionNames = entries.eventNames ++ entries.customNames ∧
          (∀ name ∈ layout.variableNames, Lua.IsDefinable name) ∧ layout.variableNames.Nodup ∧
          entries.eventNames.Nodup ∧ entries.customNames.Nodup ∧
          (∀ name ∈ entries.customNames, Lua.IsDefinable name) ∧
          (layout.WellNamed ↔
            (∀ name ∈ g.ownEvents, Lua.IsDefinable name ∧ name ∉ entries.customNames ∧
              (name ∉ Program.lifecycle → name ∉ Variable.luaNames workspace)) ∧
            (∀ name ∈ Program.lifecycle, name ∈ entries.eventNames →
              name ∉ Variable.givenNames workspace) ∧
            ∀ name ∈ entries.customNames, name ∉ Variable.luaNames workspace)) := by
  have hchecked := check_of_compile h
  rw [compile_eq hchecked] at h
  obtain ⟨g, hload, h⟩ := bind_ok h
  obtain ⟨workspace, hworkspace, h⟩ := bind_ok h
  have hg := Loaded.of_load hload
  have hplain := (accepted_of_check hchecked).plain hload
  obtain ⟨entries, hentries, hlaid⟩ := Program.assemble_layout (Program.assemble_of_compile h)
  refine ⟨g, workspace, entries, hload, hworkspace, hentries, hlaid.imp_right ?_⟩
  rintro ⟨hcheck, layout, htext, hvariables, hfunctions⟩
  have hevents : entries.eventNames.Nodup := Program.Entries.eventNames_nodup
    (Program.Entries.plain_of_graph hg.toRepresented hplain hentries) hcheck
  have hcustom : entries.customNames.Nodup := Program.Entries.customNames_nodup
    (((Program.Entries.custom_sublist hentries).map _).nodup hg.ids)
  have hnames := Program.Entries.functionNames_iff hg.toRepresented hplain hentries hevents hcustom
  have hapart := Program.Entries.functionNames_apart_iff hg.toRepresented hplain hentries workspace
  refine ⟨layout, htext, hvariables, hfunctions, ?_, ?_, hevents, hcustom, ?_, ?_⟩
  · intro name hname
    exact Variable.luaNames_isDefinable (hvariables ▸ hname)
  · rw [hvariables]
    exact Lua.freshAll_nodup 2 [] _
  · exact fun name hname => (Program.Entries.customNames_custom hname).1
  · rw [← hfunctions] at hnames hapart
    rw [← hvariables] at hapart ⊢
    constructor
    · intro hwell
      have hown := hnames.mp ⟨hwell.definable, hwell.nodup⟩
      obtain ⟨hvariable, hrest⟩ := hapart.mp hwell.apart
      exact ⟨fun name hname => ⟨(hown name hname).1, (hown name hname).2, hvariable name hname⟩,
        hrest⟩
    · intro ⟨hown, hrest⟩
      obtain ⟨hdefinable, hnodup⟩ :=
        hnames.mpr fun name hname => ⟨(hown name hname).1, (hown name hname).2.1⟩
      exact ⟨hdefinable, hnodup,
        hapart.mpr ⟨fun name hname => (hown name hname).2.2, hrest⟩⟩

/-- A document without wires: entry nodes for events, custom events, and variables, all by name. -/
def named (events customs names : List String) : Table := [
  (.text "nodes", .list (
    events.map (fun event => .object [("id", .text ("on " ++ event)),
      ("definitionId", .text "graphics_cls"), ("isEntryPoint", .bool true),
      ("eventName", .text event)]) ++
    customs.map fun name => .object [("id", .text ("call " ++ name)),
      ("definitionId", .text "custom_event"), ("properties", .object [("name", .text name)])])),
  (.text "connections", .list []),
  (.text "variables", .list (names.map fun name => .object [("id", .text name),
    ("name", .text name)]))]

theorem wellNamed_iff_named : ∃ layout : Program.Layout,
    compile (.table (named ["tick", "_update"] ["Up", "UP"] ["Up", "up"]))
      Library.catalogue {} false = .ok layout.text ∧
    layout.functionNames = ["_update", "tick", "custom_up_1", "custom_up"] ∧
    layout.variableNames = ["up", "up_2"] ∧ layout.WellNamed := by
  have hmade : (compile (.table (named ["tick", "_update"] ["Up", "UP"] ["Up", "up"]))
      Library.catalogue {} false).toOption.any (fun _ => true) = true := by
    decide +kernel
  have hentries : ((Graph.load (.table (named ["tick", "_update"] ["Up", "UP"]
      ["Up", "up"])) Library.catalogue).toOption.any fun g =>
        g.ownEvents == ["tick", "_update"] &&
        (Program.Entries.ofGraph g {}).toOption.any fun entries => !entries.isEmpty &&
          entries.eventNames == ["_update", "tick"] &&
          entries.customNames == ["custom_up_1", "custom_up"]) = true := by
    decide +kernel
  have hglobals : ((globals (named ["tick", "_update"] ["Up", "UP"]
      ["Up", "up"])).toOption.any fun workspace =>
        Variable.givenNames workspace == ["up", "up"] &&
          Variable.luaNames workspace == ["up", "up_2"]) = true := by
    decide +kernel
  obtain ⟨text, hcompile, _⟩ := exists_ok_of_any hmade
  obtain ⟨g, workspace, entries, hload, hworkspace, hfound, hlaid⟩ := wellNamed_iff hcompile
  rw [hload] at hentries
  rw [hworkspace] at hglobals
  change Program.Entries.ofGraph g {} = .ok entries at hfound
  simp only [Except.toOption, Option.any_some, hfound, Bool.and_eq_true, beq_iff_eq,
    Bool.not_eq_true'] at hentries hglobals
  obtain ⟨hown, ⟨hempty, hevents⟩, hcustom⟩ := hentries
  obtain ⟨hgiven, hglobals⟩ := hglobals
  rcases hlaid with ⟨hempty', _⟩ | ⟨layout, rfl, hvariables, hfunctions, _, _, _, _, _, hiff⟩
  · rw [hempty] at hempty'
    cases hempty'
  · rw [hglobals] at hvariables
    rw [hevents, hcustom] at hfunctions
    refine ⟨layout, hcompile, hfunctions, hvariables, hiff.mpr ?_⟩
    rw [hown, hevents, hcustom, hgiven, hglobals]
    decide

/-- Events keep the names of the document, and the three lists of names do not know of each other:
here a function is called `on hit`, two functions have the same name, and a variable has it too. -/
theorem named_clashing : ∃ layout : Program.Layout,
    compile (.table (named ["on hit", "custom_boom"] ["Boom"] ["Custom boom"]))
      Library.catalogue {} false = .ok layout.text ∧
    layout.functionNames = ["custom_boom", "on hit", "custom_boom"] ∧
    layout.variableNames = ["custom_boom"] ∧
    (∃ name ∈ layout.functionNames, ¬ Lua.IsDefinable name) ∧ ¬ layout.functionNames.Nodup ∧
    ∃ name ∈ layout.functionNames, name ∈ layout.variableNames := by
  have hmade : ((compile (.table (named ["on hit", "custom_boom"] ["Boom"] ["Custom boom"]))
      Library.catalogue {} false).toOption.any fun text =>
        text == (Program.Layout.mk [("custom_boom", "nil")] [⟨"custom_boom", "", ["  cls()"]⟩,
          ⟨"on hit", "", ["  cls()"]⟩, ⟨"custom_boom", "", []⟩]).text) = true := by
    decide +kernel
  obtain ⟨text, hcompile, htext⟩ := exists_ok_of_any hmade
  refine ⟨_, hcompile.trans (congrArg _ (eq_of_beq htext)), rfl, rfl, ?_, ?_, ?_⟩
  · exact ⟨"on hit", by decide, by decide⟩
  · decide
  · exact ⟨"custom_boom", by decide, by decide⟩

end Document

end CartGraph
