import CartGraph.Proofs.Program.GlobalNames
import CartGraph.Proofs.SymbolTable

/-! # Temporaries

A table of names is asked for temporaries between all that is done to its scopes. Whatever the
history, a temporary that was asked for keeps its name, and no other temporary has it
(`SymbolTable.temp_names`). The names of users never meet them. That a sanitised name does not start
with the marker is not enough for this, since numbers are put after it: two variables called `__pg`
are named `__pg` and `__pg_2`. But nothing except the number stands there after the marker, and a
temporary has an owner and a label (`Lua.IsHidden`). -/
namespace CartGraph

namespace Lua

/-! ## Names of users are not hidden -/

/-- A hidden name of several parts: more than one word stands after the marker. -/
def IsHidden (name : String) : Prop :=
  ∃ rest, name.toList = hiddenStart.toList ++ rest ∧ '_' ∈ rest

theorem IsHidden.marked {name : String} (h : IsHidden name) :
    hiddenStart.toList <+: name.toList := by
  obtain ⟨rest, hname, _⟩ := h
  exact ⟨rest, hname.symm⟩

theorem hidden_isHidden (owner label : String) : IsHidden (hidden owner label) :=
  ⟨hiddenPart owner "node" ++ '_' :: hiddenPart label "tmp",
    by rw [hidden, String.toList_ofList, List.append_assoc], by simp⟩

theorem IsHidden.fresh {base : String} (h : IsHidden base) (used : List String) (start : Nat) :
    IsHidden (Lua.fresh used base start) := by
  obtain ⟨rest, hbase, hrest⟩ := h
  obtain ⟨number, hnumber⟩ := fresh_base used base start
  refine ⟨rest ++ number, ?_, List.mem_append_left _ hrest⟩
  rw [← hnumber, hbase, List.append_assoc]

/-- A number adds a single word, so what was not hidden before does not get a second one. -/
theorem numbered_not_isHidden {base : String} (h : ¬ hiddenStart.toList <+: base.toList) (n : Nat) :
    ¬ IsHidden (numbered base n) := by
  rintro ⟨rest, hname, hrest⟩
  have hname : base.toList ++ '_' :: (toString n).toList = hiddenStart.toList ++ rest := by
    simpa [numbered] using hname
  -- the base ends inside of the marker
  obtain ⟨tail, htail⟩ : base.toList <+: hiddenStart.toList :=
    (List.prefix_or_prefix_of_prefix (hname ▸ List.prefix_append ..)
      (List.prefix_append ..)).resolve_right h
  rw [← htail, List.append_assoc] at hname
  have hnumber := List.append_cancel_left hname
  cases tail with
  | nil =>
    rw [List.append_nil] at htail
    exact h (htail ▸ List.prefix_rfl)
  | cons c tail =>
    have hdigit : '_' ∈ (toString n).toList := by
      rw [(List.cons.inj hnumber).2]
      exact List.mem_append_right _ hrest
    exact absurd (toString_digits n '_' hdigit) (by decide)

theorem fresh_not_isHidden {base : String} (h : ¬ hiddenStart.toList <+: base.toList)
    (used : List String) (start : Nat) : ¬ IsHidden (fresh used base start) := by
  rcases fresh_cases used base start with he | ⟨n, he⟩ <;> rw [he]
  · exact fun hhidden => h hhidden.marked
  · exact numbered_not_isHidden h n

/-- Names that stand before a blank can be told apart. -/
theorem IsName.eq_of_blank {a b : String} (ha : IsName a) (hb : IsName b) {r s : List Char}
    (h : a.toList ++ ' ' :: r = b.toList ++ ' ' :: s) : a = b := by
  have hname {x : String} (hx : IsName x) (r : List Char) :
      (x.toList ++ ' ' :: r).takeWhile isLowerNameChar = x.toList := by
    rw [List.takeWhile_append_of_pos hx.lower, List.takeWhile_cons_of_neg (by decide),
      List.append_nil]
  rw [← String.toList_inj, ← hname ha r, h, hname hb s]

end Lua

theorem Parameter.not_isHidden {v : Value} {p : Parameter} (h : p ∈ ofValue v) :
    ¬ Lua.IsHidden p.luaName := by
  cases v with
  | list items =>
    obtain ⟨used, raw, hname⟩ := ofEntries_fresh 0 [] items p h
    rw [hname]
    exact Lua.fresh_not_isHidden (Lua.sanitize_visible raw) used 2
  | null | omitted | bool | int | float | text | table => cases h

theorem Signature.baseName_visible (displayName : String) :
    ¬ Lua.hiddenStart.toList <+: (baseName displayName).toList := by
  obtain ⟨rest, hrest⟩ := baseName_custom displayName
  rw [← hrest]
  rintro ⟨more, hmore⟩
  cases hmore

theorem Signature.not_isHidden {nodes : List Node} {entry : Key × Signature}
    (h : entry ∈ ofNodes nodes) : ¬ Lua.IsHidden entry.2.functionName := by
  obtain ⟨n, _, used, hs⟩ := ofNodes_mem h
  rw [hs]
  exact Lua.fresh_not_isHidden (baseName_visible _) used 1

namespace Variable

theorem baseName_visible (v : Variable) (index : Nat) :
    ¬ Lua.hiddenStart.toList <+: (v.baseName index).toList := by
  unfold baseName
  dsimp only
  exact Lua.sanitize_visible _

theorem luaNames_isName {globals : List Variable} {name : String} (h : name ∈ luaNames globals) :
    Lua.IsName name := by
  obtain ⟨base, hbase, used, rfl⟩ := Lua.freshAll_base h
  obtain ⟨v, _, rfl⟩ := List.mem_map.mp hbase
  exact Lua.fresh_isName (v.1.baseName_isName v.2).1 used 2

theorem luaNames_not_isHidden {globals : List Variable} {name : String}
    (h : name ∈ luaNames globals) : ¬ Lua.IsHidden name := by
  obtain ⟨base, hbase, used, rfl⟩ := Lua.freshAll_base h
  obtain ⟨v, _, rfl⟩ := List.mem_map.mp hbase
  exact Lua.fresh_not_isHidden (v.1.baseName_visible v.2) used 2

section

variable {globals : List Variable} {declarations : Declarations}
  (h : declare globals = .ok declarations) {name : String} (hhidden : Lua.IsHidden name)
include h hhidden

theorem lookup_ne_of_isHidden (id : String) : declarations.names.lookup id ≠ some name := by
  intro hl
  exact declareFrom_names (fun name => ¬ Lua.IsHidden name)
    (fun v index used => Lua.fresh_not_isHidden (v.baseName_visible index) used 2)
    (fun _ _ hl => by simp at hl) h id name hl hhidden

/-- No line declares a hidden name. -/
theorem not_declares_of_isHidden (hname : Lua.IsName name) :
    ∀ line ∈ declarations.lines, ¬ (name ++ " = ").toList <+: line.toList := by
  obtain ⟨declared, hnames, _, hlines⟩ := declareFrom_lines h
  rintro line hline ⟨rest, hrest⟩
  rw [hlines, List.nil_append] at hline
  obtain ⟨⟨given, text⟩, hgiven, rfl⟩ := List.mem_map.mp hline
  have hnames : declared.map Prod.fst = luaNames globals := hnames
  have hgiven : given ∈ luaNames globals := hnames ▸ List.mem_map_of_mem hgiven
  have hsame : name = given := by
    refine hname.eq_of_blank (luaNames_isName hgiven) (r := '=' :: ' ' :: rest)
      (s := '=' :: ' ' :: text.toList) ?_
    simpa [declaration] using hrest
  exact luaNames_not_isHidden hgiven (hsame ▸ hhidden)

end

end Variable

/-! ## Operations on a table -/

namespace SymbolTable

inductive Operation where
  | push
  | pop
  | bind (node pin : Key) (name : String)
  | lookup (node pin : Key)
  | temp (node label : Key)
  deriving DecidableEq, Repr

/-- The table after an operation. One that fails leaves it as it was. -/
def Operation.apply (t : SymbolTable) : Operation → SymbolTable
  | .push => t.push
  | .pop => match t.pop with
    | .ok t' => t'
    | .error _ => t
  | .bind node pin name => t.bind node pin name
  | .lookup _ _ => t
  | .temp node label => (t.temp node label).2

def after (ops : List Operation) : SymbolTable := ops.foldl Operation.apply {}

def Answered (ops : List Operation) (node label : Key) (name : String) : Prop :=
  ∃ before rest, ops = before ++ .temp node label :: rest ∧
    ((after before).temp node label).1 = name

/-- Only asking for a temporary issues names. -/
theorem Operation.issued_cases (t : SymbolTable) (op : Operation) :
    (op.apply t).issued = t.issued ∨ ∃ node label, op = .temp node label := by
  cases op with
  | push => exact .inl rfl
  | pop =>
    refine .inl ?_
    unfold apply SymbolTable.pop
    cases t.outer <;> rfl
  | bind node pin name => exact .inl rfl
  | lookup node pin => exact .inl rfl
  | temp node label => exact .inr ⟨node, label, rfl⟩

theorem Operation.issued_prefix (t : SymbolTable) (op : Operation) :
    t.issued <+: (op.apply t).issued := by
  rcases op.issued_cases t with h | ⟨node, label, rfl⟩
  · simp only [h, List.prefix_rfl]
  · exact t.temp_issued node label

theorem foldl_issued (t : SymbolTable) (ops : List Operation) :
    t.issued <+: (ops.foldl Operation.apply t).issued := by
  induction ops generalizing t with
  | nil => exact List.prefix_rfl
  | cons op rest ih => exact (op.issued_prefix t).trans (ih _)

/-- What is said of issued names only, and is kept where a temporary is asked for, holds along every
history. -/
theorem foldl_induction {Q : SymbolTable → Prop}
    (hcongr : ∀ {t t' : SymbolTable}, Q t → t'.issued = t.issued → Q t')
    (htemp : ∀ {t : SymbolTable} (node label), Q t → Q (t.temp node label).2)
    (ops : List Operation) {t : SymbolTable} (h : Q t) : Q (ops.foldl Operation.apply t) := by
  induction ops generalizing t with
  | nil => exact h
  | cons op rest ih =>
    refine ih ?_
    rcases op.issued_cases t with hissued | ⟨node, label, rfl⟩
    · exact hcongr h hissued
    · exact htemp node label h

theorem issued_after (ops : List Operation) : (after ops).Issued :=
  foldl_induction (fun h => h.congr) (fun node label h => h.temp node label) ops
    ⟨by simp, by simp, by simp⟩

theorem isHidden_after (ops : List Operation) : ∀ e ∈ (after ops).issued, Lua.IsHidden e.2 :=
  foldl_induction (Q := fun t => ∀ e ∈ t.issued, Lua.IsHidden e.2) (fun h hissued => hissued ▸ h)
    (fun node label h => temp_forall (fun _ _ used => (Lua.hidden_isHidden _ _).fresh used 2) h
      node label) ops (by simp)

namespace Answered

variable {ops : List Operation} {node label : Key} {name : String}

/-- What was answered once is issued for good. -/
theorem issued (h : Answered ops node label name) :
    (after ops).issued.lookup (outputOf node label) = some name := by
  obtain ⟨before, rest, rfl, rfl⟩ := h
  unfold after
  rw [List.foldl_append, List.foldl_cons]
  exact lookup_of_earlier (foldl_issued _ rest) (temp_lookup _ node label)

theorem isName (h : Answered ops node label name) : Lua.IsName name :=
  (issued_after ops).isName _ (Association.mem_of_lookup h.issued)

theorem isHidden (h : Answered ops node label name) : Lua.IsHidden name :=
  isHidden_after ops _ (Association.mem_of_lookup h.issued)

theorem isDefinable (h : Answered ops node label name) : Lua.IsDefinable name := by
  obtain ⟨rest, hname, hrest⟩ := h.isHidden
  refine ⟨Lua.hasNameShape_of_isName h.isName fun c hc => ?_, fun hreserved => ?_⟩
  · rw [hname] at hc
    cases hc
    decide
  · refine Lua.reserved_underscore _ hreserved ?_
    rw [hname]
    exact List.mem_append_right _ hrest

end Answered

/-- Temporaries along any history of a table. The same request has the same answer and another one
has another, and each answer is a name that the language takes, in the region of hidden names. It is
no name of a user: no text is sanitised to it, and no variable, no parameter and no function of a
custom event is called so, numbered or not. -/
theorem temp_names {ops : List Operation} {node label node' label' : Key} {name name' : String}
    (h : Answered ops node label name) (h' : Answered ops node' label' name') :
    (name = name' ↔ outputOf node label = outputOf node' label') ∧
    Lua.IsDefinable name ∧ Lua.hiddenStart.toList <+: name.toList ∧
    (∀ raw, name ≠ Lua.sanitize raw ∧ ∀ n, name ≠ Lua.numbered (Lua.sanitize raw) n ∧
      name ≠ Lua.numbered (Signature.baseName raw) n) ∧
    (∀ globals declarations, Variable.declare globals = .ok declarations →
      (∀ line ∈ declarations.lines, ¬ (name ++ " = ").toList <+: line.toList) ∧
      ∀ id, declarations.names.lookup id ≠ some name) ∧
    (∀ v, ∀ p ∈ Parameter.ofValue v, name ≠ p.luaName) ∧
    ∀ nodes, ∀ entry ∈ Signature.ofNodes nodes, name ≠ entry.2.functionName := by
  have hhidden := h.isHidden
  refine ⟨⟨?_, ?_⟩, h.isDefinable, hhidden.marked, fun raw => ⟨?_, fun n => ⟨?_, ?_⟩⟩,
    fun globals declarations hdeclare => ⟨?_, ?_⟩, fun v p hp => ?_, fun nodes entry he => ?_⟩
  · intro hname
    exact (issued_after ops).eq_of_lookup h.issued (hname ▸ h'.issued)
  · intro hsame
    have hissued := h.issued
    rw [hsame, h'.issued] at hissued
    exact (Option.some.inj hissued).symm
  · exact fun hname => Lua.sanitize_visible raw (hname ▸ hhidden.marked)
  · exact fun hname => Lua.numbered_not_isHidden (Lua.sanitize_visible raw) n (hname ▸ hhidden)
  · exact fun hname =>
      Lua.numbered_not_isHidden (Signature.baseName_visible raw) n (hname ▸ hhidden)
  · exact Variable.not_declares_of_isHidden hdeclare hhidden h.isName
  · exact Variable.lookup_ne_of_isHidden hdeclare hhidden
  · exact fun hname => Parameter.not_isHidden hp (hname ▸ hhidden)
  · exact fun hname => Signature.not_isHidden he (hname ▸ hhidden)

/-- Requests of which two have owners that are sanitised alike, and the third wants the name that was
numbered for the second. -/
def crossing : List Operation := [.temp "a b" "x", .push, .bind "a b" "out" "__pg_a_b_x",
  .temp "A-B" "x", .pop, .pop, .temp "a_b" "x_2", .lookup "a b" "out", .temp "a b" "x"]

theorem temp_names_crossing :
    (after crossing).issued.map Prod.snd = ["__pg_a_b_x", "__pg_a_b_x_2", "__pg_a_b_x_2_2"] ∧
    Answered crossing "A-B" "x" "__pg_a_b_x_2" ∧ Answered crossing "a_b" "x_2" "__pg_a_b_x_2_2" ∧
    outputOf "A-B" "x" ≠ outputOf "a_b" "x_2" ∧ Lua.IsDefinable "__pg_a_b_x_2" ∧
    "__pg_a_b_x_2" ≠ Lua.numbered (Lua.sanitize "__pg") 2 := by
  have hfirst : Answered crossing "A-B" "x" "__pg_a_b_x_2" :=
    ⟨crossing.take 3, crossing.drop 4, rfl, by decide +kernel⟩
  have hsecond : Answered crossing "a_b" "x_2" "__pg_a_b_x_2_2" :=
    ⟨crossing.take 6, crossing.drop 7, rfl, by decide +kernel⟩
  obtain ⟨hsame, hdefinable, _, husers, _⟩ := temp_names hfirst hsecond
  refine ⟨by decide +kernel, hfirst, hsecond, fun h => ?_, hdefinable, ((husers "__pg").2 2).1⟩
  exact absurd (hsame.mpr h) (by decide)

end SymbolTable

end CartGraph
