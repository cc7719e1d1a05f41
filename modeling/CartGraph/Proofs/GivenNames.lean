import CartGraph.Event.Signature
import CartGraph.Proofs.Graph.Representation
import CartGraph.Proofs.Lua.Lines
import CartGraph.Variable

/-! # Names that are given before the walk

Parameters, the functions of custom events and globals are named before any node is emitted. Their
names can be declared and are no words of the language. The signature that is found for a node id is
that of a node with this id, with the parameters of the node. -/
namespace CartGraph

theorem Lua.fresh_isName {base : String} (h : IsName base) (used : List String) (start : Nat) :
    IsName (fresh used base start) := by
  refine ⟨fun he => ?_, fresh_lower h.lower used start⟩
  have hp := fresh_base used base start
  rw [he] at hp
  exact h.ne_empty (String.toList_eq_nil_iff.mp (List.prefix_nil.mp hp))

theorem Lua.hasNameShape_of_isName {name : String} (h : IsName name)
    (hhead : ∀ c ∈ name.toList.head?, c.isDigit = false) : hasNameShape name.toList = true := by
  have hlower := h.lower
  cases hn : name.toList with
  | nil => exact absurd (String.toList_eq_nil_iff.mp hn) h.ne_empty
  | cons c cs =>
    rw [hn] at hhead hlower
    obtain ⟨hc, hcs⟩ := List.forall_mem_cons.mp hlower
    have hdigit := hhead c rfl
    have hstart : isNameStart c = true := by
      simp only [isLowerNameChar, isLowerAlnum, hdigit, Bool.or_false, Bool.or_eq_true] at hc
      have halpha (hl : c.isLower = true) : c.isAlpha = true := Bool.or_eq_true_iff.mpr (.inr hl)
      exact Bool.or_eq_true_iff.mpr (hc.imp_left halpha)
    exact Bool.and_eq_true_iff.mpr
      ⟨hstart, List.all_eq_true.mpr fun d hd => isNameChar_of_lower (hcs d hd)⟩

theorem Lua.sanitize_shape (raw : String) : hasNameShape (sanitize raw).toList = true :=
  hasNameShape_of_isName (sanitize_isName raw) (sanitize_head raw)

/-! ## Names for a list -/

namespace Lua

/-- A name that a program can define: it has the shape of a name and is no word of the language. -/
def IsDefinable (name : String) : Prop := hasNameShape name.toList = true ∧ name ∉ reserved

instance (name : String) : Decidable (IsDefinable name) :=
  inferInstanceAs (Decidable (_ ∧ _))

theorem fresh_isDefinable {base : String} (h : IsName base) (hfree : base ∉ reserved)
    (hhead : ∀ c ∈ base.toList.head?, c.isDigit = false) (used : List String) (start : Nat) :
    IsDefinable (fresh used base start) :=
  ⟨hasNameShape_of_isName (fresh_isName h used start) (fresh_head h.ne_empty hhead used start),
    fresh_free hfree used start⟩

/-- Names for bases in turn, each apart from the names in use and from those before it. -/
def freshAll (start : Nat) (used : List String) : List String → List String
  | [] => []
  | base :: rest =>
    fresh used base start :: freshAll start (fresh used base start :: used) rest

variable {start : Nat} {used bases : List String} {name : String}

theorem freshAll_base (h : name ∈ freshAll start used bases) :
    ∃ base ∈ bases, ∃ used, name = fresh used base start := by
  induction bases generalizing used with
  | nil => simp [freshAll] at h
  | cons base rest ih =>
    rcases List.mem_cons.mp h with h | h
    · exact ⟨base, by simp, used, h⟩
    · obtain ⟨base', hbase, hname⟩ := ih h
      exact ⟨base', by simp [hbase], hname⟩

theorem freshAll_not_mem (h : name ∈ freshAll start used bases) : name ∉ used := by
  induction bases generalizing used with
  | nil => simp [freshAll] at h
  | cons base rest ih =>
    rcases List.mem_cons.mp h with rfl | h
    · exact fresh_not_mem used base start
    · intro hused
      exact ih h (by simp [hused])

theorem freshAll_nodup (start : Nat) (used bases : List String) :
    (freshAll start used bases).Nodup := by
  induction bases generalizing used with
  | nil => simp [freshAll]
  | cons base rest ih =>
    refine List.nodup_cons.mpr ⟨fun h => ?_, ih _⟩
    exact freshAll_not_mem h (by simp)

/-- A base is given as a name, if it was not in use. -/
theorem mem_freshAll {base : String} (h : base ∈ bases) :
    base ∈ used ∨ base ∈ freshAll start used bases := by
  induction bases generalizing used with
  | nil => cases h
  | cons first rest ih =>
    unfold freshAll
    rcases List.mem_cons.mp h with rfl | h
    · by_cases hused : base ∈ used
      · exact .inl hused
      · have hfirst : fresh used base start = base := by simp [fresh, hused]
        exact .inr (by rw [hfirst]; exact .head _)
    · rcases ih h with hused | hrest
      · rcases List.mem_cons.mp hused with hfirst | hused
        · exact .inr (hfirst ▸ .head _)
        · exact .inl hused
      · exact .inr (.tail _ hrest)

/-- No numbering makes a name that has no underscore behind its first character. -/
theorem mem_freshAll_iff {name : String} (hname : '_' ∉ name.toList.tail)
    (hbases : ∀ base ∈ bases, base ≠ "") : name ∈ freshAll start [] bases ↔ name ∈ bases := by
  constructor
  · intro h
    obtain ⟨base, hbase, used, he⟩ := freshAll_base h
    rcases fresh_cases used base start with hplain | ⟨n, hnumbered⟩
    · rwa [he, hplain]
    · refine absurd ?_ hname
      have hne : base.toList ≠ [] := fun h =>
        hbases base hbase (String.toList_eq_nil_iff.mp h)
      rw [he, hnumbered, numbered, String.toList_append, String.toList_append, List.append_assoc,
        List.tail_append_of_ne_nil hne]
      simp
  · intro h
    exact (mem_freshAll h).resolve_left List.not_mem_nil

end Lua

/-! ## Parameters -/

theorem Parameter.ofEntries_fresh (index : Nat) (used : List String) (items : List Value) :
    ∀ q ∈ ofEntries index used items, ∃ used raw, q.luaName = Lua.fresh used (Lua.sanitize raw) 2 := by
  induction items generalizing index used with
  | nil => exact fun q hq => nomatch hq
  | cons v rest ih =>
    intro q hq
    rcases List.mem_cons.mp hq with rfl | hq
    · exact ⟨used, _, rfl⟩
    · exact ih _ _ q hq

/-- Parameters have the names of the user, numbered. -/
theorem Node.parameters_fresh (n : Node) :
    ∀ q ∈ n.parameters, ∃ used raw, q.luaName = Lua.fresh used (Lua.sanitize raw) 2 := by
  unfold parameters Parameter.ofValue
  split
  · exact Parameter.ofEntries_fresh 0 [] _
  · exact fun q hq => nomatch hq

theorem Node.parameters_isName (n : Node) : ∀ q ∈ n.parameters, Lua.IsName q.luaName := by
  intro q hq
  obtain ⟨used, raw, h⟩ := n.parameters_fresh q hq
  rw [h]
  exact Lua.fresh_isName (Lua.sanitize_isName raw) used 2

/-! ## Functions of custom events -/

namespace Signature

theorem baseName_isName (displayName : String) :
    Lua.IsName (baseName displayName) ∧ baseName displayName ∉ Lua.reserved := by
  have hs := Lua.sanitize_isName displayName
  unfold baseName
  dsimp only
  split
  · exact ⟨hs, Lua.sanitize_free displayName⟩
  · refine ⟨⟨?_, ?_⟩, fun hm => Lua.reserved_underscore _ hm (by simp)⟩
    · exact fun he => hs.ne_empty (String.append_eq_empty_iff.mp he).2
    · intro c hc
      rw [String.toList_append] at hc
      rcases List.mem_append.mp hc with hc | hc
      · have hall : ∀ c ∈ "custom_".toList, Lua.isLowerNameChar c = true :=
          List.all_eq_true.mp (by decide)
        exact hall c hc
      · exact hs.lower c hc

theorem collect_lookup {nodes : List Node} {used : List String} {found : List (Key × Signature)}
    {k : Key} {s : Signature} (h : (collect used found nodes).lookup k = some s) :
    found.lookup k = some s ∨ ∃ n ∈ nodes, n.id.canonical = k ∧ ∃ used, s = ofNode used n := by
  induction nodes generalizing used found with
  | nil => exact .inl h
  | cons n rest ih =>
    rcases ih h with h | ⟨m, hm, hk, hs⟩
    · rw [Association.lookup_assign] at h
      split at h
      · rename_i hk
        exact .inr ⟨n, .head _, hk.symm, used, (Option.some.inj h).symm⟩
      · exact .inl h
    · exact .inr ⟨m, .tail _ hm, hk, hs⟩

theorem collect_found (nodes : List Node) (used : List String) (found : List (Key × Signature))
    {k : Key} (h : (∃ s, found.lookup k = some s) ∨ ∃ n ∈ nodes, n.id.canonical = k) :
    ∃ s, (collect used found nodes).lookup k = some s := by
  induction nodes generalizing used found with
  | nil => exact h.elim id fun ⟨_, hn, _⟩ => nomatch hn
  | cons n rest ih =>
    refine ih _ _ ?_
    by_cases hk : k = n.id.canonical
    · exact .inl ⟨_, by rw [Association.lookup_assign, if_pos hk]⟩
    · rcases h with ⟨s, hs⟩ | ⟨m, hm, hmk⟩
      · exact .inl ⟨s, by rw [Association.lookup_assign, if_neg hk]; exact hs⟩
      · rcases List.mem_cons.mp hm with rfl | hm
        · exact absurd hmk.symm hk
        · exact .inr ⟨m, hm, hmk⟩

theorem collect_mem {nodes : List Node} {used : List String} {found : List (Key × Signature)}
    {entry : Key × Signature} (h : entry ∈ collect used found nodes) :
    entry ∈ found ∨ ∃ n ∈ nodes, ∃ used, entry.2 = ofNode used n := by
  induction nodes generalizing used found with
  | nil => exact .inl h
  | cons n rest ih =>
    rcases ih h with h | ⟨m, hm, hs⟩
    · rcases Association.mem_assign h with rfl | h
      · exact .inr ⟨n, .head _, used, rfl⟩
      · exact .inl h
    · exact .inr ⟨m, .tail _ hm, hs⟩

/-- Every signature is that of a node. -/
theorem ofNodes_mem {nodes : List Node} {entry : Key × Signature} (h : entry ∈ ofNodes nodes) :
    ∃ n ∈ nodes, ∃ used, entry.2 = ofNode used n :=
  (collect_mem h).resolve_left fun h => nomatch h

/-- The signature of a node id is that of a node with this id. -/
theorem ofNodes_ofNode {nodes : List Node} {k : Key} {s : Signature}
    (h : (ofNodes nodes).lookup k = some s) :
    ∃ n ∈ nodes, n.id.canonical = k ∧ ∃ used, s = ofNode used n :=
  (collect_lookup h).resolve_left fun h => nomatch h

theorem ofNodes_lookup {nodes : List Node} {k : Key} {s : Signature}
    (h : (ofNodes nodes).lookup k = some s) :
    ∃ n ∈ nodes, n.id.canonical = k ∧ s.parameters = n.parameters ∧
      Lua.IsName s.functionName ∧ s.functionName ∉ Lua.reserved := by
  obtain ⟨n, hn, hk, used, rfl⟩ := ofNodes_ofNode h
  obtain ⟨hname, hfree⟩ := baseName_isName (displayNameOf n)
  exact ⟨n, hn, hk, rfl, Lua.fresh_isName hname _ _, Lua.fresh_free hfree _ _⟩

theorem ofNodes_found {nodes : List Node} {n : Node} (h : n ∈ nodes) :
    ∃ s, (ofNodes nodes).lookup n.id.canonical = some s :=
  collect_found nodes [] [] (.inr ⟨n, h, rfl⟩)

end Signature

/-! ## Globals -/

namespace Variable

theorem baseName_isName (v : Variable) (index : Nat) :
    Lua.IsName (v.baseName index) ∧ v.baseName index ∉ Lua.reserved := by
  unfold baseName
  dsimp only
  exact ⟨Lua.sanitize_isName _, Lua.sanitize_free _⟩

/-- What holds of every numbered name holds of every global. -/
theorem declareFrom_names (P : String → Prop) {globals : List Variable} {index : Nat}
    {used : List String} {found declarations : Declarations}
    (hfresh : ∀ (v : Variable) index used, P (Lua.fresh used (v.baseName index) 2))
    (hfound : ∀ id name, found.names.lookup id = some name → P name)
    (h : declareFrom index used found globals = .ok declarations) :
    ∀ id name, declarations.names.lookup id = some name → P name := by
  induction globals generalizing index used found with
  | nil => exact Except.ok.inj h ▸ hfound
  | cons v rest ih =>
    obtain ⟨text, _, h⟩ := bind_ok h
    refine ih (fun id name hl => ?_) h
    rw [Association.lookup_assign] at hl
    split at hl
    · rw [← Option.some.inj hl]
      exact hfresh v index used
    · exact hfound id name hl

theorem declare_names {globals : List Variable} {declarations : Declarations}
    (h : declare globals = .ok declarations) {id name : String}
    (hl : declarations.names.lookup id = some name) : Lua.IsName name ∧ name ∉ Lua.reserved := by
  refine declareFrom_names (fun name => Lua.IsName name ∧ name ∉ Lua.reserved)
    (fun v index used => ?_) (fun _ _ hl => by simp at hl) h id name hl
  obtain ⟨hname, hfree⟩ := v.baseName_isName index
  exact ⟨Lua.fresh_isName hname used 2, Lua.fresh_free hfree used 2⟩

theorem declare_shape {globals : List Variable} {declarations : Declarations}
    (h : declare globals = .ok declarations) {id name : String}
    (hl : declarations.names.lookup id = some name) : Lua.hasNameShape name.toList = true := by
  refine Lua.hasNameShape_of_isName (declare_names h hl).1 ?_
  refine declareFrom_names (fun name => ∀ c ∈ name.toList.head?, c.isDigit = false)
    (fun v index used => ?_) (fun _ _ hl => by simp at hl) h id name hl
  unfold baseName
  dsimp only
  exact Lua.fresh_head (Lua.sanitize_ne_empty _) (Lua.sanitize_head _) used 2

end Variable

end CartGraph
