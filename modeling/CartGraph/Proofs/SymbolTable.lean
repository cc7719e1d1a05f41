import CartGraph.SymbolTable
import CartGraph.Proofs.Graph.Representation
import CartGraph.Proofs.Lua.Lines
import CartGraph.Proofs.Table

/-! # Looking up and issuing names

Temporaries are issued under hidden names, a different one for each node and label. -/
namespace CartGraph

/-- What was issued stays. -/
theorem lookup_of_earlier {issued issued' : List (Output × String)} (h : issued <+: issued')
    {k : Output} {name : String} (hk : issued.lookup k = some name) :
    issued'.lookup k = some name := by
  obtain ⟨more, rfl⟩ := h
  rw [List.lookup_append, hk]
  rfl

namespace SymbolTable

variable {t : SymbolTable} {node label : Key}

theorem temp_of_issued {name : String} (h : t.issued.lookup (outputOf node label) = some name) :
    t.temp node label = (name, t) := by
  unfold temp
  rw [h]

theorem temp_of_new (h : t.issued.lookup (outputOf node label) = none) :
    t.temp node label = (Lua.fresh (t.issued.map (·.2)) (Lua.hidden node.spelling label.spelling) 2,
      { t with issued := t.issued ++ [(outputOf node label,
        Lua.fresh (t.issued.map (·.2)) (Lua.hidden node.spelling label.spelling) 2)] }) := by
  unfold temp
  rw [h]

theorem temp_scopes (t : SymbolTable) (node label : Key) :
    (t.temp node label).2.top = t.top ∧ (t.temp node label).2.outer = t.outer := by
  cases h : t.issued.lookup (outputOf node label) with
  | some name => rw [temp_of_issued h]; exact ⟨rfl, rfl⟩
  | none => rw [temp_of_new h]; exact ⟨rfl, rfl⟩

theorem temp_issued (t : SymbolTable) (node label : Key) :
    t.issued <+: (t.temp node label).2.issued := by
  cases h : t.issued.lookup (outputOf node label) with
  | some name => simp only [temp_of_issued h, List.prefix_rfl]
  | none => simp only [temp_of_new h, List.prefix_append]

/-- A temporary that was asked for is issued. -/
theorem temp_lookup (t : SymbolTable) (node label : Key) :
    (t.temp node label).2.issued.lookup (outputOf node label) = some (t.temp node label).1 := by
  cases h : t.issued.lookup (outputOf node label) with
  | some name => rw [temp_of_issued h]; exact h
  | none => rw [temp_of_new h]; simp [List.lookup_append, h]

/-! ## Names in scope -/

theorem lookup_of_scopes {t t' : SymbolTable} (htop : t'.top = t.top) (houter : t'.outer = t.outer)
    (n p : Key) : t'.lookup n p = t.lookup n p := by
  unfold lookup
  rw [htop, houter]

theorem lookup_push (t : SymbolTable) (n p : Key) : t.push.lookup n p = t.lookup n p := rfl

theorem lookup_temp (t : SymbolTable) (node label n p : Key) :
    (t.temp node label).2.lookup n p = t.lookup n p :=
  lookup_of_scopes (t.temp_scopes node label).1 (t.temp_scopes node label).2 n p

theorem lookup_bind (t : SymbolTable) (node pin : Key) (name : String) (n p : Key) :
    (t.bind node pin name).lookup n p =
      if outputOf n p = outputOf node pin then some name else t.lookup n p := by
  unfold lookup bind
  rw [List.findSome?_cons, List.findSome?_cons, Association.lookup_assign]
  by_cases h : outputOf n p = outputOf node pin
  · rw [if_pos h, if_pos h]
  · rw [if_neg h, if_neg h]

/-! ## Names that were issued -/

/-- Names that were issued are hidden and all different. -/
structure Issued (t : SymbolTable) : Prop where
  isName : ∀ e ∈ t.issued, Lua.IsName e.2
  hidden : ∀ e ∈ t.issued, Lua.hiddenStart.toList <+: e.2.toList
  distinct : (t.issued.map Prod.snd).Nodup

theorem Issued.congr {t t' : SymbolTable} (h : t.Issued) (hi : t'.issued = t.issued) : t'.Issued :=
  ⟨hi ▸ h.isName, hi ▸ h.hidden, hi ▸ h.distinct⟩

/-- What holds of every hidden name, however it is numbered, holds of the names that are issued. -/
theorem temp_forall {P : String → Prop}
    (hfresh : ∀ owner label used, P (Lua.fresh used (Lua.hidden owner label) 2))
    (h : ∀ e ∈ t.issued, P e.2) (node label : Key) :
    ∀ e ∈ (t.temp node label).2.issued, P e.2 := by
  cases hl : t.issued.lookup (outputOf node label) with
  | some name => rw [temp_of_issued hl]; exact h
  | none =>
    rw [temp_of_new hl]
    intro e he
    rcases List.mem_append.mp he with he | he
    · exact h e he
    · rw [List.mem_singleton.mp he]
      exact hfresh _ _ _

theorem Issued.temp {t : SymbolTable} (h : t.Issued) (node label : Key) :
    (t.temp node label).2.Issued := by
  have hhidden (owner label : String) (used : List String) :
      Lua.hiddenStart.toList <+: (Lua.fresh used (Lua.hidden owner label) 2).toList :=
    (Lua.hidden_hidden ..).trans (Lua.fresh_base ..)
  have hname (owner label : String) (used : List String) :
      Lua.IsName (Lua.fresh used (Lua.hidden owner label) 2) := by
    refine ⟨fun he => ?_, Lua.fresh_lower (Lua.hidden_lower _ _) _ _⟩
    have hmarked := hhidden owner label used
    rw [he] at hmarked
    exact absurd hmarked (by decide)
  refine ⟨temp_forall hname h.isName node label,
    temp_forall (P := fun name => _ <+: name.toList) hhidden h.hidden node label, ?_⟩
  cases hl : t.issued.lookup (outputOf node label) with
  | some name => rw [temp_of_issued hl]; exact h.distinct
  | none =>
    rw [temp_of_new hl, List.map_append, List.nodup_append]
    refine ⟨h.distinct, by simp, fun a ha b hb => ?_⟩
    have hb : b = Lua.fresh (t.issued.map (·.2)) (Lua.hidden node.spelling label.spelling) 2 := by
      simpa using hb
    rintro rfl
    exact Lua.fresh_not_mem _ _ _ (hb ▸ ha)

/-- A name is issued for one node and label only. -/
theorem Issued.eq_of_lookup {t : SymbolTable} (h : t.Issued) {k k' : Output} {name : String}
    (hk : t.issued.lookup k = some name) (hk' : t.issued.lookup k' = some name) : k = k' := by
  have mem {k : Output} (hk : t.issued.lookup k = some name) : (k, name) ∈ t.issued := by
    obtain ⟨l₁, l₂, hl, _⟩ := List.lookup_eq_some_iff.mp hk
    rw [hl]
    simp
  have := List.inj_on_of_nodup_map h.distinct (mem hk) (mem hk') rfl
  exact congrArg Prod.fst this

/-- Names that were issued hold the characters of their labels. -/
def Labelled (t : SymbolTable) : Prop :=
  ∀ e ∈ t.issued, ∀ label : String, e.1.2 = .text label →
    ∀ c ∈ Lua.hiddenPart label "tmp", c ∈ e.2.toList

theorem Labelled.congr {t t' : SymbolTable} (h : t.Labelled) (hi : t'.issued = t.issued) :
    t'.Labelled := by
  unfold Labelled
  rw [hi]
  exact h

theorem Labelled.temp {t : SymbolTable} (h : t.Labelled) (node label : Key) :
    (t.temp node label).2.Labelled := by
  cases hl : t.issued.lookup (outputOf node label) with
  | some name => rw [temp_of_issued hl]; exact h
  | none =>
    rw [temp_of_new hl]
    intro e he text htext c hc
    rcases List.mem_append.mp he with he | he
    · exact h e he text htext c hc
    · rw [List.mem_singleton.mp he] at htext ⊢
      obtain rfl : label = .text text := Key.canonical_eq_text htext
      exact (Lua.fresh_base ..).subset (Lua.mem_hidden hc)

end SymbolTable

end CartGraph
