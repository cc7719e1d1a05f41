import CartGraph.Proofs.Lua.Names

/-! # Safe names

A safe name is one that the user may give to anything: it can be defined, and it can not be taken
for a hidden name. Sanitising gives safe names and leaves them as they are. -/
namespace CartGraph

namespace Text

theorem lowerAfter_eq_self {cs : List Char} (h : ∀ c ∈ cs, c.toNat < 128 ∧ c.toLower = c)
    (before : List Char) : lowerAfter before cs = cs := by
  induction cs generalizing before with
  | nil => rfl
  | cons c cs ih =>
    obtain ⟨⟨hascii, hlower⟩, hcs⟩ := List.forall_mem_cons.mp h
    rw [lowerAfter, if_neg (by omega), lowerChar, if_pos hascii, hlower, ih hcs]
    rfl

end Text

namespace Lua

/-- The names `[a-z_][a-z0-9_]*` with a letter or a digit that are neither reserved nor hidden. -/
structure IsSafe (name : String) : Prop where
  lower : ∀ c ∈ name.toList, isLowerNameChar c = true
  start : ∀ c ∈ name.toList.head?, c.isDigit = false
  lettered : ∃ c ∈ name.toList, isLowerAlnum c = true
  free : name ∉ reserved
  visible : ¬ hiddenStart.toList <+: name.toList

/-! ## Sanitised names are safe -/

theorem subset_guardDigit (cs : List Char) : cs ⊆ guardDigit cs := by
  unfold guardDigit
  split
  · exact fun c hc => .tail _ (.tail _ hc)
  · exact List.Subset.refl cs

theorem subset_guardReserved (cs : List Char) : cs ⊆ guardReserved cs := by
  unfold guardReserved
  split
  · exact List.subset_append_left ..
  · exact List.Subset.refl cs

theorem subset_guardHidden (cs : List Char) : cs ⊆ guardHidden cs := by
  unfold guardHidden
  split
  · exact List.subset_cons_self ..
  · exact List.Subset.refl cs

/-- No step drops a letter or a digit of the text. -/
theorem sanitize_lettered (raw : String) : ∃ c ∈ (sanitize raw).toList, isLowerAlnum c = true := by
  unfold sanitize
  dsimp only
  split
  · rename_i h
    obtain ⟨c, hc, hletter⟩ := List.any_eq_true.mp h
    have hmask : maskChar c = c := if_pos (by simp [isLowerNameChar, hletter])
    have hmem : c ∈ (folded raw).map maskChar := List.mem_map.mpr ⟨c, hc, hmask⟩
    refine ⟨c, ?_, hletter⟩
    rw [String.toList_ofList]
    exact subset_guardHidden _ (subset_guardReserved _ (subset_guardDigit _ hmem))
  · exact ⟨'v', by decide, by decide⟩

theorem sanitize_isSafe (raw : String) : IsSafe (sanitize raw) where
  lower := sanitize_lower raw
  start := sanitize_head raw
  lettered := sanitize_lettered raw
  free := sanitize_free raw
  visible := sanitize_visible raw

/-! ## Safe names stay as they are -/

theorem lowerNameChar_plain {c : Char} (h : isLowerNameChar c = true) :
    Text.isBlank c = false ∧ c.toNat < 128 ∧ c.toLower = c := by
  have hcode : c.toNat < 128 := by
    have hlower (hl : c.isLower = true) : c.toNat ≤ 122 := by
      simpa [UInt32.le_iff_toNat_le] using (Bool.and_eq_true_iff.mp hl).2
    have hdigit (hd : c.isDigit = true) : c.toNat ≤ 57 := by
      simpa [UInt32.le_iff_toNat_le] using (Bool.and_eq_true_iff.mp hd).2
    simp only [isLowerNameChar, isLowerAlnum, Bool.or_eq_true, beq_iff_eq] at h
    rcases h with (hl | hd) | rfl
    · exact Nat.lt_of_le_of_lt (hlower hl) (by decide)
    · exact Nat.lt_of_le_of_lt (hdigit hd) (by decide)
    · decide
  have hall : ∀ n < 128, isLowerNameChar (Char.ofNat n) = true →
      Text.isBlank (Char.ofNat n) = false ∧ (Char.ofNat n).toLower = Char.ofNat n := by decide
  have := hall c.toNat hcode
  rw [Char.ofNat_toNat] at this
  exact ⟨(this h).1, hcode, (this h).2⟩

theorem IsSafe.folded {name : String} (h : IsSafe name) : folded name = name.toList := by
  rw [Lua.folded, strip_eq_self fun c hc => (lowerNameChar_plain (h.lower c hc)).1, Text.lower,
    String.toList_ofList]
  exact Text.lowerAfter_eq_self (fun c hc => (lowerNameChar_plain (h.lower c hc)).2) []

theorem map_maskChar {cs : List Char} (h : ∀ c ∈ cs, isLowerNameChar c = true) :
    cs.map maskChar = cs :=
  (List.map_congr_left fun c hc => if_pos (h c hc)).trans (List.map_id' cs)

theorem IsSafe.sanitize {name : String} (h : IsSafe name) : sanitize name = name := by
  have hdigit : ¬ name.toList.head?.any Char.isDigit = true := fun hd => by
    obtain ⟨c, hc, hdigit⟩ := (Option.any_eq_true _ _).mp hd
    exact Bool.false_ne_true ((h.start c hc).symm.trans hdigit)
  have hreserved : ¬ reserved.contains (String.ofList name.toList) = true := by
    simpa using h.free
  have hhidden : ¬ hiddenStart.toList.isPrefixOf name.toList = true := fun hp =>
    h.visible (List.isPrefixOf_iff_prefix.mp hp)
  have hlettered : name.toList.any isLowerAlnum = true := List.any_eq_true.mpr h.lettered
  rw [Lua.sanitize, h.folded, if_pos hlettered, map_maskChar h.lower, guardDigit, if_neg hdigit,
    guardReserved, if_neg hreserved, guardHidden, if_neg hhidden, String.ofList_toList]

/-- Sanitising is a retraction onto the safe names: it gives safe names, giving them again changes
nothing, and exactly the safe names are left as they are. -/
theorem sanitize_retraction (raw : String) :
    IsSafe (sanitize raw) ∧ sanitize (sanitize raw) = sanitize raw ∧
      (sanitize raw = raw ↔ IsSafe raw) :=
  ⟨sanitize_isSafe raw, (sanitize_isSafe raw).sanitize,
    fun h => h ▸ sanitize_isSafe raw, IsSafe.sanitize⟩

end Lua

end CartGraph
