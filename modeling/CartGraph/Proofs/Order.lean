import CartGraph.Order
import Mathlib.Data.List.Sort
import Mathlib.Data.Prod.Lex
import Mathlib.Data.String.Basic

/-! # Sorting

Sorting gives the same elements in the order of their keys, and elements of equal keys stay in the
order that they came in. Texts are compared as usual, and so are pairs. -/
namespace CartGraph.Order

theorem insertBy_perm (le : α → α → Bool) (x : α) (l : List α) :
    (insertBy le x l).Perm (x :: l) := by
  induction l with
  | nil => exact .refl _
  | cons y rest ih =>
    unfold insertBy
    split
    · exact .refl _
    · exact (ih.cons y).trans (.swap x y rest)

/-- Sorting loses nothing and adds nothing. -/
theorem sortBy_perm (le : α → α → Bool) (l : List α) : (sortBy le l).Perm l := by
  induction l with
  | nil => exact .refl _
  | cons x rest ih => exact (insertBy_perm le x _).trans (ih.cons x)

section

variable {le : α → α → Bool} [LinearOrder κ] {key : α → κ} {l l' : List α}

theorem insertBy_stable {S : α → α → Prop} {x : α} (hle : ∀ y ∈ l, le x y = true ↔ key x ≤ key y)
    (hx : ∀ y ∈ l, S x y) (h : l.Pairwise fun a b => key a < key b ∨ key a = key b ∧ S a b) :
    (insertBy le x l).Pairwise fun a b => key a < key b ∨ key a = key b ∧ S a b := by
  induction l with
  | nil => exact List.pairwise_singleton ..
  | cons y rest ih =>
    obtain ⟨hy, hrest⟩ := List.pairwise_cons.mp h
    obtain ⟨hxy, hle⟩ := List.forall_mem_cons.mp hle
    unfold insertBy
    split
    · rename_i hbefore
      have hmin : ∀ b ∈ y :: rest, key x ≤ key b := by
        intro b hb
        rcases List.mem_cons.mp hb with rfl | hb
        · exact hxy.mp hbefore
        · exact (hxy.mp hbefore).trans ((hy b hb).elim le_of_lt fun h => h.1.le)
      refine List.pairwise_cons.mpr ⟨fun b hb => ?_, h⟩
      exact (hmin b hb).lt_or_eq.imp_right fun heq => ⟨heq, hx b hb⟩
    · rename_i hafter
      refine List.pairwise_cons.mpr ⟨fun b hb => ?_, ih hle (List.forall_mem_cons.mp hx).2 hrest⟩
      rcases List.mem_cons.mp ((insertBy_perm le x rest).mem_iff.mp hb) with rfl | hb
      · exact .inl (lt_of_not_ge fun hge => hafter (hxy.mpr hge))
      · exact hy b hb

/-- Sorting goes by the key, and among equal keys it keeps the order that there was. -/
theorem sortBy_stable {S : α → α → Prop} (hle : ∀ x ∈ l, ∀ y ∈ l, le x y = true ↔ key x ≤ key y)
    (h : l.Pairwise S) :
    (sortBy le l).Pairwise fun a b => key a < key b ∨ key a = key b ∧ S a b := by
  induction l with
  | nil => exact .nil
  | cons x rest ih =>
    obtain ⟨hx, hrest⟩ := List.pairwise_cons.mp h
    have hmem {y : α} (hy : y ∈ sortBy le rest) : y ∈ rest := (sortBy_perm le rest).mem_iff.mp hy
    refine insertBy_stable (fun y hy => hle x (.head _) y (.tail _ (hmem hy)))
      (fun y hy => hx y (hmem hy)) (ih (fun a ha b hb => ?_) hrest)
    exact hle a (.tail _ ha) b (.tail _ hb)

theorem sortBy_pairwise (hle : ∀ x ∈ l, ∀ y ∈ l, le x y = true ↔ key x ≤ key y) :
    (sortBy le l).Pairwise fun a b => key a ≤ key b :=
  (sortBy_stable hle (List.pairwise_of_forall (R := fun _ _ => True) fun _ _ => trivial)).imp
    fun h => h.elim le_of_lt fun h => h.1.le

section

variable {le' : β → β → Bool} {f : α → β}

theorem insertBy_map {x : α} (h : ∀ y ∈ l, le' (f x) (f y) = le x y) :
    insertBy le' (f x) (l.map f) = (insertBy le x l).map f := by
  induction l with
  | nil => rfl
  | cons y rest ih =>
    obtain ⟨hy, hrest⟩ := List.forall_mem_cons.mp h
    rw [List.map_cons, insertBy, insertBy, hy, ih hrest]
    split <;> rfl

/-- What compares alike is sorted alike. -/
theorem sortBy_map (h : ∀ x ∈ l, ∀ y ∈ l, le' (f x) (f y) = le x y) :
    sortBy le' (l.map f) = (sortBy le l).map f := by
  induction l with
  | nil => rfl
  | cons x rest ih =>
    rw [List.map_cons, sortBy, sortBy, ih fun a ha b hb => h a (.tail _ ha) b (.tail _ hb)]
    refine insertBy_map fun y hy => h x (.head _) y (.tail _ ?_)
    exact (sortBy_perm le rest).mem_iff.mp hy

end

/-- What has no ties is sorted in one way. -/
theorem sortBy_eq_of_perm (key : α → κ)
    (hle : ∀ x ∈ l, ∀ y ∈ l, le x y = true ↔ key x ≤ key y)
    (hkey : ∀ x ∈ l, ∀ y ∈ l, key x = key y → x = y) (h : l.Perm l') :
    sortBy le l' = sortBy le l := by
  have hmem {x : α} (hx : x ∈ sortBy le l) : x ∈ l := (sortBy_perm le l).mem_iff.mp hx
  have hmem' {x : α} (hx : x ∈ sortBy le l') : x ∈ l :=
    h.mem_iff.mpr ((sortBy_perm le l').mem_iff.mp hx)
  have hsorted := sortBy_pairwise hle
  have hsorted' : (sortBy le l').Pairwise fun a b => key a ≤ key b :=
    sortBy_pairwise fun x hx y hy => hle x (h.mem_iff.mpr hx) y (h.mem_iff.mpr hy)
  refine List.Perm.eq_of_pairwise (fun a b ha hb hab hba => ?_) hsorted' hsorted
    (((sortBy_perm le l').trans h.symm).trans (sortBy_perm le l).symm)
  exact hkey a (hmem' ha) b (hmem hb) (le_antisymm hab hba)

end

theorem textLE_iff {a b : String} : textLE a b = true ↔ a ≤ b := by
  have hlex : (b.toList.lex a.toList fun c d => decide (c.toNat < d.toNat)) = true ↔
      b.toList < a.toList := by
    rw [List.lex_eq_true_iff_lex]
    simp only [decide_eq_true_eq]
    exact Iff.rfl
  rw [String.le_iff_toList_le, textLE, Bool.not_eq_true_eq_eq_false, ← Bool.not_eq_true, hlex,
    not_lt]

theorem lexLE_iff [LinearOrder α] [LinearOrder β] {leFirst : α → α → Bool} {leSecond : β → β → Bool}
    {a b : α × β} (hfirst : leFirst a.1 b.1 = true ↔ a.1 ≤ b.1)
    (hsecond : leSecond a.2 b.2 = true ↔ a.2 ≤ b.2) :
    lexLE leFirst leSecond a b = true ↔ toLex a ≤ toLex b := by
  rw [Prod.Lex.le_iff, lexLE]
  split
  · rename_i h
    simp [hsecond, h]
  · rename_i h
    simp [hfirst, h, lt_iff_le_and_ne]

end CartGraph.Order
