import CartGraph.Proofs.Catalogue.Distance
import CartGraph.Proofs.Order
import Mathlib.Algebra.Order.Field.Rat
import Mathlib.Data.List.Nodup
import Mathlib.Data.List.TakeWhile
import Mathlib.Order.Bounds.Basic
import Mathlib.Order.WithBot
import Mathlib.Tactic.NormNum
import Mathlib.Tactic.Positivity
import Mathlib.Tactic.Ring

/-! # Palette search

The score of a definition is the least weighted distance among its fields that are not blank. A
search answers the definitions that have a finite score, by score and title, and among equals in the
order of the catalogue (`Answers`). Nothing else answers it (`Answers.eq`). -/
namespace CartGraph

namespace Text

end Text

namespace Catalogue

/-! ## Fields -/

/-- The texts of a definition that a search may look at. -/
inductive Shows (d : Definition) : String → FieldKind → Prop
  | title : Shows d d.title .title
  | category : Shows d d.category .other
  | description : Shows d d.description .other
  | tag {text : String} (h : text ∈ d.tags) : Shows d text .other

/-- The texts of a definition that are not blank, in lower case. -/
def Searched (d : Definition) (text : String) (kind : FieldKind) : Prop :=
  ∃ raw, Shows d raw kind ∧ (∃ c ∈ raw.toList, Text.isBlank c = false) ∧ text = Text.lower raw

def FieldKind.weight : FieldKind → ℚ
  | .title => 4 / 5
  | .other => 1

/-- A distance times the weight of the field, infinite if there is none. -/
def weighted (kind : FieldKind) : Option Nat → WithTop ℚ
  | none => ⊤
  | some n => (kind.weight * n : ℚ)

def cost : Option Score → WithTop ℚ
  | none => ⊤
  | some s => weighted s.field (some s.distance)

variable {c : Catalogue} {wanted query : String} {d : Definition} {found found' : List Definition}

/-- A definition matches if what is wanted is a subsequence of one of its fields. Everything matches
if nothing is wanted. -/
def Matches (wanted : String) (d : Definition) : Prop :=
  wanted = "" ∨ ∃ text kind, Searched d text kind ∧ wanted.toList.Sublist text.toList

def rank (wanted : String) (d : Definition) : WithTop ℚ ×ₗ String :=
  toLex (cost (score wanted d), titleKey d)

def place (c : Catalogue) (d : Definition) : Nat := (c.definitions.map Definition.id).idxOf d.id

/-- Definitions in the order of a key, and among equal keys in that of the catalogue. -/
def InOrder [LT κ] (c : Catalogue) (key : Definition → κ) (found : List Definition) : Prop :=
  found.Pairwise fun a b => key a < key b ∨ key a = key b ∧ c.place a < c.place b

structure Answers (c : Catalogue) (wanted : String) (found : List Definition) : Prop where
  nodup : (found.map Definition.id).Nodup
  mem_iff (d : Definition) : d ∈ found ↔ d ∈ c.definitions ∧ Matches wanted d
  byTitle : wanted = "" → c.InOrder titleKey found
  byScore : wanted ≠ "" → c.InOrder (rank wanted) found

theorem InOrder.eq_of_perm [LinearOrder κ] {key : Definition → κ} (h : c.InOrder key found)
    (h' : c.InOrder key found') (hperm : found.Perm found') : found = found' := by
  refine List.Perm.eq_of_pairwise (fun a b _ _ hab hba => ?_) h h' hperm
  rcases hab with hab | ⟨hab, hplace⟩ <;> rcases hba with hba | ⟨hba, hplace'⟩
  · exact absurd hab hba.asymm
  · exact absurd hab hba.not_gt
  · exact absurd hba hab.not_gt
  · exact absurd hplace hplace'.asymm

/-- There is one answer at most. -/
theorem Answers.eq (h : Answers c wanted found) (h' : Answers c wanted found') :
    found = found' := by
  have hperm : found.Perm found' :=
    (List.perm_ext_iff_of_nodup h.nodup.of_map h'.nodup.of_map).mpr fun d =>
      (h.mem_iff d).trans (h'.mem_iff d).symm
  by_cases hwanted : wanted = ""
  · exact (h.byTitle hwanted).eq_of_perm (h'.byTitle hwanted) hperm
  · exact (h.byScore hwanted).eq_of_perm (h'.byScore hwanted) hperm

/-! ## What is found -/

end Catalogue

end CartGraph
