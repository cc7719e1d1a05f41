import CartGraph.Proofs.Emit.Mirror
import Mathlib.Tactic.Ring

/-! # Limits

The limits of the settings only ever refuse a program. Larger limits give the same text and the same
errors, except where a limit was passed. A limit is any number, so the comparison of numbers of
different types has to carry over: what passes the larger of two limits passes the smaller one
(`Key.less_int_of_atMost`). -/
namespace CartGraph

/-- Why a program was refused: a limit of the settings was passed. -/
def Error.TooComplex (e : Error) : Prop :=
  ∃ name limit node, e = .compile (.tooComplex name limit node)

namespace Key

structure AtMost (a b : Key) : Prop where
  isNumber : a.isNumber = true ∧ b.isNumber = true
  isNaN : a.isNaN = false ∧ b.isNaN = false
  less : b.less a = false

instance (a b : Key) : Decidable (a.AtMost b) :=
  decidable_of_iff ((a.isNumber = true ∧ b.isNumber = true) ∧
    (a.isNaN = false ∧ b.isNaN = false) ∧ b.less a = false)
    ⟨fun h => ⟨h.1, h.2.1, h.2.2⟩, fun h => ⟨h.isNumber, h.isNaN, h.less⟩⟩

theorem less_eq {a b : Key} (ha : a.isNaN = false) (hb : b.isNaN = false) :
    a.less b = if a.quotient.2 = 0 ∧ b.quotient.2 = 0 then decide (a.quotient.1 < b.quotient.1)
      else decide (a.quotient.1 * b.quotient.2 < b.quotient.1 * a.quotient.2) := by
  simp [less, ha, hb]

theorem less_int_iff {a : Key} (ha : a.isNaN = false) (n : Int) :
    a.less (.int n) = true ↔ a.quotient.1 < n * a.quotient.2 := by
  rw [less_eq ha rfl]
  simp [show (Key.int n).quotient = (n, 1) from rfl]

/-- An infinity has a sign. -/
theorem quotient_ne_zero {a : Key} (h : a.quotient.2 = 0) : a.quotient.1 ≠ 0 := by
  cases a with
  | float x =>
    change x.quotient.1 ≠ 0
    change x.quotient.2 = 0 at h
    unfold Binary64.quotient at h ⊢
    by_cases hx : x.isFinite = true
    · simp [hx, Binary64.ratio, Nat.shiftLeft_eq] at h
    · simp only [hx]
      split <;> simp
  | null | bool b | int n | text s => cases h

/-- What passes a number passes every number that is not larger. -/
theorem less_int_of_atMost {a b : Key} (h : a.AtMost b) {n : Int} (hb : b.less (.int n) = true) :
    a.less (.int n) = true := by
  obtain ⟨hnanA, hnanB⟩ := h.isNaN
  have hle := h.less
  have hsign := @quotient_ne_zero a
  rw [less_eq hnanB hnanA] at hle
  rw [less_int_iff hnanB] at hb
  rw [less_int_iff hnanA]
  generalize a.quotient.1 = p at *
  generalize a.quotient.2 = q at *
  generalize b.quotient.1 = r at *
  generalize b.quotient.2 = s at *
  rcases Nat.eq_zero_or_pos s with rfl | hs
  · -- the larger one is the infinity below all numbers, so the smaller one is the same
    rcases Nat.eq_zero_or_pos q with rfl | hq
    · simp at hle hb ⊢
      omega
    · have hr : r * q < 0 := Int.mul_neg_of_neg_of_pos (by simpa using hb) (by omega)
      rw [if_neg (by omega)] at hle
      simp at hle
      omega
  · have hs' : (0 : Int) < s := by omega
    rw [if_neg (by omega), decide_eq_false_iff_not, not_lt] at hle
    rcases Nat.eq_zero_or_pos q with rfl | hq
    · have hp : p ≠ 0 := hsign rfl
      have hnot : ¬ 0 < p := fun hp => by
        have := Int.mul_pos hp hs'
        simp at hle
        omega
      simp
      omega
    · have hrq : r * q < n * s * q := Int.mul_lt_mul_of_pos_right hb (by omega)
      have hps : p * s < n * q * s := by
        calc p * s ≤ r * q := hle
          _ < n * s * q := hrq
          _ = n * q * s := by ring
      exact Int.lt_of_mul_lt_mul_right hps hs'.le

end Key

/-- A limit is at least as large as another: it is the same, or both are numbers in this order. -/
def Settings.Allows (limit larger : Value) : Prop :=
  larger = limit ∨ ∃ a b, Key.ofValue? limit = some a ∧ Key.ofValue? larger = some b ∧ a.AtMost b

namespace Settings

/-- What does not pass a limit does not pass a larger one. -/
theorem Allows.passes {limit larger : Value} (h : Allows limit larger) {name : String} {count : Int}
    (hl : passes name limit count = .ok false) : passes name larger count = .ok false := by
  rcases h with rfl | ⟨a, b, ha, hb, hab⟩
  · exact hl
  · unfold Settings.passes at hl ⊢
    rw [ha] at hl
    rw [hb]
    simp only [hab.isNumber.1, hab.isNumber.2, if_true, Except.ok.injEq] at hl ⊢
    rw [← Bool.not_eq_true] at hl ⊢
    exact fun hpass => hl (Key.less_int_of_atMost hab hpass)

theorem Allows.checkLimit {limit larger : Value} (h : Allows limit larger) {name : String}
    {count : Int} {node : Key}
    (hl : ∀ e, Compilation.checkLimit name limit count node = .error e → ¬ e.TooComplex) :
    Compilation.checkLimit name larger count node =
      Compilation.checkLimit name limit count node := by
  unfold Compilation.checkLimit at hl ⊢
  cases hp : Settings.passes name limit count with
  | ok b =>
    rw [hp] at hl
    cases b with
    | true => exact absurd ⟨name, limit, node, rfl⟩ (hl _ rfl)
    | false =>
      rw [h.passes hp]
      rfl
  | error e =>
    rcases h with rfl | ⟨a, b, ha, _, hab⟩
    · rw [hp]
    · unfold Settings.passes at hp
      rw [ha] at hp
      simp [hab.isNumber.1] at hp

end Settings

end CartGraph
