import CartGraph.Proofs.Number.Rounding
import Mathlib.Algebra.Order.Floor.Semifield
import Mathlib.Data.Nat.Cast.Order.Field
import Mathlib.Data.Rat.Floor

/-! # The shortest text of a double

Seventeen digits always read back, so the search for the shortest decimal finds one. Its digits are
those of the double up to one unit of the last. Hence the text has an exponent only if the double is
below `0.0001` or at least `10 ^ 16`, and a double with a fraction is never so large. -/
namespace CartGraph.Binary64

/-! ## Digits -/

theorem lt_digitCount_iff {n k : ℕ} (hk : 0 < k) : k < digitCount n ↔ 10 ^ k ≤ n := by
  rw [← not_iff_not, not_lt, not_le]
  exact Nat.length_toDigits_le_iff (by decide) hk

theorem digitCount_pos (n : ℕ) : 0 < digitCount n := Nat.length_toDigits_pos

theorem digitCount_bounds {n : ℕ} (hn : 0 < n) :
    10 ^ (digitCount n - 1) ≤ n ∧ n < 10 ^ digitCount n := by
  constructor
  · rcases Nat.eq_zero_or_pos (digitCount n - 1) with h | h
    · rw [h]
      exact hn
    · exact (lt_digitCount_iff h).mp (by omega)
  · exact not_le.mp fun h => lt_irrefl _ ((lt_digitCount_iff (digitCount_pos n)).mpr h)

theorem quotient_bounds {num den : ℕ} (hden : 0 < den) (hle : den ≤ num) :
    (10 : ℚ) ^ ((digitCount (num / den) : ℤ) - 1) ≤ (num : ℚ) / den ∧
      (num : ℚ) / den < 10 ^ (digitCount (num / den) : ℤ) := by
  obtain ⟨hlower, hupper⟩ := digitCount_bounds (Nat.div_pos hle hden)
  have hpos := digitCount_pos (num / den)
  constructor
  · rw [show (digitCount (num / den) : ℤ) - 1 = (digitCount (num / den) - 1 : ℕ) by omega,
      zpow_natCast]
    exact le_trans (by exact_mod_cast hlower) Nat.cast_div_le
  · rw [zpow_natCast]
    have hfloor := Nat.lt_floor_add_one ((num : ℚ) / den)
    rw [Nat.floor_div_eq_div] at hfloor
    exact hfloor.trans_le (by exact_mod_cast hupper)

/-- The upper bound is met by the powers of ten below one. -/
theorem pointOf_bounds {num den : ℕ} (hnum : 0 < num) (hden : 0 < den) :
    (10 : ℚ) ^ (pointOf num den - 1) ≤ (num : ℚ) / den ∧
      (num : ℚ) / den ≤ 10 ^ pointOf num den := by
  unfold pointOf
  split_ifs with h
  · obtain ⟨hlower, hupper⟩ := quotient_bounds hden h
    exact ⟨hlower, hupper.le⟩
  · obtain ⟨hlower, hupper⟩ := quotient_bounds hnum (le_of_not_ge h)
    have hinv : (num : ℚ) / den = ((den : ℚ) / num)⁻¹ := (inv_div _ _).symm
    have hpos : (0 : ℚ) < (den : ℚ) / num := by positivity
    rw [hinv]
    constructor
    · rw [show 1 - (digitCount (den / num) : ℤ) - 1 = -(digitCount (den / num) : ℤ) by omega,
        zpow_neg]
      exact inv_anti₀ hpos hupper.le
    · rw [show 1 - (digitCount (den / num) : ℤ) = -((digitCount (den / num) : ℤ) - 1) by omega,
        zpow_neg]
      exact inv_anti₀ (by positivity) hlower

/-! ## Candidates -/

variable {x : Binary64} {unit : ℤ} {digits : ℕ}

/-- The place of the point after the digits of the double itself. -/
def point (x : Binary64) : ℤ := pointOf x.ratio.1 x.ratio.2

theorem ratio_num_pos (hzero : x.isZero = false) : 0 < x.ratio.1 := by
  have := significand_pos hzero
  rw [ratio, Nat.shiftLeft_eq]
  positivity

theorem point_bounds (hzero : x.isZero = false) :
    (10 : ℚ) ^ (x.point - 1) ≤ x.value ∧ x.value ≤ 10 ^ x.point := by
  rw [← ratio_value]
  exact pointOf_bounds (ratio_num_pos hzero) (ratio_den_pos x)

theorem value_lt_of_finite (hfinite : x.isFinite = true) : x.value < 2 ^ (1024 : ℤ) := by
  have hmagnitude := x.magnitude_eq ▸ magnitude_lt_of_finite hfinite
  have hexponent : x.exponent ≤ 971 := by
    have := x.exponent_eq_or_significand_ge
    simp only [topField, fractionSize] at hmagnitude
    omega
  have hsignificand : (x.significand : ℚ) < 2 ^ (53 : ℤ) := by exact_mod_cast x.significand_lt
  calc x.value = x.significand * 2 ^ x.exponent := rfl
    _ < 2 ^ (53 : ℤ) * 2 ^ x.exponent := by gcongr
    _ = 2 ^ (53 + x.exponent) := (zpow_add₀ two_ne_zero ..).symm
    _ ≤ 2 ^ (1024 : ℤ) := zpow_le_zpow_right₀ one_le_two (by omega)

theorem value_ge (hzero : x.isZero = false) : (2 : ℚ) ^ (-1074 : ℤ) ≤ x.value := by
  have hsignificand : (1 : ℚ) ≤ x.significand := by exact_mod_cast significand_pos hzero
  calc (2 : ℚ) ^ (-1074 : ℤ) ≤ 2 ^ x.exponent := zpow_le_zpow_right₀ one_le_two x.exponent_ge
    _ ≤ x.significand * 2 ^ x.exponent := le_mul_of_one_le_left (by positivity) hsignificand

theorem point_range (hfinite : x.isFinite = true) (hzero : x.isZero = false) :
    -324 < x.point ∧ x.point ≤ 309 := by
  obtain ⟨hlower, hupper⟩ := point_bounds hzero
  constructor
  · have hpower : 2 ^ 1074 < 10 ^ 324 := by decide +kernel
    have hsmall : (10 : ℚ) ^ (-324 : ℤ) < 2 ^ (-1074 : ℤ) := by
      rw [zpow_neg, zpow_neg]
      exact inv_strictAnti₀ (by positivity) (by exact_mod_cast hpower)
    exact (zpow_lt_zpow_iff_right₀ (by norm_num)).mp
      ((hsmall.trans_le (value_ge hzero)).trans_le hupper)
  · have hpower : 2 ^ 1024 < 10 ^ 309 := by decide +kernel
    have hlarge : (2 : ℚ) ^ (1024 : ℤ) < 10 ^ (309 : ℤ) := by exact_mod_cast hpower
    have := (zpow_lt_zpow_iff_right₀ (by norm_num)).mp
      (hlower.trans_lt ((value_lt_of_finite hfinite).trans hlarge))
    omega

theorem value_quotient (x : Binary64) (unit : ℤ) :
    ((x.ratio.1 * Nat.pow 10 (-unit).toNat : ℕ) : ℚ) / (x.ratio.2 * Nat.pow 10 unit.toNat : ℕ) =
      x.value / 10 ^ unit := by
  have h := scaled_quotient 10 x.ratio.1 x.ratio.2 unit
  rw [ratio_value, Nat.cast_ofNat] at h
  exact h

theorem floor_value (x : Binary64) (unit : ℤ) :
    x.ratio.1 * Nat.pow 10 (-unit).toNat / (x.ratio.2 * Nat.pow 10 unit.toNat) =
      ⌊x.value / 10 ^ unit⌋₊ := by
  rw [← value_quotient, Nat.floor_div_eq_div]

/-- The digits of the double down to a unit, the last of them perhaps one too large. -/
def DigitsAt (x : Binary64) (unit : ℤ) (digits : ℕ) : Prop :=
  digits = ⌊x.value / 10 ^ unit⌋₊ ∨ digits = ⌊x.value / 10 ^ unit⌋₊ + 1

def nearestDigits (x : Binary64) (unit : ℤ) : ℕ :=
  roundHalfEven (x.ratio.1 * Nat.pow 10 (-unit).toNat) (x.ratio.2 * Nat.pow 10 unit.toNat)

theorem digitsAt_nearest (x : Binary64) (unit : ℤ) : x.DigitsAt unit (x.nearestDigits unit) := by
  have h := roundHalfEven_cases (x.ratio.1 * Nat.pow 10 (-unit).toNat)
    (x.ratio.2 * Nat.pow 10 unit.toNat)
  rwa [floor_value] at h

/-- Only such digits are tried. -/
theorem readBackNear?_some (h : readBackNear? x unit = some digits) :
    x.DigitsAt unit digits ∧ ofDecimal x.isNegative digits unit = x := by
  unfold readBackNear? at h
  dsimp only at h
  rw [floor_value] at h
  split_ifs at h with hreads hreads hreads <;> cases h
  · exact ⟨digitsAt_nearest x unit, eq_of_beq hreads⟩
  · exact ⟨.inl rfl, eq_of_beq hreads⟩
  · exact ⟨.inr rfl, eq_of_beq hreads⟩

theorem ten_zpow_add (unit : ℤ) (k : ℕ) : (10 : ℚ) ^ (unit + k) = (10 ^ k : ℕ) * 10 ^ unit := by
  rw [zpow_add₀ (by norm_num), zpow_natCast, mul_comm]
  norm_cast

namespace DigitsAt

variable {n : ℕ}

theorem ge (h : x.DigitsAt unit digits) (hn : n * (10 : ℚ) ^ unit ≤ x.value) : n ≤ digits := by
  have hfloor : n ≤ ⌊x.value / 10 ^ unit⌋₊ :=
    Nat.le_floor ((le_div_iff₀ (by positivity)).mpr hn)
  rcases h with h | h <;> omega

theorem le (h : x.DigitsAt unit digits) (hn : x.value ≤ n * (10 : ℚ) ^ unit) : digits ≤ n + 1 := by
  have hfloor : ⌊x.value / 10 ^ unit⌋₊ ≤ n :=
    Nat.floor_le_of_le ((div_le_iff₀ (by positivity)).mpr hn)
  rcases h with h | h <;> omega

theorem le_of_lt (h : x.DigitsAt unit digits) (hpos : 0 < n) (hn : x.value < n * (10 : ℚ) ^ unit) :
    digits ≤ n := by
  have hfloor : ⌊x.value / 10 ^ unit⌋₊ < n :=
    (Nat.floor_lt' hpos.ne').mpr ((div_lt_iff₀ (by positivity)).mpr hn)
  rcases h with h | h <;> omega

/-- The point after `i + 1` digits of the double stands where that of the double does, or one place
further. -/
theorem digitCount_range {i : ℕ} (h : x.DigitsAt (x.point - (i + 1 : ℕ)) digits)
    (hzero : x.isZero = false) : i < digitCount digits ∧ digitCount digits ≤ i + 2 := by
  obtain ⟨hlower, hupper⟩ := point_bounds hzero
  have hge : 10 ^ i ≤ digits := h.ge (by
    rwa [← ten_zpow_add, show x.point - (i + 1 : ℕ) + (i : ℤ) = x.point - 1 by omega])
  have hle : digits ≤ 10 ^ (i + 1) + 1 := h.le (by rwa [← ten_zpow_add, sub_add_cancel])
  constructor
  · rcases Nat.eq_zero_or_pos i with rfl | hi
    · exact digitCount_pos digits
    · exact (lt_digitCount_iff hi).mpr hge
  · refine not_lt.mp fun hlt => ?_
    have hlong := (lt_digitCount_iff (by omega)).mp hlt
    have hpos : 0 < 10 ^ i := by positivity
    rw [pow_succ] at hle
    rw [pow_succ, pow_succ] at hlong
    omega

end DigitsAt

/-! ## Seventeen digits -/

theorem ofDecimal_eq {negative : Bool} (hdigits : 0 < digits)
    (hlow : -330 ≤ unit + digitCount digits)
    (hhigh : unit + digitCount digits ≤ 320) : ofDecimal negative digits unit =
      ofRatio negative (digits * Nat.pow 10 unit.toNat) (Nat.pow 10 (-unit).toNat) := by
  have hsmall : ¬ (digits = 0 || decide (unit + digitCount digits < -330)) = true := by
    simp only [Bool.or_eq_true, decide_eq_true_eq]
    omega
  unfold ofDecimal
  dsimp only
  rw [if_neg hsmall, if_neg (by omega)]

theorem decimal_quotient (digits : ℕ) (unit : ℤ) :
    ((digits * Nat.pow 10 unit.toNat : ℕ) : ℚ) / (Nat.pow 10 (-unit).toNat : ℕ) =
      digits * 10 ^ unit := by
  have h := scaled_quotient 10 digits 1 (-unit)
  rw [neg_neg, one_mul, zpow_neg, Nat.cast_one, div_one, div_inv_eq_mul, Nat.cast_ofNat] at h
  exact h

theorem nearestDigits_near (x : Binary64) (unit : ℤ) :
    |x.nearestDigits unit * 10 ^ unit - x.value| ≤ 10 ^ unit / 2 := by
  have hpos : (0 : ℚ) < 10 ^ unit := by positivity
  have hden : 0 < x.ratio.2 * Nat.pow 10 unit.toNat :=
    Nat.mul_pos x.ratio_den_pos (Nat.pow_pos (by decide))
  have hround := roundHalfEven_near (x.ratio.1 * Nat.pow 10 (-unit).toNat) hden
  rw [value_quotient, ← nearestDigits] at hround
  calc |x.nearestDigits unit * 10 ^ unit - x.value|
      = |x.value / 10 ^ unit - x.nearestDigits unit| * 10 ^ unit := by
        rw [← abs_of_pos hpos, ← abs_mul, abs_of_pos hpos, sub_mul, div_mul_cancel₀ _ hpos.ne',
          abs_sub_comm]
    _ ≤ 1 / 2 * 10 ^ unit := by gcongr
    _ = 10 ^ unit / 2 := by ring

/-- Seventeen digits read back. -/
theorem readBackNear?_seventeen (hfinite : x.isFinite = true) (hzero : x.isZero = false) :
    ∃ digits, readBackNear? x (x.point - (16 + 1 : ℕ)) = some digits := by
  set unit : ℤ := x.point - (16 + 1 : ℕ) with hunit
  have hdigits := x.digitsAt_nearest unit
  have hlower : (10 ^ 16 : ℕ) * (10 : ℚ) ^ unit ≤ x.value := by
    rw [← ten_zpow_add, show unit + (16 : ℕ) = x.point - 1 by omega]
    exact (point_bounds hzero).1
  have hnear :
      x.Near (x.nearestDigits unit * Nat.pow 10 unit.toNat) (Nat.pow 10 (-unit).toNat) := by
    have := x.nearestDigits_near unit
    push_cast at hlower
    rw [Near, decimal_quotient]
    linarith
  have hcount := hdigits.digitCount_range hzero
  have hrange := point_range hfinite hzero
  have hpos : 0 < x.nearestDigits unit := Nat.lt_of_lt_of_le (by decide) (hdigits.ge hlower)
  have hreads : ofDecimal x.isNegative (x.nearestDigits unit) unit = x := by
    rw [ofDecimal_eq hpos (by omega) (by omega)]
    exact ofRatio_of_near hfinite hzero (Nat.pow_pos (by decide)) hnear
  refine ⟨x.nearestDigits unit, if_pos ?_⟩
  exact beq_iff_eq.mpr hreads

theorem shortest_spec (hfinite : x.isFinite = true) (hzero : x.isZero = false) :
    ∃ i < 17, x.shortest.2 = x.point - (i + 1 : ℕ) ∧ x.DigitsAt x.shortest.2 x.shortest.1 ∧
      ofDecimal x.isNegative x.shortest.1 x.shortest.2 = x := by
  obtain ⟨last, hlast⟩ := readBackNear?_seventeen hfinite hzero
  unfold shortest
  dsimp only
  cases hfound : (List.range 17).findSome? _ with
  | none =>
    have := List.findSome?_eq_none_iff.mp hfound 16 (by decide)
    rw [← point, hlast] at this
    cases this
  | some found =>
    obtain ⟨i, hi, hfound⟩ := List.exists_of_findSome?_eq_some hfound
    obtain ⟨digits, hdigits, rfl⟩ := Option.map_eq_some_iff.mp hfound
    exact ⟨i, List.mem_range.mp hi, rfl, readBackNear?_some hdigits⟩

/-! ## The place of the point -/

/-- The place of the point after the digits of the text. -/
def textPoint (x : Binary64) : ℤ := x.shortest.2 + digitCount x.shortest.1

theorem exponent_neg (hfinite : x.isFinite = true) (hinteger : x.isInteger = false) :
    x.exponent < 0 := by
  refine not_le.mp fun h => ?_
  have hden : x.ratio.2 = 1 := by simp [ratio, Int.toNat_of_nonpos (neg_nonpos.mpr h)]
  simp [isInteger, hfinite, hden, Nat.mod_one] at hinteger

theorem not_isZero (hfinite : x.isFinite = true) (hinteger : x.isInteger = false) :
    x.isZero = false := by
  refine Bool.eq_false_iff.mpr fun hzero => ?_
  have hmagnitude : x.magnitude = 0 := by simpa [isZero] using hzero
  have hsignificand : x.significand = 0 := by
    have := x.magnitude_eq
    omega
  simp [isInteger, hfinite, ratio, hsignificand] at hinteger

theorem value_lt (hfinite : x.isFinite = true) (hinteger : x.isInteger = false) :
    x.value < 2 ^ 52 := by
  have hexponent := exponent_neg hfinite hinteger
  have hsignificand : (x.significand : ℚ) < 2 ^ 53 := by exact_mod_cast x.significand_lt
  calc x.value = x.significand * 2 ^ x.exponent := rfl
    _ ≤ x.significand * 2 ^ (-1 : ℤ) := by
        gcongr
        · norm_num
        · omega
    _ < 2 ^ 52 := by
        norm_num
        linarith

/-- A double with a fraction is not so large that its text has an exponent. -/
theorem textPoint_le (hfinite : x.isFinite = true) (hinteger : x.isInteger = false) :
    x.textPoint ≤ 16 := by
  have hzero := not_isZero hfinite hinteger
  have hvalue := value_lt hfinite hinteger
  obtain ⟨i, hi, hunit, hdigits, _⟩ := shortest_spec hfinite hzero
  have hcount := (hunit ▸ hdigits).digitCount_range hzero
  have hpoint : x.point ≤ 16 := by
    have hlarge : (2 : ℚ) ^ 52 < 10 ^ (16 : ℤ) := by norm_num
    have := (zpow_lt_zpow_iff_right₀ (by norm_num)).mp
      ((point_bounds hzero).1.trans_lt (hvalue.trans hlarge))
    omega
  have hshort : x.point = 16 → digitCount x.shortest.1 ≤ i + 1 := fun hpoint => by
    -- The first digit is at most four, so that one unit more does not carry.
    have hle : x.shortest.1 ≤ 5 * 10 ^ i := hdigits.le_of_lt (by positivity) (by
      have hpower := ten_zpow_add x.shortest.2 i
      rw [show x.shortest.2 + (i : ℤ) = 15 by omega] at hpower
      push_cast at hpower ⊢
      rw [mul_assoc, ← hpower]
      linarith)
    refine not_lt.mp fun hlong => ?_
    have := (lt_digitCount_iff (by omega)).mp hlong
    have hpos : 0 < 10 ^ i := by positivity
    rw [pow_succ] at this
    omega
  unfold textPoint
  omega

/-- The decimal `0.0001` does not read back as a double below it, with however many zeros. -/
theorem ofDecimal_power : ∀ i < 17, ∀ negative : Bool,
    (ofDecimal negative (10 ^ (i + 1)) (-4 - (i + 1 : ℕ))).ratio.2 ≤
      10 ^ 4 * (ofDecimal negative (10 ^ (i + 1)) (-4 - (i + 1 : ℕ))).ratio.1 := by
  decide +kernel

/-- Below `0.0001` and not zero. -/
def isTiny (x : Binary64) : Bool :=
  x.isFinite && !x.isZero && 10 ^ 4 * x.ratio.1 < x.ratio.2

theorem lt_ratio_iff (x : Binary64) :
    10 ^ 4 * x.ratio.1 < x.ratio.2 ↔ x.value < 10 ^ (-4 : ℤ) := by
  have hden : (0 : ℚ) < x.ratio.2 := by exact_mod_cast x.ratio_den_pos
  rw [← ratio_value, div_lt_iff₀ hden, zpow_neg, ← Nat.cast_lt (α := ℚ)]
  push_cast
  constructor <;> intro h <;> norm_num at h ⊢ <;> linarith

theorem textPoint_le_iff (hfinite : x.isFinite = true) (hzero : x.isZero = false) :
    x.textPoint ≤ -4 ↔ x.isTiny = true := by
  obtain ⟨i, hi, hunit, hdigits, hreads⟩ := shortest_spec hfinite hzero
  have hcount := (hunit ▸ hdigits).digitCount_range hzero
  have htiny : x.isTiny = true ↔ x.value < 10 ^ (-4 : ℤ) := by
    rw [← lt_ratio_iff]
    simp [isTiny, hfinite, hzero]
  have hpower : x.point = -4 → (10 : ℚ) ^ (-4 : ℤ) = (10 ^ (i + 1) : ℕ) * 10 ^ x.shortest.2 := by
    intro hpoint
    rw [← ten_zpow_add, hunit, sub_add_cancel, hpoint]
  have hlong := @lt_digitCount_iff x.shortest.1 (i + 1) (by omega)
  rw [htiny]
  unfold textPoint
  constructor
  · intro hle
    by_contra hvalue
    have hpoint : -4 ≤ x.point :=
      (zpow_le_zpow_iff_right₀ (by norm_num)).mp ((not_lt.mp hvalue).trans (point_bounds hzero).2)
    have := hlong.mpr (hdigits.ge (hpower (by omega) ▸ not_lt.mp hvalue))
    omega
  · intro hvalue
    have hpoint : x.point - 1 < -4 :=
      (zpow_lt_zpow_iff_right₀ (by norm_num)).mp ((point_bounds hzero).1.trans_lt hvalue)
    by_contra hgt
    have hpoint : x.point = -4 := by omega
    have hle := hdigits.le_of_lt (by positivity) (hpower hpoint ▸ hvalue)
    have heq : x.shortest.1 = 10 ^ (i + 1) := le_antisymm hle (hlong.mp (by omega))
    have hread := ofDecimal_power i hi x.isNegative
    rw [← hpoint, ← hunit, ← heq, hreads] at hread
    exact not_lt.mpr hread ((lt_ratio_iff x).mpr hvalue)

end CartGraph.Binary64
