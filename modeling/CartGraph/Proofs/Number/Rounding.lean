import CartGraph.Number.Shortest
import Mathlib.Algebra.Order.Field.Power
import Mathlib.Algebra.Order.Field.Rat
import Mathlib.Tactic.FieldSimp
import Mathlib.Tactic.Linarith
import Mathlib.Tactic.NormNum
import Mathlib.Tactic.Positivity
import Mathlib.Tactic.Ring

/-! # Quotients near a double

A quotient that differs from a finite double by no more than half a unit of its seventeenth digit is
rounded to that double. The magnitude of a double is written `significand * 2 ^ exponent`, as a
rational. -/
namespace CartGraph.Binary64

/-! ## Nearest naturals -/

theorem roundHalfEven_cases (num den : ℕ) :
    roundHalfEven num den = num / den ∨ roundHalfEven num den = num / den + 1 := by
  have hparity := Nat.mod_two_eq_zero_or_one (num / den)
  unfold roundHalfEven
  dsimp only
  split_ifs <;> omega

theorem roundHalfEven_near (num : ℕ) {den : ℕ} (hden : 0 < den) :
    |(num : ℚ) / den - roundHalfEven num den| ≤ 1 / 2 := by
  have hpos : (0 : ℚ) < den := by exact_mod_cast hden
  have hsum : (num : ℚ) = den * (num / den : ℕ) + (num % den : ℕ) := by
    exact_mod_cast (Nat.div_add_mod num den).symm
  have hquotient : (num : ℚ) / den = (num / den : ℕ) + ((num % den : ℕ) : ℚ) / den := by
    rw [hsum, add_div, mul_div_cancel_left₀ _ hpos.ne']
  have hparity := Nat.mod_two_eq_zero_or_one (num / den)
  have hlower : (0 : ℚ) ≤ ((num % den : ℕ) : ℚ) / den := by positivity
  have hupper : ((num % den : ℕ) : ℚ) / den < 1 :=
    (div_lt_one hpos).mpr (by exact_mod_cast Nat.mod_lt num hden)
  have hbelow : 2 * (num % den) ≤ den ↔ ((num % den : ℕ) : ℚ) / den ≤ 1 / 2 := by
    rw [div_le_div_iff₀ hpos two_pos, one_mul, mul_comm]
    exact_mod_cast Iff.rfl
  have habove : den ≤ 2 * (num % den) ↔ 1 / 2 ≤ ((num % den : ℕ) : ℚ) / den := by
    rw [div_le_div_iff₀ two_pos hpos, one_mul, mul_comm]
    exact_mod_cast Iff.rfl
  rw [hquotient, abs_le]
  unfold roundHalfEven
  dsimp only
  split_ifs with hdown hup
  · have := hbelow.mp hdown.le
    constructor <;> linarith
  · have := habove.mp hup.le
    push_cast
    constructor <;> linarith
  · have := hbelow.mp (not_lt.mp hup)
    have := habove.mp (not_lt.mp hdown)
    rcases hparity with h | h <;> rw [h] <;> push_cast <;> constructor <;> linarith

theorem roundHalfEven_eq {num den n : ℕ} (hden : 0 < den) (h : |(num : ℚ) / den - n| < 1 / 2) :
    roundHalfEven num den = n := by
  have hround := abs_le.mp (roundHalfEven_near num hden)
  have hnear := abs_lt.mp h
  have hlt : ((roundHalfEven num den : ℕ) : ℚ) < n + 1 := by linarith
  have hgt : (n : ℚ) < roundHalfEven num den + 1 := by linarith
  have : roundHalfEven num den < n + 1 := by exact_mod_cast hlt
  have : n < roundHalfEven num den + 1 := by exact_mod_cast hgt
  omega

/-! ## Powers of two -/

/-- Both numbers of a quotient are scaled by powers, one of them by the power zero. -/
theorem scaled_quotient (base num den : ℕ) (e : ℤ) :
    ((num * base ^ (-e).toNat : ℕ) : ℚ) / (den * base ^ e.toNat : ℕ) =
      (num : ℚ) / den / (base : ℚ) ^ e := by
  rcases le_total 0 e with he | he
  · obtain ⟨n, rfl⟩ := Int.eq_ofNat_of_zero_le he
    simp [div_div]
  · obtain ⟨n, hn⟩ := Int.eq_ofNat_of_zero_le (neg_nonneg.mpr he)
    rw [show e = -(n : ℤ) by omega]
    simp [mul_div_right_comm]

theorem shift_quotient (num den : ℕ) (e : ℤ) :
    ((num <<< (-e).toNat : ℕ) : ℚ) / (den <<< e.toNat : ℕ) = (num : ℚ) / den / 2 ^ e := by
  rw [Nat.shiftLeft_eq, Nat.shiftLeft_eq]
  exact scaled_quotient 2 num den e

theorem log2Ratio_bounds {num den : ℕ} (hnum : 0 < num) (hden : 0 < den) :
    (2 : ℚ) ^ log2Ratio num den ≤ (num : ℚ) / den ∧
      (num : ℚ) / den < 2 ^ (log2Ratio num den + 1) := by
  have hpos : (0 : ℚ) < den := by exact_mod_cast hden
  have hlog {n : ℕ} (hn : 0 < n) :
      (2 : ℚ) ^ (n.log2 : ℤ) ≤ n ∧ (n : ℚ) < 2 ^ ((n.log2 : ℤ) + 1) := by
    constructor
    · exact_mod_cast Nat.log2_self_le hn.ne'
    · exact_mod_cast @Nat.lt_log2_self n
  obtain ⟨hnumle, hnumlt⟩ := hlog hnum
  obtain ⟨hdenle, hdenlt⟩ := hlog hden
  set l : ℤ := (num.log2 : ℤ) - den.log2 with hl
  have hupper : (num : ℚ) / den < 2 ^ (l + 1) := by
    rw [div_lt_iff₀ hpos]
    calc (num : ℚ) < 2 ^ ((num.log2 : ℤ) + 1) := hnumlt
      _ = 2 ^ (l + 1) * 2 ^ (den.log2 : ℤ) := by rw [← zpow_add₀ two_ne_zero, hl]; congr 1; omega
      _ ≤ 2 ^ (l + 1) * den := by gcongr
  have hlower : (2 : ℚ) ^ (l - 1) ≤ (num : ℚ) / den := by
    rw [le_div_iff₀ hpos]
    calc (2 : ℚ) ^ (l - 1) * den ≤ 2 ^ (l - 1) * 2 ^ ((den.log2 : ℤ) + 1) := by gcongr
      _ = 2 ^ (num.log2 : ℤ) := by rw [← zpow_add₀ two_ne_zero, hl]; congr 1; omega
      _ ≤ num := hnumle
  have htest : den <<< l.toNat ≤ num <<< (-l).toNat ↔ (2 : ℚ) ^ l ≤ (num : ℚ) / den := by
    have hden' : (0 : ℚ) < (den <<< l.toNat : ℕ) := by
      rw [Nat.shiftLeft_eq]
      positivity
    rw [← Nat.cast_le (α := ℚ), ← one_le_div hden', shift_quotient,
      one_le_div (zpow_pos two_pos l)]
  unfold log2Ratio
  dsimp only
  rw [← hl]
  split_ifs with h
  · exact ⟨htest.mp h, hupper⟩
  · rw [sub_add_cancel]
    exact ⟨hlower, not_le.mp fun hle => h (htest.mpr hle)⟩

/-! ## The parts of a double -/

theorem magnitude_lt (x : Binary64) : x.magnitude < 2048 * fractionSize :=
  Nat.mod_lt _ (by decide)

theorem magnitude_lt_of_finite {x : Binary64} (h : x.isFinite = true) :
    x.magnitude < topField * fractionSize := by
  have hlt := x.magnitude_lt
  have hfield : x.magnitude / fractionSize ≠ topField := by simpa [isFinite, exponentField] using h
  simp only [fractionSize, topField] at *
  omega

theorem magnitude_parts (x : Binary64) :
    x.magnitude = fractionSize * x.exponentField + x.fraction :=
  (Nat.div_add_mod x.magnitude fractionSize).symm

theorem fraction_lt (x : Binary64) : x.fraction < fractionSize := Nat.mod_lt _ (by decide)

theorem magnitude_eq (x : Binary64) :
    x.magnitude = (x.exponent + 1074).toNat * fractionSize + x.significand := by
  have hparts := x.magnitude_parts
  unfold exponent significand
  simp only [fractionSize] at *
  by_cases hfield : x.exponentField = 0
  · rw [if_pos hfield, if_pos hfield]
    omega
  · rw [if_neg hfield, if_neg hfield]
    omega

theorem exponent_ge (x : Binary64) : -1074 ≤ x.exponent := by
  unfold exponent
  split_ifs <;> omega

theorem significand_lt (x : Binary64) : x.significand < 2 ^ 53 := by
  have hlt := x.fraction_lt
  unfold significand
  simp only [fractionSize] at *
  split_ifs <;> omega

/-- A double whose significand is short is as small as its exponent can be. -/
theorem exponent_eq_or_significand_ge (x : Binary64) :
    x.exponent = -1074 ∨ 2 ^ 52 ≤ x.significand := by
  simp only [exponent, significand, fractionSize]
  split_ifs
  · exact .inl rfl
  · exact .inr (by omega)

theorem significand_pos {x : Binary64} (h : x.isZero = false) : 0 < x.significand := by
  have hne : x.magnitude ≠ 0 := by simpa [isZero] using h
  have hparts := x.magnitude_parts
  unfold significand
  simp only [fractionSize] at *
  split_ifs with hfield
  · rw [hfield] at hparts
    omega
  · omega

theorem ofMagnitude_magnitude (x : Binary64) : ofMagnitude x.isNegative x.magnitude = x := by
  have hlt := x.bits.toNat_lt
  have hbits : (if x.isNegative then signBit + x.magnitude else x.magnitude) = x.bits.toNat := by
    by_cases hsign : signBit ≤ x.bits.toNat
    · rw [isNegative, decide_eq_true hsign, if_pos rfl, magnitude]
      simp only [signBit] at *
      omega
    · rw [isNegative, decide_eq_false hsign, if_neg Bool.false_ne_true, magnitude]
      simp only [signBit] at *
      omega
  rw [ofMagnitude, hbits, UInt64.ofNat_toNat]

def value (x : Binary64) : ℚ := x.significand * 2 ^ x.exponent

theorem ratio_den_pos (x : Binary64) : 0 < x.ratio.2 := by
  simp [ratio, Nat.shiftLeft_eq]

theorem ratio_value (x : Binary64) : (x.ratio.1 : ℚ) / x.ratio.2 = x.value := by
  have h := shift_quotient x.significand 1 (-x.exponent)
  rw [neg_neg] at h
  rw [ratio, h, value, zpow_neg, Nat.cast_one, div_one, div_inv_eq_mul]

theorem value_pos {x : Binary64} (h : x.isZero = false) : 0 < x.value := by
  have : (0 : ℚ) < x.significand := by exact_mod_cast significand_pos h
  unfold value
  positivity

/-! ## Rounding -/

variable {x : Binary64} {num den : ℕ}

theorem log2Ratio_lt (hnum : 0 < num) (hden : 0 < den) {e : ℤ} {k : ℕ}
    (h : (num : ℚ) / den / 2 ^ e < 2 ^ k) : log2Ratio num den < e + k := by
  rw [div_lt_iff₀ (zpow_pos two_pos e), ← zpow_natCast, ← zpow_add₀ two_ne_zero, add_comm] at h
  exact (zpow_lt_zpow_iff_right₀ one_lt_two).mp ((log2Ratio_bounds hnum hden).1.trans_lt h)

theorem le_log2Ratio (hnum : 0 < num) (hden : 0 < den) {e : ℤ} {k : ℕ}
    (h : 2 ^ k ≤ (num : ℚ) / den / 2 ^ e) : e + k ≤ log2Ratio num den := by
  rw [le_div_iff₀ (zpow_pos two_pos e), ← zpow_natCast, ← zpow_add₀ two_ne_zero, add_comm] at h
  exact Int.lt_add_one_iff.mp
    ((zpow_lt_zpow_iff_right₀ one_lt_two).mp (h.trans_lt (log2Ratio_bounds hnum hden).2))

/-- The quotient differs from the double by half a unit of the seventeenth digit at most. -/
def Near (x : Binary64) (num den : ℕ) : Prop :=
  |(num : ℚ) / den - x.value| * (2 * 10 ^ 16) ≤ x.value

theorem Near.scaled (h : x.Near num den) :
    |(num : ℚ) / den / 2 ^ x.exponent - x.significand| * (2 * 10 ^ 16) ≤ x.significand := by
  have hpos : (0 : ℚ) < 2 ^ x.exponent := zpow_pos two_pos _
  have hquotient : (num : ℚ) / den / 2 ^ x.exponent - x.significand =
      ((num : ℚ) / den - x.value) / 2 ^ x.exponent := by
    rw [sub_div, value, mul_div_cancel_right₀ _ hpos.ne']
  rw [hquotient, abs_div, abs_of_pos hpos, div_mul_eq_mul_div, div_le_iff₀ hpos]
  exact h

theorem Near.num_pos (h : x.Near num den) (hzero : x.isZero = false) : 0 < num := by
  have hvalue := value_pos hzero
  by_contra hnum
  rw [Near, Nat.eq_zero_of_not_pos hnum, Nat.cast_zero, zero_div, zero_sub, abs_neg,
    abs_of_pos hvalue] at h
  linarith

/-- The exponent at which a quotient near a double is rounded is that of the double, or the one
before it if the double is a power of two. -/
theorem Near.exponent (h : x.Near num den) (hnum : 0 < num) (hden : 0 < den) :
    max (log2Ratio num den - 52) (-1074) = x.exponent ∨
      max (log2Ratio num den - 52) (-1074) = x.exponent - 1 ∧ x.significand = 2 ^ 52 := by
  have hexponent := x.exponent_ge
  have hsignificand : (x.significand : ℚ) ≤ 2 ^ 53 - 1 :=
    le_sub_iff_add_le.mpr (by exact_mod_cast x.significand_lt)
  have hscaled := h.scaled
  have hupper := le_abs_self ((num : ℚ) / den / 2 ^ x.exponent - x.significand)
  have hlower := neg_abs_le ((num : ℚ) / den / 2 ^ x.exponent - x.significand)
  have htop := log2Ratio_lt hnum hden (show (num : ℚ) / den / 2 ^ x.exponent < 2 ^ 53 by linarith)
  rcases x.exponent_eq_or_significand_ge with hsmall | hlarge
  · exact .inl (by omega)
  rcases hlarge.eq_or_lt with hpower | hlonger
  · have : (x.significand : ℚ) = 2 ^ 52 := by exact_mod_cast hpower.symm
    have := le_log2Ratio hnum hden (show 2 ^ 51 ≤ (num : ℚ) / den / 2 ^ x.exponent by linarith)
    omega
  · have : (2 ^ 52 + 1 : ℚ) ≤ x.significand := by exact_mod_cast hlonger
    have := le_log2Ratio hnum hden (show 2 ^ 52 ≤ (num : ℚ) / den / 2 ^ x.exponent by linarith)
    omega

theorem roundHalfEven_shift (hden : 0 < den) {e : ℤ} {n : ℕ}
    (h : |(num : ℚ) / den / 2 ^ e - n| < 1 / 2) :
    roundHalfEven (num <<< (-e).toNat) (den <<< e.toNat) = n := by
  refine roundHalfEven_eq ?_ ?_
  · rw [Nat.shiftLeft_eq]
    positivity
  · rwa [shift_quotient]

theorem Near.magnitude (h : x.Near num den) (hnum : 0 < num) (hden : 0 < den) {e : ℤ}
    (he : e = max (log2Ratio num den - 52) (-1074)) :
    (e + 1074).toNat * fractionSize +
      roundHalfEven (num <<< (-e).toNat) (den <<< e.toNat) = x.magnitude := by
  have hscaled := h.scaled
  rw [x.magnitude_eq]
  rcases h.exponent hnum hden with hsame | ⟨hbefore, hpower⟩
  · have hsignificand : (x.significand : ℚ) < 2 ^ 53 := by exact_mod_cast x.significand_lt
    have hnear : |(num : ℚ) / den / 2 ^ x.exponent - x.significand| < 1 / 2 := by linarith
    rw [he, hsame, roundHalfEven_shift hden hnear]
  · -- The significand is rounded up to the next power of two and carries into the exponent.
    have hge : -1074 ≤ max (log2Ratio num den - 52) (-1074) := le_max_right ..
    have hdouble : (num : ℚ) / den / 2 ^ (x.exponent - 1) - (2 * x.significand : ℕ) =
        ((num : ℚ) / den / 2 ^ x.exponent - x.significand) * 2 := by
      rw [zpow_sub_one₀ two_ne_zero, ← div_div, div_inv_eq_mul]
      push_cast
      ring
    have hsignificand : (x.significand : ℚ) = 2 ^ 52 := by exact_mod_cast hpower
    have hnear : |(num : ℚ) / den / 2 ^ (x.exponent - 1) - (2 * x.significand : ℕ)| < 1 / 2 := by
      rw [hdouble, abs_mul, abs_two]
      linarith
    rw [he, hbefore, roundHalfEven_shift hden hnear, hpower]
    simp only [fractionSize]
    omega

theorem ofRatio_of_near (hfinite : x.isFinite = true) (hzero : x.isZero = false) (hden : 0 < den)
    (h : x.Near num den) : ofRatio x.isNegative num den = x := by
  have hnum := h.num_pos hzero
  have hmagnitude := h.magnitude hnum hden rfl
  have hlt := magnitude_lt_of_finite hfinite
  unfold ofRatio
  dsimp only
  rw [if_neg hnum.ne', hmagnitude, if_neg (not_le.mpr hlt), ofMagnitude_magnitude]

end CartGraph.Binary64
