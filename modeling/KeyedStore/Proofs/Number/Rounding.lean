import KeyedStore.Number.Decimal
import Mathlib.Data.Int.Log
import Mathlib.Data.Rat.Floor
import Mathlib.Tactic.Linarith
import Mathlib.Tactic.Positivity

/-! Rounding as a function of the quotient. Equal quotients round alike, and a number that
a format admits rounds to itself. -/

namespace KeyedStore

theorem twoTo_pos (exponent : Nat) : 0 < twoTo exponent :=
  Nat.pow_pos (by decide)

theorem twoTo_cast (exponent : Nat) : (twoTo exponent : ℚ) = 2 ^ exponent := by
  exact_mod_cast rfl

theorem twoTo_div_twoTo (exponent : ℤ) :
    (twoTo exponent.toNat : ℚ) / twoTo (-exponent).toNat = 2 ^ exponent := by
  simp only [twoTo_cast]
  obtain ⟨power, same | same⟩ := exponent.eq_nat_or_neg
  · subst same
    simp
  · subst same
    simp

theorem divideToEven_mul_right {scale : Nat} (positive : 0 < scale) (numerator denominator : Nat) :
    divideToEven (numerator * scale) (denominator * scale) =
      divideToEven numerator denominator := by
  have rest : 2 * (numerator * scale % (denominator * scale)) =
      2 * (numerator % denominator) * scale := by
    rw [Nat.mul_mod_mul_right, Nat.mul_assoc]
  simp only [divideToEven, Nat.mul_div_mul_right _ _ positive, rest,
    Nat.mul_lt_mul_right positive]

theorem divideToEven_congr {leftNumerator leftDenominator rightNumerator rightDenominator : Nat}
    (leftPositive : 0 < leftDenominator) (rightPositive : 0 < rightDenominator)
    (same : leftNumerator * rightDenominator = rightNumerator * leftDenominator) :
    divideToEven leftNumerator leftDenominator =
      divideToEven rightNumerator rightDenominator := by
  rw [← divideToEven_mul_right rightPositive leftNumerator leftDenominator,
    ← divideToEven_mul_right leftPositive rightNumerator rightDenominator, same,
    Nat.mul_comm leftDenominator]

theorem divideToEven_mul_self {denominator : Nat} (positive : 0 < denominator) (whole : Nat) :
    divideToEven (whole * denominator) denominator = whole := by
  simp [divideToEven, Nat.mul_div_cancel whole positive, positive]

theorem log_eq_of_bounds {quotient : ℚ} (positive : 0 < quotient) {exponent : ℤ}
    (lower : (2 : ℚ) ^ exponent ≤ quotient) (upper : quotient < (2 : ℚ) ^ (exponent + 1)) :
    Int.log 2 quotient = exponent := by
  have atLeast : exponent ≤ Int.log 2 quotient :=
    (Int.zpow_le_iff_le_log (by decide) positive).mp (by exact_mod_cast lower)
  have below : Int.log 2 quotient < exponent + 1 :=
    (Int.lt_zpow_iff_log_lt (by decide) positive).mp (by exact_mod_cast upper)
  omega

theorem quotient_bounds {numerator denominator : Nat} (positive : 0 < numerator)
    (nonzero : 0 < denominator) :
    (2 : ℚ) ^ ((numerator.log2 : ℤ) - denominator.log2 - 1) ≤ (numerator : ℚ) / denominator ∧
      (numerator : ℚ) / denominator < 2 ^ ((numerator.log2 : ℤ) - denominator.log2 + 1) := by
  have denominatorPositive : (0 : ℚ) < denominator := by exact_mod_cast nonzero
  have numeratorLower : (2 : ℚ) ^ numerator.log2 ≤ numerator := by
    exact_mod_cast Nat.log2_self_le positive.ne'
  have numeratorUpper : (numerator : ℚ) < 2 ^ (numerator.log2 + 1) := by
    exact_mod_cast Nat.lt_log2_self
  have denominatorLower : (2 : ℚ) ^ denominator.log2 ≤ denominator := by
    exact_mod_cast Nat.log2_self_le nonzero.ne'
  have denominatorUpper : (denominator : ℚ) < 2 ^ (denominator.log2 + 1) := by
    exact_mod_cast Nat.lt_log2_self
  constructor
  · rw [le_div_iff₀ denominatorPositive]
    calc (2 : ℚ) ^ ((numerator.log2 : ℤ) - denominator.log2 - 1) * denominator
        ≤ 2 ^ ((numerator.log2 : ℤ) - denominator.log2 - 1) * 2 ^ (denominator.log2 + 1) :=
          mul_le_mul_of_nonneg_left denominatorUpper.le (zpow_nonneg zero_le_two _)
      _ = 2 ^ numerator.log2 := by
          rw [← zpow_natCast, ← zpow_natCast, ← zpow_add₀ two_ne_zero]
          congr 1
          push_cast
          ring
      _ ≤ numerator := numeratorLower
  · rw [div_lt_iff₀ denominatorPositive]
    calc (numerator : ℚ) < 2 ^ (numerator.log2 + 1) := numeratorUpper
      _ = 2 ^ ((numerator.log2 : ℤ) - denominator.log2 + 1) * 2 ^ denominator.log2 := by
          rw [← zpow_natCast, ← zpow_natCast, ← zpow_add₀ two_ne_zero]
          congr 1
          push_cast
          ring
      _ ≤ 2 ^ ((numerator.log2 : ℤ) - denominator.log2 + 1) * denominator :=
          mul_le_mul_of_nonneg_left denominatorLower (zpow_nonneg zero_le_two _)

theorem scaled_lt_iff {denominator : Nat} (nonzero : 0 < denominator) (numerator : Nat)
    (exponent : ℤ) :
    numerator * twoTo (-exponent).toNat < denominator * twoTo exponent.toNat ↔
      (numerator : ℚ) / denominator < 2 ^ exponent := by
  have denominatorPositive : (0 : ℚ) < denominator := by exact_mod_cast nonzero
  have powerPositive : (0 : ℚ) < twoTo (-exponent).toNat := by exact_mod_cast twoTo_pos _
  rw [← twoTo_div_twoTo, div_lt_div_iff₀ denominatorPositive powerPositive,
    mul_comm (twoTo exponent.toNat : ℚ)]
  exact_mod_cast Iff.rfl

theorem floorLog2_eq_log {numerator denominator : Nat} (positive : 0 < numerator)
    (nonzero : 0 < denominator) :
    floorLog2 numerator denominator = Int.log 2 ((numerator : ℚ) / denominator) := by
  have quotientPositive : (0 : ℚ) < (numerator : ℚ) / denominator := by positivity
  have bounds := quotient_bounds positive nonzero
  have test := scaled_lt_iff nonzero numerator ((numerator.log2 : ℤ) - denominator.log2)
  simp only [floorLog2, test]
  split
  · rename_i below
    refine (log_eq_of_bounds quotientPositive bounds.1 ?_).symm
    rwa [sub_add_cancel]
  · rename_i atLeast
    exact (log_eq_of_bounds quotientPositive (not_lt.mp atLeast) bounds.2).symm

namespace BinaryFormat

theorem round_congr (format : BinaryFormat)
    {leftNumerator leftDenominator rightNumerator rightDenominator : Nat}
    (leftPositive : 0 < leftDenominator) (rightPositive : 0 < rightDenominator)
    (same : leftNumerator * rightDenominator = rightNumerator * leftDenominator) :
    format.round leftNumerator leftDenominator =
      format.round rightNumerator rightDenominator := by
  by_cases zero : leftNumerator = 0
  · have rightZero : rightNumerator = 0 := by
      rw [zero, Nat.zero_mul] at same
      exact (Nat.mul_eq_zero.mp same.symm).resolve_right leftPositive.ne'
    simp [round, zero, rightZero]
  · have rightNonzero : rightNumerator ≠ 0 := by
      intro rightZero
      rw [rightZero, Nat.zero_mul] at same
      exact zero ((Nat.mul_eq_zero.mp same).resolve_right rightPositive.ne')
    have quotients : (leftNumerator : ℚ) / leftDenominator =
        (rightNumerator : ℚ) / rightDenominator := by
      rw [div_eq_div_iff (by exact_mod_cast leftPositive.ne')
        (by exact_mod_cast rightPositive.ne')]
      exact_mod_cast same
    have exponents : floorLog2 leftNumerator leftDenominator =
        floorLog2 rightNumerator rightDenominator := by
      rw [floorLog2_eq_log (Nat.pos_of_ne_zero zero) leftPositive,
        floorLog2_eq_log (Nat.pos_of_ne_zero rightNonzero) rightPositive, quotients]
    have significands (exponent : ℤ) :
        divideToEven (leftNumerator * twoTo (-exponent).toNat)
            (leftDenominator * twoTo exponent.toNat) =
          divideToEven (rightNumerator * twoTo (-exponent).toNat)
            (rightDenominator * twoTo exponent.toNat) := by
      apply divideToEven_congr (Nat.mul_pos leftPositive (twoTo_pos _))
        (Nat.mul_pos rightPositive (twoTo_pos _))
      calc leftNumerator * twoTo (-exponent).toNat * (rightDenominator * twoTo exponent.toNat)
          = leftNumerator * rightDenominator *
              (twoTo (-exponent).toNat * twoTo exponent.toNat) := by ring
        _ = rightNumerator * leftDenominator *
              (twoTo (-exponent).toNat * twoTo exponent.toNat) := by rw [same]
        _ = rightNumerator * twoTo (-exponent).toNat *
              (leftDenominator * twoTo exponent.toNat) := by ring
    simp only [round, zero, rightNonzero, if_false, exponents, significands]

theorem floorLog2_scaled {significand : Nat} (nonzero : significand ≠ 0) (exponent : ℤ) :
    floorLog2 (significand * twoTo exponent.toNat) (twoTo (-exponent).toNat) =
      significand.log2 + exponent := by
  have positive : 0 < significand := Nat.pos_of_ne_zero nonzero
  have lower : (2 : ℚ) ^ significand.log2 ≤ significand := by
    exact_mod_cast Nat.log2_self_le nonzero
  have upper : (significand : ℚ) < 2 ^ (significand.log2 + 1) := by
    exact_mod_cast Nat.lt_log2_self
  have power : (0 : ℚ) < 2 ^ exponent := zpow_pos zero_lt_two _
  have quotient : ((significand * twoTo exponent.toNat : Nat) : ℚ) /
      (twoTo (-exponent).toNat : Nat) = significand * 2 ^ exponent := by
    rw [← twoTo_div_twoTo, Nat.cast_mul, mul_div_assoc]
  rw [floorLog2_eq_log (Nat.mul_pos positive (twoTo_pos _)) (twoTo_pos _), quotient]
  apply log_eq_of_bounds (mul_pos (by exact_mod_cast positive) power)
  · rw [zpow_add₀ two_ne_zero, zpow_natCast]
    exact mul_le_mul_of_nonneg_right lower power.le
  · rw [add_right_comm, zpow_add₀ two_ne_zero]
    apply mul_lt_mul_of_pos_right _ power
    exact_mod_cast upper

theorem Admits.exponent_eq {format : BinaryFormat} {significand : Nat} {exponent : ℤ}
    (admitted : format.Admits significand exponent) (nonzero : significand ≠ 0) :
    max format.leastExponent
      ((significand.log2 + exponent) - (format.precision - 1 : Nat)) = exponent := by
  obtain ⟨below, least, -, filled | atLeast⟩ := admitted
  · have short : significand.log2 < format.precision := (Nat.log2_lt nonzero).mpr below
    have long : format.precision - 1 ≤ significand.log2 := (Nat.le_log2 nonzero).mpr filled
    omega
  · have short : significand.log2 < format.precision := (Nat.log2_lt nonzero).mpr below
    omega

theorem round_of_admits {format : BinaryFormat} {significand : Nat} {exponent : ℤ}
    (admitted : format.Admits significand exponent) :
    format.round (significand * twoTo exponent.toNat) (twoTo (-exponent).toNat) =
      some (significand, exponent) := by
  by_cases zero : significand = 0
  · have least : exponent = format.leastExponent := by
      obtain ⟨-, -, -, filled | atLeast⟩ := admitted
      · have positive := twoTo_pos (format.precision - 1)
        omega
      · exact atLeast
    simp [round, zero, least]
  · have numerator : significand * twoTo exponent.toNat ≠ 0 :=
      Nat.mul_ne_zero zero (twoTo_pos _).ne'
    have start := admitted.exponent_eq zero
    have significandEq : divideToEven
        (significand * twoTo exponent.toNat * twoTo (-exponent).toNat)
        (twoTo (-exponent).toNat * twoTo exponent.toNat) = significand := by
      rw [Nat.mul_assoc, Nat.mul_comm (twoTo exponent.toNat)]
      exact divideToEven_mul_self (Nat.mul_pos (twoTo_pos _) (twoTo_pos _)) significand
    have notFull : significand ≠ twoTo format.precision := admitted.1.ne
    simp only [round, numerator, if_false, floorLog2_scaled zero, start, significandEq, notFull,
      admitted.2.2.1, if_true]

end BinaryFormat

end KeyedStore
