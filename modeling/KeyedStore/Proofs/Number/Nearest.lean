import KeyedStore.Proofs.Number.Rounding
import Mathlib.Tactic.LinearCombination

/-! Rounding is correct: the number that a format rounds to is admitted by the format, and no
other admitted number is nearer to the quotient. -/

namespace KeyedStore

theorem divideToEven_cases (numerator : Nat) {denominator : Nat} (positive : 0 < denominator) :
    ∃ floor rest, numerator = floor * denominator + rest ∧ rest < denominator ∧
      (divideToEven numerator denominator = floor ∧ 2 * rest ≤ denominator ∨
        divideToEven numerator denominator = floor + 1 ∧ denominator ≤ 2 * rest) := by
  have split := (Nat.div_add_mod' numerator denominator).symm
  refine ⟨_, _, split, Nat.mod_lt numerator positive, ?_⟩
  simp only [divideToEven]
  split_ifs with below above
  · exact .inl ⟨rfl, below.le⟩
  · exact .inr ⟨rfl, above.le⟩
  · rcases Nat.mod_two_eq_zero_or_one (numerator / denominator) with even | odd
    · exact .inl ⟨by rw [even, Nat.add_zero], not_lt.mp above⟩
    · exact .inr ⟨by rw [odd], not_lt.mp below⟩

theorem divideToEven_nearest (numerator : Nat) {denominator : Nat} (positive : 0 < denominator)
    (whole : Nat) :
    ((numerator : ℤ) - (divideToEven numerator denominator * denominator : Nat)).natAbs ≤
      ((numerator : ℤ) - (whole * denominator : Nat)).natAbs := by
  obtain ⟨floor, rest, split, short, near⟩ := divideToEven_cases numerator positive
  have next : (floor + 1) * denominator = floor * denominator + denominator := by ring
  have apart : whole * denominator ≤ floor * denominator ∨
      (floor + 1) * denominator ≤ whole * denominator := by
    rcases Nat.lt_or_ge floor whole with above | below
    · exact .inr (Nat.mul_le_mul_right denominator above)
    · exact .inl (Nat.mul_le_mul_right denominator below)
  rcases near with ⟨rounded, low⟩ | ⟨rounded, high⟩
  · rw [rounded]
    omega
  · rw [rounded]
    omega

theorem divideToEven_le {numerator denominator bound : Nat} (positive : 0 < denominator)
    (within : numerator ≤ bound * denominator) : divideToEven numerator denominator ≤ bound := by
  obtain ⟨floor, rest, split, -, ⟨rounded, -⟩ | ⟨rounded, high⟩⟩ :=
    divideToEven_cases numerator positive
  · rw [rounded]
    exact Nat.le_of_mul_le_mul_right (by omega) positive
  · rw [rounded]
    exact Nat.lt_of_mul_lt_mul_right (a := denominator) (by omega)

theorem le_divideToEven {numerator denominator bound : Nat} (positive : 0 < denominator)
    (within : bound * denominator ≤ numerator) : bound ≤ divideToEven numerator denominator := by
  obtain ⟨floor, rest, split, short, near⟩ := divideToEven_cases numerator positive
  have next : (floor + 1) * denominator = floor * denominator + denominator := by ring
  have atLeast : bound < floor + 1 :=
    Nat.lt_of_mul_lt_mul_right (a := denominator) (by omega)
  omega

theorem sub_scaled (numerator : Nat) {denominator : Nat} (positive : 0 < denominator)
    (exponent : ℤ) (whole : Nat) :
    (numerator : ℚ) / denominator - whole * 2 ^ exponent =
      (((numerator * twoTo (-exponent).toNat : Nat) : ℤ) -
          (whole * (denominator * twoTo exponent.toNat) : Nat) : ℤ) *
        (2 ^ exponent / (denominator * twoTo exponent.toNat)) := by
  have denominatorNonzero : (denominator : ℚ) ≠ 0 := by exact_mod_cast positive.ne'
  have powerNonzero : (twoTo exponent.toNat : ℚ) ≠ 0 := by exact_mod_cast (twoTo_pos _).ne'
  have power := twoTo_div_twoTo (-exponent)
  rw [neg_neg, div_eq_iff powerNonzero] at power
  have unit : (2 : ℚ) ^ (-exponent) * 2 ^ exponent = 1 := by
    rw [← zpow_add₀ two_ne_zero, neg_add_cancel, zpow_zero]
  push_cast
  rw [power]
  field_simp
  linear_combination (-(numerator : ℚ)) * unit

theorem scale_pos {denominator : Nat} (positive : 0 < denominator) (exponent : ℤ) :
    (0 : ℚ) < 2 ^ exponent / (denominator * twoTo exponent.toNat) := by
  have width : (0 : ℚ) < denominator * twoTo exponent.toNat := by
    exact_mod_cast Nat.mul_pos positive (twoTo_pos _)
  exact div_pos (zpow_pos two_pos _) width

theorem quotient_le_point_iff (numerator : Nat) {denominator : Nat} (positive : 0 < denominator)
    (exponent : ℤ) (whole : Nat) :
    (numerator : ℚ) / denominator ≤ whole * 2 ^ exponent ↔
      numerator * twoTo (-exponent).toNat ≤ whole * (denominator * twoTo exponent.toNat) := by
  rw [← sub_nonpos, sub_scaled numerator positive, ← neg_nonneg, ← neg_mul,
    mul_nonneg_iff_of_pos_right (scale_pos positive exponent), neg_nonneg, Int.cast_nonpos,
    sub_nonpos, Int.ofNat_le]

theorem point_le_quotient_iff (numerator : Nat) {denominator : Nat} (positive : 0 < denominator)
    (exponent : ℤ) (whole : Nat) :
    whole * 2 ^ exponent ≤ (numerator : ℚ) / denominator ↔
      whole * (denominator * twoTo exponent.toNat) ≤ numerator * twoTo (-exponent).toNat := by
  rw [← sub_nonneg, sub_scaled numerator positive,
    mul_nonneg_iff_of_pos_right (scale_pos positive exponent), Int.cast_nonneg_iff, sub_nonneg,
    Int.ofNat_le]

namespace BinaryFormat

theorem grid_nearest (numerator : Nat) {denominator : Nat} (positive : 0 < denominator)
    (exponent : ℤ) (whole : Nat) :
    |(numerator : ℚ) / denominator -
        divideToEven (numerator * twoTo (-exponent).toNat) (denominator * twoTo exponent.toNat) *
          2 ^ exponent| ≤
      |(numerator : ℚ) / denominator - whole * 2 ^ exponent| := by
  have width : 0 < denominator * twoTo exponent.toNat := Nat.mul_pos positive (twoTo_pos _)
  have nearest :=
    divideToEven_nearest (numerator * twoTo (-exponent).toNat) width whole
  rw [sub_scaled numerator positive, sub_scaled numerator positive, abs_mul, abs_mul]
  apply mul_le_mul_of_nonneg_right _ (abs_nonneg _)
  rw [← Int.cast_abs, ← Int.cast_abs, Int.cast_le, Int.abs_eq_natAbs, Int.abs_eq_natAbs]
  exact_mod_cast nearest

def gridExponent (format : BinaryFormat) (quotient : ℚ) : ℤ :=
  max format.leastExponent (Int.log 2 quotient - (format.precision - 1 : Nat))

variable {format : BinaryFormat} {numerator denominator significand : Nat} {exponent : ℤ}

theorem round_cases (positive : 0 < numerator) (nonzero : 0 < denominator)
    (rounds : format.round numerator denominator = some (significand, exponent)) :
    let start := format.gridExponent ((numerator : ℚ) / denominator)
    let point :=
      divideToEven (numerator * twoTo (-start).toNat) (denominator * twoTo start.toNat)
    exponent ≤ format.greatestExponent ∧
      (point ≠ twoTo format.precision ∧ significand = point ∧ exponent = start ∨
        point = twoTo format.precision ∧ significand = twoTo (format.precision - 1) ∧
          exponent = start + 1) := by
  intro start point
  have begun : max format.leastExponent
      (floorLog2 numerator denominator - (format.precision - 1 : Nat)) = start := by
    rw [floorLog2_eq_log positive nonzero]
    rfl
  simp only [round, positive.ne', if_false, begun] at rounds
  split at rounds
  · -- with a bit too many, the point is the same number on the next grid
    rename_i full
    simp only [Option.ite_none_right_eq_some, Option.some.injEq, Prod.mk.injEq] at rounds
    obtain ⟨bounded, same, next⟩ := rounds
    exact ⟨next ▸ bounded, .inr ⟨full, same.symm, next.symm⟩⟩
  · rename_i free
    simp only [Option.ite_none_right_eq_some, Option.some.injEq, Prod.mk.injEq] at rounds
    obtain ⟨bounded, same, stays⟩ := rounds
    exact ⟨stays ▸ bounded, .inl ⟨free, same.symm, stays.symm⟩⟩

theorem two_pow_precision (wide : 0 < format.precision) :
    (2 : ℚ) ^ format.precision = 2 ^ (format.precision - 1) * 2 := by
  rw [← pow_succ, Nat.sub_add_cancel wide]

theorem value_of_round (wide : 0 < format.precision) (positive : 0 < numerator)
    (nonzero : 0 < denominator)
    (rounds : format.round numerator denominator = some (significand, exponent)) :
    let start := format.gridExponent ((numerator : ℚ) / denominator)
    (significand : ℚ) * 2 ^ exponent =
      divideToEven (numerator * twoTo (-start).toNat) (denominator * twoTo start.toNat) *
        2 ^ start := by
  intro start
  obtain ⟨-, ⟨-, same, stays⟩ | ⟨full, same, next⟩⟩ := round_cases positive nonzero rounds
  · rw [same, stays]
  · rw [same, next, full, twoTo_cast, twoTo_cast, two_pow_precision wide,
      zpow_add₀ two_ne_zero, zpow_one]
    ring

/-- No number with so many bits, and not below the least exponent, is nearer to a quotient than
the one it is rounded to. -/
theorem round_nearest (wide : 0 < format.precision) (nonzero : 0 < denominator)
    (rounds : format.round numerator denominator = some (significand, exponent))
    {otherSignificand : Nat} {otherExponent : ℤ}
    (short : otherSignificand < twoTo format.precision)
    (least : format.leastExponent ≤ otherExponent) :
    |(numerator : ℚ) / denominator - significand * 2 ^ exponent| ≤
      |(numerator : ℚ) / denominator - otherSignificand * 2 ^ otherExponent| := by
  rcases Nat.eq_zero_or_pos numerator with zero | positive
  · simp only [round, zero, if_true, Option.some.injEq, Prod.mk.injEq] at rounds
    rw [zero, ← rounds.1, Nat.cast_zero, zero_div, zero_mul, sub_zero, abs_zero]
    exact abs_nonneg _
  · let quotient : ℚ := (numerator : ℚ) / denominator
    let start := format.gridExponent quotient
    have taken := grid_nearest numerator nonzero start
    rw [value_of_round wide positive nonzero rounds]
    rcases le_or_gt start otherExponent with coarser | finer
    · -- A number with a greater exponent is itself a point of the grid.
      obtain ⟨steps, rfl⟩ := Int.le.dest coarser
      have point : (otherSignificand : ℚ) * 2 ^ (start + steps) =
          (otherSignificand * twoTo steps : Nat) * 2 ^ start := by
        rw [zpow_add₀ two_ne_zero, zpow_natCast, Nat.cast_mul, twoTo_cast]
        ring
      rw [point]
      exact taken _
    · -- Any other number lies below the first point of the binade, which lies below the quotient.
      have begun : start = Int.log 2 quotient - (format.precision - 1 : Nat) := by
        simp only [start, gridExponent] at finer ⊢
        omega
      have positiveQuotient : 0 < quotient := div_pos (by exact_mod_cast positive)
        (by exact_mod_cast nonzero)
      have first : ((twoTo (format.precision - 1) : Nat) : ℚ) * 2 ^ start ≤ quotient := by
        have least := Int.zpow_log_le_self (R := ℚ) (b := 2) (by decide) positiveQuotient
        rw [twoTo_cast, ← zpow_natCast, ← zpow_add₀ two_ne_zero, begun]
        simpa using least
      have below : (otherSignificand : ℚ) * 2 ^ otherExponent ≤
          (twoTo (format.precision - 1) : Nat) * 2 ^ start := by
        have bits : (otherSignificand : ℚ) ≤ 2 ^ (format.precision - 1) * 2 := by
          rw [← two_pow_precision wide, ← twoTo_cast]
          exact_mod_cast short.le
        have power : (2 : ℚ) * 2 ^ otherExponent ≤ 2 ^ start := by
          rw [← zpow_one_add₀ two_ne_zero]
          exact zpow_le_zpow_right₀ one_le_two (by omega)
        calc (otherSignificand : ℚ) * 2 ^ otherExponent
            ≤ 2 ^ (format.precision - 1) * 2 * 2 ^ otherExponent :=
              mul_le_mul_of_nonneg_right bits (zpow_nonneg zero_le_two _)
          _ = 2 ^ (format.precision - 1) * (2 * 2 ^ otherExponent) := by ring
          _ ≤ 2 ^ (format.precision - 1) * 2 ^ start :=
              mul_le_mul_of_nonneg_left power (pow_nonneg zero_le_two _)
          _ = (twoTo (format.precision - 1) : Nat) * 2 ^ start := by rw [twoTo_cast]
      refine (taken (twoTo (format.precision - 1))).trans ?_
      rw [abs_of_nonneg (sub_nonneg.mpr first),
        abs_of_nonneg (sub_nonneg.mpr (below.trans first))]
      exact sub_le_sub_left below _

theorem point_bounds (wide : 0 < format.precision) (positive : 0 < numerator)
    (nonzero : 0 < denominator) :
    let start := format.gridExponent ((numerator : ℚ) / denominator)
    let point :=
      divideToEven (numerator * twoTo (-start).toNat) (denominator * twoTo start.toNat)
    point ≤ twoTo format.precision ∧
      (twoTo (format.precision - 1) ≤ point ∨ start = format.leastExponent) := by
  intro start point
  let quotient : ℚ := (numerator : ℚ) / denominator
  have positiveQuotient : 0 < quotient := div_pos (by exact_mod_cast positive)
    (by exact_mod_cast nonzero)
  have width : 0 < denominator * twoTo start.toNat := Nat.mul_pos nonzero (twoTo_pos _)
  have begun : start = format.leastExponent ∨
      start = Int.log 2 quotient - (format.precision - 1 : Nat) := by
    simp only [start, gridExponent]
    exact max_choice _ _
  have above : Int.log 2 quotient - (format.precision - 1 : Nat) ≤ start := le_max_right _ _
  constructor
  · apply divideToEven_le width
    rw [← quotient_le_point_iff numerator nonzero, twoTo_cast, ← zpow_natCast,
      ← zpow_add₀ two_ne_zero]
    have upper := Int.lt_zpow_succ_log_self (R := ℚ) (b := 2) (by decide) quotient
    refine upper.le.trans ?_
    push_cast
    exact zpow_le_zpow_right₀ one_le_two (by omega)
  · rcases begun with least | binade
    · exact .inr least
    · left
      apply le_divideToEven width
      rw [← point_le_quotient_iff numerator nonzero, twoTo_cast, ← zpow_natCast,
        ← zpow_add₀ two_ne_zero, binade, add_sub_cancel]
      exact_mod_cast Int.zpow_log_le_self (by decide) positiveQuotient

theorem admits_of_round (wide : 0 < format.precision)
    (range : format.leastExponent ≤ format.greatestExponent) (nonzero : 0 < denominator)
    (rounds : format.round numerator denominator = some (significand, exponent)) :
    format.Admits significand exponent := by
  rcases Nat.eq_zero_or_pos numerator with zero | positive
  · simp only [round, zero, if_true, Option.some.injEq, Prod.mk.injEq] at rounds
    obtain ⟨rfl, rfl⟩ := rounds
    exact ⟨twoTo_pos _, le_refl _, range, .inr rfl⟩
  · have least : format.leastExponent ≤ format.gridExponent ((numerator : ℚ) / denominator) :=
      le_max_left _ _
    obtain ⟨within, filled⟩ := point_bounds wide positive nonzero
    obtain ⟨bounded, ⟨free, rfl, rfl⟩ | ⟨-, rfl, rfl⟩⟩ := round_cases positive nonzero rounds
    · exact ⟨lt_of_le_of_ne within free, least, bounded, filled⟩
    · have halved : twoTo (format.precision - 1) < twoTo format.precision :=
        Nat.pow_lt_pow_right (by decide) (by omega)
      exact ⟨halved, by omega, bounded, .inl (le_refl _)⟩

theorem exists_round (nonzero : 0 < denominator)
    (range : format.leastExponent < format.greatestExponent)
    (below : (numerator : ℚ) / denominator <
      2 ^ (format.greatestExponent + (format.precision - 1 : Nat))) :
    ∃ rounded, format.round numerator denominator = some rounded := by
  rcases Nat.eq_zero_or_pos numerator with zero | positive
  · exact ⟨_, by rw [round, if_pos zero]⟩
  · have positiveQuotient : (0 : ℚ) < (numerator : ℚ) / denominator :=
      div_pos (by exact_mod_cast positive) (by exact_mod_cast nonzero)
    have log : Int.log 2 ((numerator : ℚ) / denominator) <
        format.greatestExponent + (format.precision - 1 : Nat) :=
      (Int.lt_zpow_iff_log_lt (by decide) positiveQuotient).mp (by exact_mod_cast below)
    simp only [round, positive.ne', if_false, floorLog2_eq_log positive nonzero]
    split
    · exact ⟨_, if_pos (by omega)⟩
    · exact ⟨_, if_pos (by omega)⟩

end BinaryFormat

end KeyedStore
