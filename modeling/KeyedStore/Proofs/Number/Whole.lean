import KeyedStore.Proofs.Number.Nearest
import KeyedStore.Proofs.Number.Text

/-! Whole numbers as doubles. A whole number is rounded to a whole number, the nearest that a
double has, and it stays as it is up to 2^53 in magnitude. -/

namespace KeyedStore

namespace Double

def magnitude (double : Double) : ℚ :=
  double.significand * 2 ^ double.exponent

def value (double : Double) : ℚ :=
  if double.negative then -double.magnitude else double.magnitude

theorem magnitude_eq (double : Double) :
    double.magnitude = (double.numerator : ℚ) / double.denominator := by
  rw [magnitude, numerator, denominator, Nat.cast_mul, mul_div_assoc, twoTo_div_twoTo]

theorem magnitude_eq_natCast_iff {double : Double} {whole : Nat} :
    double.magnitude = whole ↔ double.numerator = whole * double.denominator := by
  have nonzero : (double.denominator : ℚ) ≠ 0 := by
    exact_mod_cast (twoTo_pos (-double.exponent).toNat).ne'
  rw [magnitude_eq, div_eq_iff nonzero]
  exact_mod_cast Iff.rfl

theorem magnitude_nonneg (double : Double) : 0 ≤ double.magnitude := by
  rw [magnitude_eq]
  positivity

theorem abs_value (double : Double) : |double.value| = double.magnitude := by
  rw [value, apply_ite abs, abs_neg, ite_self, abs_of_nonneg double.magnitude_nonneg]

theorem magnitude_of_value {double : Double} {whole : ℤ} (same : double.value = whole) :
    double.magnitude = whole.natAbs := by
  rw [← abs_value, same, Nat.cast_natAbs, Int.cast_abs]

theorem round_of_magnitude {double : Double} {whole : Nat} (same : double.magnitude = whole) :
    BinaryFormat.double.round whole 1 = some (double.significand, double.exponent) := by
  rw [← BinaryFormat.round_of_admits double.admitted]
  apply BinaryFormat.round_congr _ Nat.one_pos (twoTo_pos _)
  rw [Nat.mul_one]
  exact (magnitude_eq_natCast_iff.mp same).symm

theorem toInt?_eq_some_iff {double : Double} {whole : ℤ} :
    double.toInt? = some whole ↔ double.value = whole := by
  unfold toInt?
  split
  · rename_i divides
    have whole' : double.magnitude = (double.numerator / double.denominator : Nat) :=
      magnitude_eq_natCast_iff.mpr
        (Nat.div_mul_cancel (Nat.dvd_of_mod_eq_zero divides)).symm
    rw [value, whole', Option.some.injEq]
    generalize double.numerator / double.denominator = quotient
    split_ifs <;> exact_mod_cast Iff.rfl
  · rename_i notDivides
    simp only [reduceCtorEq, false_iff]
    intro same
    have size := magnitude_eq_natCast_iff.mp (magnitude_of_value same)
    exact notDivides (by rw [size, Nat.mul_mod_left])

end Double

section Rounded

variable {numerator denominator significand : Nat} {exponent : ℤ}

theorem round_exact {whole otherSignificand : Nat} {otherExponent : ℤ}
    (rounds : BinaryFormat.double.round whole 1 = some (significand, exponent))
    (short : otherSignificand < twoTo 53) (least : -1074 ≤ otherExponent)
    (point : (otherSignificand : ℚ) * 2 ^ otherExponent = whole) :
    (significand : ℚ) * 2 ^ exponent = whole := by
  have nearest :=
    BinaryFormat.round_nearest (by decide) Nat.one_pos rounds short least
  rw [Nat.cast_one, div_one, point, sub_self, abs_zero, abs_nonpos_iff, sub_eq_zero] at nearest
  exact nearest.symm

theorem exists_whole_of_round {whole : Nat}
    (rounds : BinaryFormat.double.round whole 1 = some (significand, exponent)) :
    ∃ rounded : Nat, (significand : ℚ) * 2 ^ exponent = rounded := by
  rcases Nat.lt_or_ge whole (twoTo 53) with short | long
  · exact ⟨whole, round_exact rounds short (by decide : (-1074 : ℤ) ≤ 0) (by simp)⟩
  · -- A point off the integers lies below 2^52, and then 2^53 would be nearer.
    have notNegative : 0 ≤ exponent := by
      by_contra negative
      have bits : significand < twoTo 53 :=
        (BinaryFormat.admits_of_round (by decide) (by decide) Nat.one_pos rounds).1
      have half : (2 : ℚ) ^ exponent ≤ 2 ^ (-1 : ℤ) :=
        zpow_le_zpow_right₀ one_le_two (by omega)
      have below : (significand : ℚ) * 2 ^ exponent ≤ 2 ^ 53 * 2 ^ (-1 : ℤ) := by
        apply mul_le_mul _ half (zpow_nonneg zero_le_two _) (pow_nonneg zero_le_two _)
        rw [← twoTo_cast]
        exact_mod_cast bits.le
      have atLeast : (2 : ℚ) ^ 52 * 2 ^ (1 : ℤ) ≤ whole := by
        rw [← twoTo_cast]
        exact_mod_cast long
      have low : (significand : ℚ) * 2 ^ exponent ≤ whole :=
        below.trans (le_trans (by norm_num) atLeast)
      have nearer := BinaryFormat.round_nearest (by decide) Nat.one_pos rounds
        (by decide : twoTo 52 < twoTo 53) (by decide : (-1074 : ℤ) ≤ 1)
      rw [Nat.cast_one, div_one, twoTo_cast, abs_of_nonneg (sub_nonneg.mpr atLeast),
        abs_of_nonneg (sub_nonneg.mpr low)] at nearer
      norm_num at below nearer
      linarith
    obtain ⟨power, rfl⟩ := Int.eq_ofNat_of_zero_le notNegative
    exact ⟨significand * twoTo power, by rw [zpow_natCast, Nat.cast_mul, twoTo_cast]⟩

end Rounded

/-! A whole number of moderate size has a nearest double, and it is a whole number again. -/

/-- The double stands for a whole number that no double is nearer to. -/
structure Double.Nearest (double : Double) (whole carried : ℤ) : Prop where
  toInt? : double.toInt? = some carried
  nearest (other : Double) : |(whole : ℚ) - carried| ≤ |(whole : ℚ) - other.value|

theorem Double.Nearest.eq_of_value {double other : Double} {whole carried : ℤ}
    (near : double.Nearest whole carried) (same : other.value = whole) : carried = whole := by
  have nearest := near.nearest other
  rw [same, sub_self, abs_zero, abs_nonpos_iff, sub_eq_zero] at nearest
  exact_mod_cast nearest.symm

theorem Double.magnitudes_nearer (double : Double) {whole : ℤ} {magnitude : Nat}
    (size : whole.natAbs = magnitude) :
    |(magnitude : ℚ) - double.magnitude| ≤ |(whole : ℚ) - double.value| := by
  rw [← size, Nat.cast_natAbs, Int.cast_abs, ← double.abs_value]
  exact abs_abs_sub_abs_le _ _

namespace Number

theorem ofQuotient_of_round {numerator denominator : Nat} (nonzero : 0 < denominator)
    {significand : Nat} {exponent : ℤ}
    (rounds : BinaryFormat.double.round numerator denominator = some (significand, exponent))
    (negative : Bool) :
    ∃ double : Double, ofQuotient negative numerator denominator = .finite double ∧
      double.negative = negative ∧ double.significand = significand ∧
        double.exponent = exponent := by
  have admitted := BinaryFormat.admits_of_round (by decide) (by decide) nonzero rounds
  exact ⟨⟨negative, significand, exponent, admitted⟩, by simp [ofQuotient, rounds, admitted],
    rfl, rfl, rfl⟩

theorem exists_ofQuotient {magnitude : Nat} (moderate : magnitude < twoTo 1023)
    (negative : Bool) :
    ∃ double : Double, ofQuotient negative magnitude 1 = .finite double ∧
      double.negative = negative ∧
        BinaryFormat.double.round magnitude 1 = some (double.significand, double.exponent) := by
  have inRange : (magnitude : ℚ) / (1 : Nat) <
      2 ^ (BinaryFormat.double.greatestExponent + (BinaryFormat.double.precision - 1 : Nat)) := by
    have binade : BinaryFormat.double.greatestExponent +
        (BinaryFormat.double.precision - 1 : Nat) = (1023 : Nat) := rfl
    rw [Nat.cast_one, div_one, binade, zpow_natCast, ← twoTo_cast]
    exact_mod_cast moderate
  obtain ⟨⟨significand, exponent⟩, rounds⟩ :=
    BinaryFormat.exists_round Nat.one_pos (by decide) inRange
  obtain ⟨double, made, sign, rfl, rfl⟩ := ofQuotient_of_round Nat.one_pos rounds negative
  exact ⟨double, made, sign, rounds⟩

theorem exists_nearest {magnitude : Nat} (moderate : magnitude < twoTo 1023)
    (negative : Bool) {whole : ℤ}
    (signs : whole = if negative then -(magnitude : ℤ) else magnitude) :
    ∃ double carried, ofQuotient negative magnitude 1 = .finite double ∧
      double.Nearest whole carried := by
  obtain ⟨double, made, sign, rounds⟩ := exists_ofQuotient moderate negative
  obtain ⟨rounded, same⟩ := exists_whole_of_round rounds
  have value : double.value = ((if negative then -(rounded : ℤ) else rounded : ℤ) : ℚ) := by
    rw [Double.value, sign, Double.magnitude, same]
    split_ifs <;> push_cast <;> rfl
  refine ⟨double, _, made, Double.toInt?_eq_some_iff.mpr value, fun other => ?_⟩
  have nearest := BinaryFormat.round_nearest (by decide) Nat.one_pos rounds
    other.admitted.1 other.admitted.2.1
  have size : whole.natAbs = magnitude := by
    rw [signs]
    split_ifs <;> simp
  refine le_trans (le_of_eq ?_) (nearest.trans ?_)
  · rw [signs, same]
    split_ifs <;> push_cast <;> simp [abs_sub_comm, neg_add_eq_sub]
  · rw [Nat.cast_one, div_one]
    exact other.magnitudes_nearer size

end Number

theorem twoTo_lt_twoTo {low high : Nat} (above : low < high) : twoTo low < twoTo high :=
  Nat.pow_lt_pow_right Nat.one_lt_two above

theorem Double.magnitude_of_round {double : Double} {magnitude : Nat}
    (short : magnitude ≤ twoTo 53)
    (rounds : BinaryFormat.double.round magnitude 1 =
      some (double.significand, double.exponent)) : double.magnitude = magnitude := by
  rcases Nat.lt_or_eq_of_le short with below | same
  · exact round_exact rounds below (by decide : (-1074 : ℤ) ≤ 0) (by simp)
  · exact round_exact rounds (by decide : twoTo 52 < twoTo 53) (by decide : (-1074 : ℤ) ≤ 1)
      (by rw [same, twoTo_cast, twoTo_cast]; norm_num)

theorem Double.exists_value {whole : ℤ} (short : whole.natAbs ≤ twoTo 53) :
    ∃ double : Double, double.value = whole := by
  have moderate : whole.natAbs < twoTo 1023 :=
    short.trans_lt (twoTo_lt_twoTo (by decide : 53 < 1023))
  obtain ⟨double, -, sign, rounds⟩ :=
    Number.exists_ofQuotient moderate (decide (whole < 0))
  have exact := magnitude_of_round short rounds
  refine ⟨double, ?_⟩
  rw [value, exact, sign, Nat.cast_natAbs, Int.cast_abs]
  simp only [decide_eq_true_eq]
  split_ifs with negative
  · rw [abs_of_neg (by exact_mod_cast negative), neg_neg]
  · exact abs_of_nonneg (by exact_mod_cast not_lt.mp negative)

/-! Text of an integer is read as the double nearest to it. -/

theorem BinaryFormat.roundDecimal_natural (format : BinaryFormat) (digits : Nat) :
    format.roundDecimal digits 0 = format.round digits 1 := by
  rcases Nat.eq_zero_or_pos digits with zero | positive
  · simp [roundDecimal, round, zero]
  · rw [roundDecimal_eq_round format positive.ne' (by omega) (by omega)]
    simp [tenTo]

namespace Number

theorem ofDecimal_natural (negative : Bool) (digits : Nat) :
    ofDecimal .double negative digits 0 = ofQuotient negative digits 1 := by
  rw [ofDecimal, BinaryFormat.roundDecimal_natural]
  cases rounds : BinaryFormat.double.round digits 1 with
  | none => simp [ofQuotient, rounds]
  | some rounded =>
      obtain ⟨significand, exponent⟩ := rounded
      have admitted :=
        BinaryFormat.admits_of_round (by decide) (by decide) Nat.one_pos rounds
      simp only [ofQuotient, rounds, BinaryFormat.round_of_admits admitted]

theorem read?_of_readInteger? {text : List Char} {whole : ℤ}
    (reads : readInteger? text = some whole) :
    ∃ negative : Bool, ∃ magnitude : Nat,
      whole = (if negative then -(magnitude : ℤ) else magnitude) ∧
        read? text = some (ofQuotient negative magnitude 1) := by
  rcases sign : splitSign text with ⟨negative, digits⟩
  simp only [readInteger?, sign, readNatural?, Option.bind_eq_some_iff,
    Option.ite_none_right_eq_some, Option.some.injEq, bind, pure,
    Option.map_eq_some_iff] at reads
  obtain ⟨_, ⟨magnitude, ⟨⟨filled, allDigits⟩, rfl⟩, rfl⟩, rfl⟩ := reads
  refine ⟨negative, _, rfl, ?_⟩
  obtain ⟨first, rest, rfl⟩ := List.exists_cons_of_ne_nil filled
  have isDigit := List.all_eq_true.mp allDigits
  simp only [read?, readAs?, sign, namedNumber?_of_isDigit (isDigit first (by simp)),
    readDecimal?_of_digits filled isDigit, Option.map_some, ofDecimal_natural]

theorem read?_integerText (whole : ℤ) : read? (integerText whole) = some (ofInt whole) := by
  have written : integerText whole = signed (decide (whole < 0)) (naturalText whole.natAbs) := by
    simp [integerText, signed]
  have digits := naturalText_all_isDigit whole.natAbs
  have filled := naturalText_ne_nil whole.natAbs
  obtain ⟨first, rest, text⟩ := List.exists_cons_of_ne_nil filled
  rw [written, text, readAs?_signed (digits first (by simp [text])), ← text,
    readDecimal?_of_digits filled digits, Decimal.value_naturalText, Option.map_some]
  exact congrArg some (ofDecimal_natural _ _)

end Number

/-! The shortest text of a whole double shows no places behind the point, and up to 2^53 it is
the decimal text of the integer. -/

theorem naturalText_mul_tenTo {value : Nat} (positive : 0 < value) (zeros : Nat) :
    naturalText (value * tenTo zeros) = naturalText value ++ List.replicate zeros '0' := by
  induction zeros with
  | zero => simp [tenTo]
  | succ zeros ih =>
      have filled : 0 < value * tenTo zeros := Nat.mul_pos positive (tenTo_pos zeros)
      have next := Nat.toDigits_append_toDigits (b := 10) (d := 0) (by decide) filled (by decide)
      have shift : value * tenTo (zeros + 1) = 10 * (value * tenTo zeros) + 0 := by
        simp only [tenTo, Nat.pow_eq]
        ring
      rw [shift, naturalText, ← next, List.replicate_succ', ← List.append_assoc, ← ih]
      rfl

namespace Double

variable {double : Double} {tie : Tie}

theorem gridPoint_exponent {grid : ℤ} {point : Decimal}
    (found : double.gridPoint tie grid = some point) : point.exponent = grid := by
  simp only [gridPoint] at found
  split_ifs at found <;> simp only [Option.some.injEq] at found <;> rw [← found]

theorem readsAs_of_magnitude {whole : Nat} (same : double.magnitude = whole) :
    (Decimal.mk whole 0).ReadsAs double := by
  rw [Decimal.ReadsAs, BinaryFormat.roundDecimal_natural, round_of_magnitude same]

theorem exists_gridPoint_zero (tie : Tie) {whole : Nat} (same : double.magnitude = whole) :
    ∃ point, double.gridPoint tie 0 = some point := by
  have steps : (double.gridSteps 0).1 = whole := by
    have count := magnitude_eq_natCast_iff.mp same
    simp only [gridSteps, neg_zero, Int.toNat_zero, tenTo, Nat.pow_eq, pow_zero, Nat.mul_one, count]
    exact Nat.mul_div_cancel _ (twoTo_pos _)
  have reads := readsAs_of_magnitude same
  simp only [gridPoint, steps, reads, if_true]
  split <;> exact ⟨_, rfl⟩

theorem shortestFrom_exponent {whole : Nat} (same : double.magnitude = whole) {steps : Nat}
    (coarse : 0 ≤ double.exactGrid + steps) : 0 ≤ (double.shortestFrom tie steps).exponent := by
  induction steps with
  | zero => simpa [shortestFrom, exactDecimal] using coarse
  | succ steps ih =>
      unfold shortestFrom
      cases found : double.gridPoint tie (double.exactGrid + (steps + 1 : Nat)) with
      | some point =>
          rw [Option.getD_some, gridPoint_exponent found]
          exact coarse
      | none =>
          refine ih ?_
          have notUnits : double.exactGrid + (steps + 1 : Nat) ≠ 0 := by
            intro units
            obtain ⟨point, some⟩ := exists_gridPoint_zero tie same
            rw [units, some] at found
            simp at found
          omega

theorem shortest_exponent (tie : Tie) {whole : Nat} (same : double.magnitude = whole) :
    0 ≤ (double.shortest tie).exponent := by
  unfold shortest
  split
  · exact le_refl _
  · rename_i nonzero
    -- grids are tried from the coarsest to the finest, and the grid of units is among them
    apply shortestFrom_exponent same
    have atLeastOne : (2 : ℚ) ^ (0 : ℤ) ≤ double.magnitude := by
      have positive : (0 : ℚ) < double.magnitude :=
        mul_pos (by exact_mod_cast Nat.pos_of_ne_zero nonzero) (zpow_pos zero_lt_two _)
      rw [same] at positive ⊢
      exact_mod_cast Nat.one_le_iff_ne_zero.mpr (by exact_mod_cast positive.ne')
    have bits : 0 < double.exponent + double.significand.log2 + 1 := by
      have upper : (double.significand : ℚ) < 2 ^ ((double.significand.log2 : ℤ) + 1) := by
        exact_mod_cast Nat.lt_log2_self
      rw [← zpow_lt_zpow_iff_right₀ (one_lt_two (α := ℚ))]
      calc (2 : ℚ) ^ (0 : ℤ) ≤ double.significand * 2 ^ double.exponent := atLeastOne
        _ < 2 ^ ((double.significand.log2 : ℤ) + 1) * 2 ^ double.exponent :=
            mul_lt_mul_of_pos_right upper (zpow_pos zero_lt_two _)
        _ = 2 ^ (double.exponent + double.significand.log2 + 1) := by
            rw [← zpow_add₀ two_ne_zero]
            congr 1
            ring
    have coarsest : 0 ≤ double.coarsestGrid := by
      simp only [coarsestGrid]
      omega
    have finest : double.exactGrid ≤ 0 := min_le_right _ _
    omega

theorem eq_of_readsAs {digits whole : Nat} (short : whole < twoTo 53)
    (same : double.magnitude = whole) (reads : (Decimal.mk digits 0).ReadsAs double) :
    digits = whole := by
  rw [Decimal.ReadsAs, BinaryFormat.roundDecimal_natural] at reads
  rcases Nat.lt_or_ge digits (twoTo 53) with below | above
  · have exact := round_exact reads below (by decide : (-1074 : ℤ) ≤ 0) (by simp)
    have both : (digits : ℚ) = whole := exact.symm.trans same
    exact_mod_cast both
  · -- The double 2^53 lies between the two.
    have nearer := BinaryFormat.round_nearest (by decide) Nat.one_pos reads
      (by decide : twoTo 52 < twoTo 53) (by decide : (-1074 : ℤ) ≤ 1)
    have point : (double.significand : ℚ) * 2 ^ double.exponent = whole := same
    have low : (whole : ℚ) < 2 ^ 52 * 2 ^ (1 : ℤ) := by
      rw [← twoTo_cast]
      exact_mod_cast short
    have high : (2 : ℚ) ^ 52 * 2 ^ (1 : ℤ) ≤ digits := by
      rw [← twoTo_cast]
      exact_mod_cast above
    rw [Nat.cast_one, div_one, twoTo_cast, point, abs_of_nonneg (sub_nonneg.mpr high),
      abs_of_nonneg (sub_nonneg.mpr (low.le.trans high))] at nearer
    exact absurd low (not_lt.mpr (by linarith))

theorem plainText_shortest {whole : Nat} (short : whole < twoTo 53)
    (same : double.magnitude = whole) : (double.shortest tie).plainText = naturalText whole := by
  by_cases zero : double.significand = 0
  · have nothing : (whole : ℚ) = 0 := by rw [← same, magnitude, zero, Nat.cast_zero, zero_mul]
    rw [shortest, if_pos zero, Nat.cast_eq_zero.mp nothing]
    rfl
  · have units := shortest_exponent tie same
    have written := eq_of_readsAs short same
      (BinaryFormat.roundDecimal_whole units (double.shortest_readsAs tie))
    have positive : 0 < (double.shortest tie).digits := by
      apply Nat.pos_of_ne_zero
      intro none
      rw [none, Nat.zero_mul] at written
      rw [← written, Nat.cast_zero, magnitude, mul_eq_zero, Nat.cast_eq_zero] at same
      exact same.elim zero (zpow_pos zero_lt_two _).ne'
    rw [Decimal.plainText, if_pos units, ← naturalText_mul_tenTo positive, written]

end Double

namespace Number

theorem text_ofInt {whole : ℤ} (short : whole.natAbs < twoTo 53) :
    (ofInt whole).text = String.ofList (integerText whole) := by
  have moderate := short.trans (twoTo_lt_twoTo (by decide : 53 < 1023))
  obtain ⟨double, made, sign, rounds⟩ := exists_ofQuotient moderate (decide (whole < 0))
  rw [ofInt, made, text, plainText, sign,
    Double.plainText_shortest short (Double.magnitude_of_round short.le rounds), signed,
    integerText]
  simp only [decide_eq_true_eq]

end Number

end KeyedStore
