import KeyedStore.Number.Reader
import KeyedStore.Number.Text
import KeyedStore.Proofs.Number.Rounding
import KeyedStore.Text.Blank
import Mathlib.Data.List.TakeWhile

/-! Number text reads back. The digits that are written round to the double they are
written for, and the reader gives that double again, sign of zero included. -/

namespace KeyedStore

theorem tenTo_pos (exponent : Nat) : 0 < tenTo exponent :=
  Nat.pow_pos (by decide)

theorem fiveTo_pos (exponent : Nat) : 0 < fiveTo exponent :=
  Nat.pow_pos (by decide)

namespace BinaryFormat

theorem roundDecimal_eq_round (format : BinaryFormat) {digits : Nat} (nonzero : digits ≠ 0)
    {exponent : ℤ} (notLarge : exponent ≤ 310)
    (notSmall : -1075 ≤ (digits.log2 : ℤ) + 1 + 3 * exponent) :
    format.roundDecimal digits exponent =
      format.round (digits * tenTo exponent.toNat) (tenTo (-exponent).toNat) := by
  simp [roundDecimal, nonzero, not_lt.mpr notLarge, not_lt.mpr notSmall]

theorem roundDecimal_whole {format : BinaryFormat} {digits : Nat} {exponent : ℤ}
    (whole : 0 ≤ exponent) {rounded : Nat × ℤ}
    (rounds : format.roundDecimal digits exponent = some rounded) :
    format.roundDecimal (digits * tenTo exponent.toNat) 0 = some rounded := by
  by_cases zero : digits = 0
  · rw [← rounds]
    simp [roundDecimal, zero]
  · have notLarge : exponent ≤ 310 := by
      by_contra large
      simp [roundDecimal, zero, not_le.mp large] at rounds
    have nonzero : digits * tenTo exponent.toNat ≠ 0 :=
      Nat.mul_ne_zero zero (tenTo_pos _).ne'
    have one : tenTo (-exponent).toNat = tenTo (0 : ℤ).toNat := by
      congr 1
      omega
    rw [roundDecimal_eq_round format zero notLarge (by omega), one] at rounds
    rw [roundDecimal_eq_round format nonzero (by omega) (by omega)]
    simpa [tenTo] using rounds

end BinaryFormat

namespace Double

theorem least_exponent (double : Double) : -1074 ≤ double.exponent :=
  double.admitted.2.1

theorem exponent_of_zero {double : Double} (zero : double.significand = 0) :
    double.exponent = -1074 := by
  obtain ⟨-, -, -, filled | least⟩ := double.admitted
  · have positive := twoTo_pos (BinaryFormat.double.precision - 1)
    omega
  · exact least

theorem twoTo_mul_fiveTo (exponent : Nat) :
    twoTo exponent * fiveTo exponent = tenTo exponent :=
  (Nat.mul_pow 2 5 exponent).symm

theorem two_mul_le_log2_fiveTo (exponent : Nat) {factor : Nat} (positive : 0 < factor) :
    2 * exponent ≤ (factor * fiveTo exponent).log2 := by
  have nonzero : factor * fiveTo exponent ≠ 0 :=
    Nat.mul_ne_zero positive.ne' (fiveTo_pos _).ne'
  rw [Nat.le_log2 nonzero]
  calc 2 ^ (2 * exponent) = 4 ^ exponent := by rw [Nat.pow_mul]
    _ ≤ 5 ^ exponent := Nat.pow_le_pow_left (by decide) exponent
    _ ≤ factor * fiveTo exponent := Nat.le_mul_of_pos_left _ positive

theorem exactDecimal_readsAs {double : Double} (nonzero : double.significand ≠ 0) :
    double.exactDecimal.ReadsAs double := by
  have least := double.least_exponent
  have powerPositive := twoTo_pos double.exponent.toNat
  have positive : 0 < double.significand * twoTo double.exponent.toNat :=
    Nat.mul_pos (Nat.pos_of_ne_zero nonzero) powerPositive
  have long := two_mul_le_log2_fiveTo (-double.exponent).toNat positive
  have digitsNonzero : double.exactDecimal.digits ≠ 0 :=
    Nat.mul_ne_zero positive.ne' (fiveTo_pos _).ne'
  have whole : (min double.exponent 0).toNat = 0 := by omega
  have places : (-(min double.exponent 0)).toNat = (-double.exponent).toNat := by omega
  unfold Decimal.ReadsAs
  rw [BinaryFormat.roundDecimal_eq_round _ digitsNonzero]
  · rw [← BinaryFormat.round_of_admits double.admitted]
    apply BinaryFormat.round_congr _ (tenTo_pos _) (twoTo_pos _)
    have one : tenTo 0 = 1 := rfl
    simp only [exactDecimal, exactGrid, whole, places, one, Nat.mul_one]
    rw [Nat.mul_assoc, Nat.mul_comm (fiveTo _), twoTo_mul_fiveTo]
  · simp only [exactDecimal, exactGrid]
    omega
  · simp only [exactDecimal, exactGrid]
    omega

theorem gridPoint_readsAs {tie : Tie} {double : Double} {grid : ℤ} {point : Decimal}
    (found : double.gridPoint tie grid = some point) : point.ReadsAs double := by
  simp only [gridPoint] at found
  split at found
  · rename_i lowerReads
    split at found
    · rename_i upperReads
      simp only [Option.some.injEq] at found
      rw [← found]
      split
      · exact upperReads
      · exact lowerReads
    · simp only [Option.some.injEq] at found
      exact found ▸ lowerReads
  · split at found
    · rename_i upperReads
      simp only [Option.some.injEq] at found
      exact found ▸ upperReads
    · simp at found

theorem shortestFrom_readsAs (tie : Tie) {double : Double} (nonzero : double.significand ≠ 0)
    (steps : Nat) : (double.shortestFrom tie steps).ReadsAs double := by
  induction steps with
  | zero => exact exactDecimal_readsAs nonzero
  | succ steps ih =>
      unfold shortestFrom
      cases found : double.gridPoint tie (double.exactGrid + (steps + 1 : Nat)) with
      | none => exact ih
      | some point => exact gridPoint_readsAs found

theorem shortest_readsAs (tie : Tie) (double : Double) :
    (double.shortest tie).ReadsAs double := by
  by_cases zero : double.significand = 0
  · simp only [shortest, zero, if_true, Decimal.ReadsAs, BinaryFormat.roundDecimal,
      exponent_of_zero zero]
    rfl
  · simp only [shortest, zero, if_false]
    exact shortestFrom_readsAs tie zero _

end Double

theorem naturalText_all_isDigit (value : Nat) : ∀ char ∈ naturalText value, char.isDigit = true :=
  fun _ member => isDigit_of_mem_naturalText member

theorem readNatural?_of_digits {text : List Char} (filled : text ≠ [])
    (digits : ∀ char ∈ text, char.isDigit = true) :
    readNatural? text = some (Nat.ofDigitChars 10 text 0) := by
  simp [readNatural?, filled, List.all_eq_true.mpr digits]

theorem readDecimal?_of_digits {text : List Char} (filled : text ≠ [])
    (digits : ∀ char ∈ text, char.isDigit = true) :
    readDecimal? text = some (Nat.ofDigitChars 10 text 0, 0) := by
  have taken : text.takeWhile Char.isDigit = text :=
    List.takeWhile_eq_self_iff.mpr digits
  have dropped : text.dropWhile Char.isDigit = [] :=
    List.dropWhile_eq_nil_iff.mpr digits
  simp [readDecimal?, taken, dropped, splitFraction, readNatural?_of_digits filled digits,
    readExponent?]

theorem readDecimal?_of_point {whole fraction : List Char} (filled : whole ≠ [])
    (wholeDigits : ∀ char ∈ whole, char.isDigit = true)
    (fractionDigits : ∀ char ∈ fraction, char.isDigit = true) :
    readDecimal? (whole ++ '.' :: fraction) =
      some (Nat.ofDigitChars 10 (whole ++ fraction) 0, -(fraction.length : ℤ)) := by
  have point : ('.' : Char).isDigit = false := by decide
  have taken : (whole ++ '.' :: fraction).takeWhile Char.isDigit = whole := by
    simp [List.takeWhile_append_of_pos wholeDigits, point]
  have dropped : (whole ++ '.' :: fraction).dropWhile Char.isDigit = '.' :: fraction := by
    simp [List.dropWhile_append_of_pos wholeDigits, point]
  have fractionTaken : fraction.takeWhile Char.isDigit = fraction :=
    List.takeWhile_eq_self_iff.mpr fractionDigits
  have fractionDropped : fraction.dropWhile Char.isDigit = [] :=
    List.dropWhile_eq_nil_iff.mpr fractionDigits
  have digits : ∀ char ∈ whole ++ fraction, char.isDigit = true :=
    List.forall_mem_append.mpr ⟨wholeDigits, fractionDigits⟩
  have bothFilled : whole ++ fraction ≠ [] := by simp [filled]
  simp [readDecimal?, taken, dropped, splitFraction, fractionTaken, fractionDropped,
    readNatural?_of_digits bothFilled digits, readExponent?]

theorem isDigit_of_mem_zeros {count : Nat} :
    ∀ char ∈ List.replicate count '0', char.isDigit = true := by
  intro char member
  rw [List.eq_of_mem_replicate member]
  decide

namespace Decimal

theorem value_naturalText (value : Nat) : Nat.ofDigitChars 10 (naturalText value) 0 = value :=
  Nat.ofDigitChars_ten_toDigits

theorem plainText_of_whole {decimal : Decimal} (whole : 0 ≤ decimal.exponent) :
    decimal.plainText ≠ [] ∧ (∀ char ∈ decimal.plainText, char.isDigit = true) ∧
      Nat.ofDigitChars 10 decimal.plainText 0 =
        decimal.digits * tenTo decimal.exponent.toNat := by
  simp only [plainText, whole, if_true]
  refine ⟨by simp [naturalText_ne_nil], ?_, ?_⟩
  · exact List.forall_mem_append.mpr ⟨naturalText_all_isDigit _, isDigit_of_mem_zeros⟩
  · rw [Nat.ofDigitChars_append, value_naturalText, Nat.ofDigitChars_replicate_zero,
      Nat.mul_comm]
    rfl

theorem plainText_of_fractional {decimal : Decimal} (fractional : ¬0 ≤ decimal.exponent) :
    ∃ whole fraction, decimal.plainText = whole ++ '.' :: fraction ∧ whole ≠ [] ∧
      (∀ char ∈ whole, char.isDigit = true) ∧ (∀ char ∈ fraction, char.isDigit = true) ∧
      Nat.ofDigitChars 10 (whole ++ fraction) 0 = decimal.digits ∧
      -(fraction.length : ℤ) = decimal.exponent := by
  have digits := naturalText_all_isDigit decimal.digits
  simp only [plainText, fractional, if_false]
  split
  · rename_i short
    refine ⟨_, _, rfl, ?_, ?_, ?_, ?_, ?_⟩
    · apply List.ne_nil_of_length_pos
      rw [List.length_take]
      omega
    · exact fun char member => digits char (List.mem_of_mem_take member)
    · exact fun char member => digits char (List.mem_of_mem_drop member)
    · rw [List.take_append_drop, value_naturalText]
    · rw [List.length_drop]
      omega
  · rename_i long
    have zeroDigit : ∀ char ∈ ['0'], char.isDigit = true :=
      List.forall_mem_singleton.mpr (by decide)
    refine ⟨['0'], _, rfl, by simp, zeroDigit, ?_, ?_, ?_⟩
    · exact List.forall_mem_append.mpr ⟨isDigit_of_mem_zeros, digits⟩
    · have zero : Nat.ofDigitChars 10 ['0'] 0 = 0 := by decide
      rw [Nat.ofDigitChars_append, zero, Nat.ofDigitChars_append,
        Nat.ofDigitChars_replicate_zero, Nat.mul_zero, value_naturalText]
    · rw [List.length_append, List.length_replicate]
      omega

theorem readDecimal?_plainText (decimal : Decimal) :
    readDecimal? decimal.plainText =
      if 0 ≤ decimal.exponent then
        some (decimal.digits * tenTo decimal.exponent.toNat, 0)
      else some (decimal.digits, decimal.exponent) := by
  by_cases whole : 0 ≤ decimal.exponent
  · obtain ⟨filled, digits, value⟩ := plainText_of_whole whole
    rw [readDecimal?_of_digits filled digits, value, if_pos whole]
  · obtain ⟨front, fraction, text, filled, frontDigits, fractionDigits, value, places⟩ :=
      plainText_of_fractional whole
    rw [text, readDecimal?_of_point filled frontDigits fractionDigits, value, places,
      if_neg whole]

theorem plainText_head (decimal : Decimal) :
    ∃ first rest, decimal.plainText = first :: rest ∧ first.isDigit = true := by
  by_cases whole : 0 ≤ decimal.exponent
  · obtain ⟨filled, digits, -⟩ := plainText_of_whole whole
    obtain ⟨first, rest, text⟩ := List.exists_cons_of_ne_nil filled
    exact ⟨first, rest, text, digits first (by simp [text])⟩
  · obtain ⟨front, fraction, text, filled, frontDigits, -⟩ := plainText_of_fractional whole
    obtain ⟨first, rest, frontText⟩ := List.exists_cons_of_ne_nil filled
    refine ⟨first, rest ++ '.' :: fraction, ?_, frontDigits first (by simp [frontText])⟩
    rw [text, frontText]
    rfl

theorem mem_plainText {decimal : Decimal} {char : Char} (member : char ∈ decimal.plainText) :
    char.isDigit = true ∨ char = '.' := by
  by_cases whole : 0 ≤ decimal.exponent
  · exact .inl ((plainText_of_whole whole).2.1 char member)
  · obtain ⟨front, fraction, text, -, frontDigits, fractionDigits, -⟩ :=
      plainText_of_fractional whole
    rw [text, List.mem_append, List.mem_cons] at member
    rcases member with inFront | point | inFraction
    · exact .inl (frontDigits char inFront)
    · exact .inr point
    · exact .inl (fractionDigits char inFraction)

end Decimal

theorem namedNumber?_of_isDigit {first : Char} (digit : first.isDigit = true)
    (negative : Bool) (rest : List Char) : namedNumber? negative (first :: rest) = none := by
  have kept : first.toLower = first := by
    have notUpper : ¬(first.val ≥ 'A'.val ∧ first.val ≤ 'Z'.val) := by
      simp only [Char.isDigit, Bool.and_eq_true, decide_eq_true_eq] at digit
      intro upper
      have low := UInt32.le_trans upper.1 digit.2
      exact absurd low (by decide)
    exact dif_neg notUpper
  have notN : first ≠ 'n' := fun same => absurd (same ▸ digit) (by decide)
  have notI : first ≠ 'i' := fun same => absurd (same ▸ digit) (by decide)
  simp [namedNumber?, kept, notN, notI]

namespace Number

theorem ofDecimal_of_readsAs {double : Double} {digits : Nat} {exponent : ℤ}
    (reads : (Decimal.mk digits exponent).ReadsAs double) :
    ofDecimal .double double.negative digits exponent = .finite double := by
  have rounds := BinaryFormat.round_of_admits double.admitted
  unfold Decimal.ReadsAs at reads
  simp only [ofDecimal, reads, ofQuotient, rounds, double.admitted, dif_pos]

theorem readAs?_signed {first : Char} (digit : first.isDigit = true) (negative : Bool)
    (rest : List Char) :
    read? (signed negative (first :: rest)) =
      (readDecimal? (first :: rest)).map fun (digits, exponent) =>
        ofDecimal .double negative digits exponent := by
  have sign : splitSign (signed negative (first :: rest)) = (negative, first :: rest) := by
    cases negative with
    | true => rfl
    | false => exact splitSign_of_isDigit digit rest
  simp only [read?, readAs?, sign, namedNumber?_of_isDigit digit]

theorem read?_plainText (double : Double) :
    read? (Number.finite double).plainText = some (.finite double) := by
  have reads := double.shortest_readsAs .up
  obtain ⟨first, rest, text, digit⟩ := (double.shortest .up).plainText_head
  simp only [plainText, text, readAs?_signed digit]
  rw [← text, Decimal.readDecimal?_plainText]
  by_cases whole : 0 ≤ (double.shortest .up).exponent
  · have wholeReads := BinaryFormat.roundDecimal_whole whole reads
    simp only [whole, if_true, Option.map_some]
    exact congrArg some (ofDecimal_of_readsAs wholeReads)
  · simp only [whole, if_false, Option.map_some]
    exact congrArg some (ofDecimal_of_readsAs reads)

end Number

end KeyedStore
