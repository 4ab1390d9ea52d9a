import KeyedStore.Proofs.Number.Whole
import KeyedStore.Proofs.Value.Json
import KeyedStore.Proofs.Value.Same

/-! Plain trees of values. A number is written as an integer where it is one and a signed word
holds it, up to the very end of the range, and as itself elsewhere. Both are exact, so a finite
value is read back as it was, but for the sign of its zeros, which an integer does not have. -/

namespace KeyedStore

namespace Double

variable {double : Double} {whole : ℤ}

def unsignZero (double : Double) : Double :=
  if double.significand = 0 then .zero false else double

theorem same_unsignZero (double : Double) : double.unsignZero.same double = true := by
  unfold unsignZero
  split
  · rename_i zero
    simp [same, Double.zero, zero, exponent_of_zero zero]
  · simp [same]

theorem unsignZero_of_value_ne_zero (nonzero : double.value ≠ 0) : double.unsignZero = double := by
  apply if_neg
  intro zero
  apply nonzero
  simp [value, magnitude, zero]

theorem sign_of_value (nonzero : double.significand ≠ 0) (same : double.value = whole) :
    decide (whole < 0) = double.negative := by
  have positive : 0 < double.magnitude :=
    mul_pos (by exact_mod_cast Nat.pos_of_ne_zero nonzero) (zpow_pos zero_lt_two _)
  have below : whole < 0 ↔ double.value < 0 := by
    rw [same]
    exact_mod_cast Iff.rfl
  rw [Bool.eq_iff_iff, decide_eq_true_iff, below, value]
  cases double.negative <;> simp [positive, positive.le]

theorem ofInt_of_value (same : double.value = whole) :
    Number.ofInt whole = .finite double.unsignZero := by
  have rounds := round_of_magnitude (magnitude_of_value same)
  simp only [Number.ofInt, Number.ofQuotient, rounds, double.admitted, dif_pos, Number.finite.injEq]
  by_cases zero : double.significand = 0
  · have none : whole = 0 := by
      have nothing : double.value = 0 := by simp [value, magnitude, zero]
      exact_mod_cast same.symm.trans nothing
    simp [unsignZero, zero, none, Double.zero, exponent_of_zero zero]
  · simp only [unsignZero, if_neg zero, sign_of_value zero same]

theorem abs_value_lt_iff (same : double.value = whole) :
    |double.value| < 2 ^ 63 ↔ whole.natAbs < signedBound := by
  have bound : ((signedBound : Nat) : ℚ) = 2 ^ 63 := by norm_num [signedBound]
  rw [abs_value, magnitude_of_value same, ← bound, Nat.cast_lt]

/-- How the number of a double stands in a tree: as an integer exactly if the double is one of
magnitude below 2^63, and then as that one, and otherwise as the double. -/
structure WrittenAs (double : Double) (leaf : Json) : Prop where
  integer_iff : (∃ whole, leaf = .integer whole) ↔
    (∃ whole : ℤ, double.value = whole) ∧ |double.value| < 2 ^ 63
  value_eq (whole : ℤ) (integer : leaf = .integer whole) : double.value = whole
  float (other : ¬∃ whole, leaf = .integer whole) : leaf = .float double

end Double

namespace Number

variable {double : Double} {whole : ℤ}

theorem toJson_of_short (held : double.toInt? = some whole)
    (short : whole.natAbs < signedBound) : (finite double).toJson = .integer whole := by
  simp [toJson, toWord?, held, Option.filter, short]

theorem toJson_of_long (held : double.toInt? = some whole)
    (long : signedBound ≤ whole.natAbs) : (finite double).toJson = .float double := by
  simp [toJson, toWord?, held, Option.filter, not_lt.mpr long, Json.ofNumber]

theorem toJson_of_fraction (fraction : double.toInt? = none) :
    (finite double).toJson = .float double := by
  simp [toJson, toWord?, fraction, Json.ofNumber]

theorem toJson_cases (double : Double) :
    (∃ whole : ℤ, double.value = whole ∧ whole.natAbs < signedBound ∧
        (finite double).toJson = .integer whole) ∨
      (∀ whole : ℤ, double.value = whole → signedBound ≤ whole.natAbs) ∧
        (finite double).toJson = .float double := by
  cases held : double.toInt? with
  | none =>
      refine .inr ⟨fun whole same => ?_, toJson_of_fraction held⟩
      simp [Double.toInt?_eq_some_iff.mpr same] at held
  | some whole =>
      have same := Double.toInt?_eq_some_iff.mp held
      rcases Nat.lt_or_ge whole.natAbs signedBound with short | long
      · exact .inl ⟨whole, same, short, toJson_of_short held short⟩
      · refine .inr ⟨fun other sameOther => ?_, toJson_of_long held long⟩
        have equal : other = whole := by exact_mod_cast sameOther.symm.trans same
        exact equal ▸ long

theorem writtenAs_toJson (double : Double) : double.WrittenAs (finite double).toJson := by
  rcases toJson_cases double with ⟨whole, same, short, written⟩ | ⟨long, written⟩
  · have below := (Double.abs_value_lt_iff same).mpr short
    refine ⟨⟨fun _ => ⟨⟨whole, same⟩, below⟩, fun _ => ⟨whole, written⟩⟩, ?_, ?_⟩
    · intro other integer
      rw [written, Json.integer.injEq] at integer
      exact integer ▸ same
    · exact fun other => absurd ⟨whole, written⟩ other
  · have noInteger (whole : ℤ) : (finite double).toJson ≠ .integer whole := by simp [written]
    refine ⟨⟨?_, ?_⟩, fun whole integer => absurd integer (noInteger whole), fun _ => written⟩
    · rintro ⟨whole, integer⟩
      exact absurd integer (noInteger whole)
    · rintro ⟨⟨whole, same⟩, below⟩
      exact absurd ((Double.abs_value_lt_iff same).mp below) (not_lt.mpr (long whole same))

def unsignZero : Number → Number
  | .finite double => .finite double.unsignZero
  | number => number

theorem same_unsignZero {number : Number} (finite : number.isFinite = true) :
    number.unsignZero.same number = true := by
  cases number with
  | finite double => exact double.same_unsignZero
  | infinite negative => simp [isFinite] at finite
  | notANumber => simp [isFinite] at finite

theorem toJson_readsBack : Value.NumbersReadBack toJson unsignZero := by
  intro number finite
  cases number with
  | finite double =>
      rcases toJson_cases double with ⟨whole, same, -, written⟩ | ⟨long, written⟩
      · rw [written, Value.ofJson, Double.ofInt_of_value same, unsignZero]
      · have nonzero : double.value ≠ 0 := by
          intro zero
          have bound := long 0 (by rw [zero, Int.cast_zero])
          exact absurd bound (by decide)
        rw [written, Value.ofJson, unsignZero, Double.unsignZero_of_value_ne_zero nonzero]
  | infinite negative => simp [isFinite] at finite
  | notANumber => simp [isFinite] at finite

end Number

namespace Json

mutual

def numbers : Json → List Json
  | .integer value => [.integer value]
  | .float value => [.float value]
  | .array elements => elementNumbers elements
  | .object members => memberNumbers members
  | _ => []

def elementNumbers : List Json → List Json
  | [] => []
  | element :: rest => element.numbers ++ elementNumbers rest

def memberNumbers : List (String × Json) → List Json
  | [] => []
  | (_, value) :: rest => value.numbers ++ memberNumbers rest

end

theorem numbers_of_number (number : Number) :
    number.toJson.numbers = if number.isFinite then [number.toJson] else [] := by
  cases number with
  | finite double =>
      rcases Number.toJson_cases double with ⟨whole, -, -, written⟩ | ⟨-, written⟩
      · rw [written]
        rfl
      · rw [written]
        rfl
  | infinite negative => rfl
  | notANumber => rfl

end Json

namespace Value

variable (write : Number → Json)

mutual

theorem numbers_toTree (value : Value) :
    (value.toTree write).numbers = value.numbers.flatMap fun number => (write number).numbers := by
  cases value with
  | null => rfl
  | bool flag => rfl
  | number number => simp [toTree, numbers]
  | string text => rfl
  | list elements => exact elementNumbers_toElements elements
  | map fields => exact memberNumbers_toMembers fields

theorem elementNumbers_toElements (elements : List Value) :
    Json.elementNumbers (toElements write elements) =
      (elementNumbers elements).flatMap fun number => (write number).numbers := by
  match elements with
  | [] => rfl
  | element :: rest =>
      rw [toElements, Json.elementNumbers, elementNumbers, List.flatMap_append,
        numbers_toTree element, elementNumbers_toElements rest]

theorem memberNumbers_toMembers (fields : List (String × Value)) :
    Json.memberNumbers (toMembers write fields) =
      (fieldNumbers fields).flatMap fun number => (write number).numbers := by
  match fields with
  | [] => rfl
  | (name, value) :: rest =>
      rw [toMembers, Json.memberNumbers, fieldNumbers, List.flatMap_append,
        numbers_toTree value, memberNumbers_toMembers rest]

end

theorem numbers_toJson (value : Value) :
    value.toJson.numbers = (value.numbers.filter Number.isFinite).map Number.toJson := by
  rw [toJson, numbers_toTree]
  simp only [Json.numbers_of_number]
  induction value.numbers with
  | nil => rfl
  | cons number rest ih => cases finite : number.isFinite <;> simp [finite, ih]

/-- A finite value is read back from its plain tree as an equal value: the same but for the signs
of its zeros, so with every list in its order and every map under its names. The numbers of the
tree are those of the value in their order, less the ones that are not finite. Each is an integer
exactly if it is a whole number below 2^63 in magnitude, and then that whole number, and it is the
same double otherwise. -/
theorem plain_tree_reads_back (value : Value) :
    (value.isFinite = true →
      (ofJson value.toJson).same value = true ∧
        ofJson value.toJson = value.mapNumbers Number.unsignZero) ∧
      List.Forall₂ (fun number leaf => ∃ double, number = .finite double ∧ double.WrittenAs leaf)
        (value.numbers.filter Number.isFinite) value.toJson.numbers := by
  constructor
  · intro finite
    have back : ofJson value.toJson = value.mapNumbers Number.unsignZero :=
      ofJson_toTree Number.toJson_readsBack finite
    refine ⟨?_, back⟩
    rw [back, same_mapNumbers_iff]
    exact fun number member => Number.same_unsignZero (isFinite_iff_numbers.mp finite number member)
  · rw [numbers_toJson, List.forall₂_map_right_iff, List.forall₂_same]
    intro number member
    have finite := (List.mem_filter.mp member).2
    cases number with
    | finite double => exact ⟨double, rfl, Number.writtenAs_toJson double⟩
    | infinite negative => simp [Number.isFinite] at finite
    | notANumber => simp [Number.isFinite] at finite

theorem plain_tree_reads_back_at_end_of_range :
    let past : Double := ⟨true, twoTo 52, 11, by decide⟩
    let last : Double := ⟨false, twoTo 53 - 1, 10, by decide⟩
    let value (negative : Bool) : Value := .map [
      ("ends", .list [.number (.finite past), .number (.finite last)]),
      ("note", .string ""), ("zero", .number (.finite (.zero negative)))]
    (ofJson (value true).toJson).same (value true) = true ∧
      ofJson (value true).toJson = value false ∧
      (value true).toJson.numbers = [.float past, .integer 9223372036854774784, .integer 0] ∧
      past.WrittenAs (.float past) ∧ last.WrittenAs (.integer 9223372036854774784) := by
  have pastWritten : Number.toWord? (.finite ⟨true, twoTo 52, 11, by decide⟩) = none := by
    decide +kernel
  have lastWritten : Number.toWord? (.finite ⟨false, twoTo 53 - 1, 10, by decide⟩) =
      some 9223372036854774784 := by
    decide +kernel
  have zeroWritten : Number.toWord? (.finite (.zero true)) = some 0 := by decide +kernel
  intro past last value
  obtain ⟨back, leaves⟩ := plain_tree_reads_back (value true)
  obtain ⟨equal, same⟩ := back rfl
  have finite : (value true).numbers.filter Number.isFinite =
      [.finite past, .finite last, .finite (.zero true)] :=
    rfl
  have written : (value true).toJson.numbers =
      [.float past, .integer 9223372036854774784, .integer 0] := by
    rw [numbers_toJson, finite]
    simp only [List.map_cons, List.map_nil, Number.toJson, pastWritten, lastWritten, zeroWritten,
      past, last, Json.ofNumber]
  rw [finite, written] at leaves
  simp only [List.forall₂_cons, Number.finite.injEq, exists_eq_left'] at leaves
  exact ⟨equal, same, written, leaves.1, leaves.2.1⟩

end Value

end KeyedStore
