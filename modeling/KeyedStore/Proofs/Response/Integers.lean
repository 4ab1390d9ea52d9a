import KeyedStore.Proofs.Json.Decode
import KeyedStore.Proofs.Response.Views
import KeyedStore.Proofs.Value.Words

/-! The integer view of a field against the field read as a 64-bit integer. The view reads the
text. The field is read through its value, where it is the nearest double, so the two agree on
the integers that a double has. -/

namespace KeyedStore

namespace Double

theorem exists_signedBound (negative : Bool) :
    ∃ double : Double,
      double.value = ((if negative then -signedBound else signedBound : ℤ) : ℚ) := by
  refine ⟨⟨negative, twoTo 52, 11, by decide⟩, ?_⟩
  cases negative <;> norm_num [value, magnitude, twoTo_cast, signedBound]

theorem Nearest.natAbs_le {double : Double} {whole carried : ℤ}
    (near : double.Nearest whole carried) (fits : fitsInt64 whole = true) :
    carried.natAbs ≤ signedBound := by
  have distance {bound : ℤ} (reached : ∃ other : Double, other.value = (bound : ℚ)) :
      (whole - carried).natAbs ≤ (whole - bound).natAbs := by
    obtain ⟨other, same⟩ := reached
    have nearest := near.nearest other
    rw [same] at nearest
    zify
    exact_mod_cast nearest
  have upper := distance (exists_signedBound false)
  have lower := distance (exists_signedBound true)
  simp only [fitsInt64, decide_eq_true_eq] at fits
  simp only [Bool.false_eq_true, if_false, if_true] at upper lower
  omega

end Double

namespace Response

variable {response : Response} {index : Nat} {name : String} {whole carried : ℤ} {double : Double}

theorem value?_of_integer? (seen : response.integer? index name = some whole) :
    fitsInt64 whole = true ∧ ∃ double carried, double.Nearest whole carried ∧
      response.value? index name = some (.number (.finite double)) := by
  simp only [integer?, readInt64?, Option.bind_eq_bind, Option.bind_eq_some_iff,
    Option.filter_eq_some_iff] at seen
  obtain ⟨text, held, reads, fits⟩ := seen
  obtain ⟨negative, magnitude, signs, read⟩ := Number.read?_of_readInteger? reads
  have moderate : magnitude < twoTo 1023 := by
    have size : magnitude ≤ twoTo 63 := by
      simp only [fitsInt64, decide_eq_true_eq] at fits
      rw [← signedBound_eq]
      split_ifs at signs <;> omega
    exact size.trans_lt (twoTo_lt_twoTo (by decide : 63 < 1023))
  obtain ⟨double, carried, made, near⟩ := Number.exists_nearest moderate negative signs
  refine ⟨fits, double, carried, near, number?_eq_some_iff.mp ?_⟩
  simp [number?, held, read, made]

theorem field?_of_value? {α : Type} {value : Value} {decode : Decoder α}
    (valued : response.value? index name = some value) :
    response.field? decode index name =
      match decode value.toJson with
      | .ok result => .ok (some result)
      | .error mismatch => .error (.unmarshalFailed (.malformed (.field name mismatch))) := by
  simp only [value?, Option.bind_eq_bind, Option.bind_eq_some_iff, toOption_eq_some_iff] at valued
  obtain ⟨found, held, read⟩ := valued
  cases decoded : decode value.toJson <;> simp [field?, held, read, decoded]

theorem field?_int64_of_short
    (valued : response.value? index name = some (.number (.finite double)))
    (held : double.toInt? = some carried) (short : carried.natAbs < signedBound) :
    response.field? Decoder.int64 index name = .ok (some carried) := by
  rw [field?_of_value? valued, Value.toJson, Value.toTree, Number.toJson_of_short held short,
    Decoder.int64, Decoder.integer_of_bounds (by omega) (by omega)]

theorem field?_int64_of_long
    (valued : response.value? index name = some (.number (.finite double)))
    (held : double.toInt? = some carried) (long : signedBound ≤ carried.natAbs) :
    response.field? Decoder.int64 index name =
      .error (.unmarshalFailed (.malformed (.field name (.wrongType (.float double) "i64")))) := by
  rw [field?_of_value? valued, Value.toJson, Value.toTree, Number.toJson_of_long held long]
  rfl

/-- Where the integer view shows an integer, the field holds the double nearest to it and is
read as the integer which that double stands for, unless it is 2^63, which no signed word
holds. So the field is read as the integer that is seen exactly if a double has it, and it is up
to 2^53 in magnitude. -/
theorem integer_field_carries_nearest (response : Response) (index : Nat) (name : String)
    (whole : ℤ) (seen : response.integer? index name = some whole) :
    ∃ double carried,
      response.value? index name = some (.number (.finite double)) ∧
      double.Nearest whole carried ∧ carried.natAbs ≤ signedBound ∧
      (carried.natAbs < signedBound →
        response.field? Decoder.int64 index name = .ok (some carried)) ∧
      (carried = signedBound →
        response.field? Decoder.int64 index name =
          .error (.unmarshalFailed
            (.malformed (.field name (.wrongType (.float double) "i64"))))) ∧
      (carried ≠ -signedBound →
        (response.field? Decoder.int64 index name = .ok (some whole) ↔
          ∃ other : Double, other.toInt? = some whole)) ∧
      (whole.natAbs ≤ twoTo 53 →
        response.field? Decoder.int64 index name = .ok (some whole)) := by
  obtain ⟨fits, double, carried, near, valued⟩ := value?_of_integer? seen
  have within := near.natAbs_le fits
  have exact (reached : ∃ other : Double, other.toInt? = some whole) : carried = whole := by
    obtain ⟨other, same⟩ := reached
    exact near.eq_of_value (Double.toInt?_eq_some_iff.mp same)
  have below : whole < signedBound := by
    simp only [fitsInt64, decide_eq_true_eq] at fits
    exact fits.2
  refine ⟨double, carried, valued, near, within, field?_int64_of_short valued near.toInt?,
    fun long => field?_int64_of_long valued near.toInt? (by omega), fun notLeast => ⟨?_, ?_⟩,
    fun short => ?_⟩
  · intro read
    rcases within.lt_or_eq with shorter | long
    · rw [field?_int64_of_short valued near.toInt? shorter, Except.ok.injEq,
        Option.some.injEq] at read
      exact ⟨double, read ▸ near.toInt?⟩
    · rw [field?_int64_of_long valued near.toInt? long.ge] at read
      simp at read
  · intro reached
    have same := exact reached
    rw [← same]
    exact field?_int64_of_short valued near.toInt? (by omega)
  · obtain ⟨other, same⟩ := Double.exists_value short
    have same := exact ⟨other, Double.toInt?_eq_some_iff.mpr same⟩
    have small : twoTo 53 < signedBound := by decide
    rw [← same]
    exact field?_int64_of_short valued near.toInt? (by omega)

theorem integer_field_carries_nearest_of_spelled :
    let response := Response.ofItems [[("stamp", .number " -0009007199254740992 ")]]
    response.integer? 0 "stamp" = some (-9007199254740992) ∧
      response.field? Decoder.int64 0 "stamp" = .ok (some (-9007199254740992)) := by
  intro response
  have seen : response.integer? 0 "stamp" = some (-9007199254740992) := by decide +kernel
  obtain ⟨double, carried, -, -, -, -, -, -, exact⟩ :=
    integer_field_carries_nearest response 0 "stamp" _ seen
  exact ⟨seen, exact (by decide)⟩

/-- The first integer between two doubles is seen as it is and read as its even neighbour. -/
theorem integer_field_loses_odd :
    let response := Response.ofItems [[("stamp", .number "9007199254740993")]]
    response.integer? 0 "stamp" = some 9007199254740993 ∧
      response.field? Decoder.int64 0 "stamp" = .ok (some 9007199254740992) ∧
      response.field? Decoder.int64 0 "stamp" ≠ .ok (some 9007199254740993) := by
  intro response
  have carried : response.number? 0 "stamp" = some (.finite ⟨false, twoTo 52, 1, by decide⟩) := by
    decide +kernel
  have read : response.field? Decoder.int64 0 "stamp" = .ok (some 9007199254740992) :=
    field?_int64_of_short (number?_eq_some_iff.mp carried) (by decide +kernel) (by decide)
  exact ⟨by decide +kernel, read, by simp [read]⟩

end Response

end KeyedStore
