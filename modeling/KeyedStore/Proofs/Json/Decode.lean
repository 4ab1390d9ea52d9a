import KeyedStore.Json.Decode

/-! Decoders on the trees that are written for them: what each reads from its own tree, and
what is read from a record with named members. -/

namespace KeyedStore

namespace Decoder

variable {α : Type}

theorem check_of_ok {decode : Decoder α} {json : Json} {value : α}
    (read : decode json = .ok value) : check decode json = .ok () := by
  rw [check, read]
  rfl

theorem string_string (text : String) : string (.string text) = .ok text := rfl

theorem bool_bool (flag : Bool) : bool (.bool flag) = .ok flag := rfl

theorem choice_of_lookup {choices : List (String × α)} {name : String} {value : α}
    (found : choices.lookup name = some value) : choice choices (.string name) = .ok value := by
  simp only [choice, found]

theorem integer_of_bounds {least bound value : Int} (above : least ≤ value)
    (below : value < bound) (expected : String) :
    integer least bound expected (.integer value) = .ok value := by
  rw [integer, if_pos ⟨above, below⟩]

theorem count_integer (value : UInt64) : count (.integer value.toNat) = .ok value := by
  have below : value.toNat < wordBound := by
    rw [wordBound]
    exact value.toNat_lt
  rw [count, integer_of_bounds (Int.natCast_nonneg _) (Int.ofNat_lt.mpr below)]
  simp only [bind, Except.bind, pure, Except.pure, Int.toNat_natCast, UInt64.ofNat_toNat]

theorem list_map {write : α → Json} {decode : Decoder α} {copy : α → α} {values : List α}
    (each : ∀ value ∈ values, decode (write value) = .ok (copy value)) :
    list decode (.array (values.map write)) = .ok (values.map copy) := by
  rw [list]
  induction values with
  | nil => rfl
  | cons value rest ih =>
      rw [List.forall_mem_cons] at each
      rw [List.map_cons, List.mapM_cons, each.1, ih each.2]
      rfl

end Decoder

namespace Record

variable {α : Type} {layout : Layout} {members : Fields Json}

theorem checkMembers_of_fit
    (fit : ∀ entry ∈ members, ∀ check, layout.fields.lookup entry.1 = some check →
      check entry.2 = .ok ()) :
    checkMembers layout members = .ok () := by
  induction members with
  | nil => rfl
  | cons entry rest ih =>
      obtain ⟨name, value⟩ := entry
      rw [List.forall_mem_cons] at fit
      rw [checkMembers, ih fit.2]
      cases known : layout.fields.lookup name with
      | none => rfl
      | some check =>
          simp only [fit.1 check known]
          rfl

theorem ofJson_object
    (fit : ∀ entry ∈ members, ∀ check, layout.fields.lookup entry.1 = some check →
      check entry.2 = .ok ()) :
    ofJson layout (.object members) = .ok (.named members) := by
  rw [ofJson, checkMembers_of_fit fit]
  rfl

theorem field_named {name : String} {value : Json} (found : members.get? name = some value)
    (place : Nat) (decode : Decoder α) :
    (named members).field layout place name decode = decode value := by
  simp only [field, found]

theorem optionalField_named {name : String} {value : Json}
    (found : members.get? name = some value) (place : Nat) (decode : Decoder α) :
    (named members).optionalField layout place name decode = Decoder.optional decode value := by
  simp only [optionalField, found]

end Record

end KeyedStore
