import KeyedStore.Proofs.Value.Numbers
import KeyedStore.Value.Json

/-! Values and their trees. A tree is the value with its numbers written one by one, so it reads
back as the value if each finite number does. From the exact tree it does. -/

namespace KeyedStore

namespace Value

/-- Finite numbers are read as they are or changed, from what is written for them. -/
def NumbersReadBack (write : Number → Json) (read : Number → Number) : Prop :=
  ∀ number, number.isFinite = true → ofJson (write number) = .number (read number)

variable {write : Number → Json} {read : Number → Number}

mutual

theorem ofJson_toTree (back : NumbersReadBack write read) {value : Value}
    (finite : value.isFinite = true) :
    ofJson (value.toTree write) = value.mapNumbers read := by
  cases value with
  | null => rfl
  | bool flag => rfl
  | number number => exact back number finite
  | string text => rfl
  | list elements =>
      rw [toTree, ofJson, ofElements_toElements back (by simpa only [isFinite] using finite),
        mapNumbers]
  | map fields =>
      rw [toTree, ofJson, ofMembers_toMembers back (by simpa only [isFinite] using finite),
        mapNumbers]

theorem ofElements_toElements (back : NumbersReadBack write read) {elements : List Value}
    (finite : finiteElements elements = true) :
    ofElements (toElements write elements) = mapElementNumbers read elements := by
  cases elements with
  | nil => rfl
  | cons element rest =>
      rw [finiteElements, Bool.and_eq_true] at finite
      rw [toElements, ofElements, ofJson_toTree back finite.1, ofElements_toElements back finite.2,
        mapElementNumbers]

theorem ofMembers_toMembers (back : NumbersReadBack write read)
    {fields : List (String × Value)} (finite : finiteFields fields = true) :
    ofMembers (toMembers write fields) = mapFieldNumbers read fields := by
  cases fields with
  | nil => rfl
  | cons entry rest =>
      obtain ⟨name, value⟩ := entry
      rw [finiteFields, Bool.and_eq_true] at finite
      rw [toMembers, ofMembers, ofJson_toTree back finite.1, ofMembers_toMembers back finite.2,
        mapFieldNumbers]

end

theorem ofNumber_readsBack : NumbersReadBack .ofNumber id := by
  intro number finite
  cases number with
  | finite double => rfl
  | infinite negative => simp [Number.isFinite] at finite
  | notANumber => simp [Number.isFinite] at finite

theorem ofJson_toExactJson {value : Value} (finite : value.isFinite = true) :
    ofJson value.toExactJson = value := by
  rw [toExactJson, ofJson_toTree ofNumber_readsBack finite, mapNumbers_id]

theorem ofMembers_toExactMembers {fields : List (String × Value)}
    (finite : finiteFields fields = true) : ofMembers (toMembers .ofNumber fields) = fields := by
  rw [ofMembers_toMembers ofNumber_readsBack finite, mapFieldNumbers_id]

theorem toExactJson_ne_null {value : Value} (finite : value.isFinite = true)
    (present : value ≠ .null) : value.toExactJson ≠ .null := by
  intro null
  have back := ofJson_toExactJson finite
  rw [null] at back
  exact present back.symm

end Value

end KeyedStore
