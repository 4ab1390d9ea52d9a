import KeyedStore.Proofs.Attribute.RoundTrip

/-! The numbers of a value, whatever its lists and maps. A value is finite if its numbers are,
and what is done to the numbers leaves the rest of the value as it is. -/

namespace KeyedStore

theorem firstNonFinite?_eq_none_iff {numbers : List Number} :
    firstNonFinite? numbers = none ↔ ∀ number ∈ numbers, number.isFinite = true := by
  simp [firstNonFinite?]

namespace Value

theorem isFinite_iff_numbers {value : Value} :
    value.isFinite = true ↔ ∀ number ∈ value.numbers, number.isFinite = true := by
  rw [← exists_marshal_iff, value.reports_marshal.exists_ok_iff, firstNonFinite?_eq_none_iff]

mutual

def mapNumbers (change : Number → Number) : Value → Value
  | .null => .null
  | .bool flag => .bool flag
  | .number value => .number (change value)
  | .string text => .string text
  | .list elements => .list (mapElementNumbers change elements)
  | .map fields => .map (mapFieldNumbers change fields)

def mapElementNumbers (change : Number → Number) : List Value → List Value
  | [] => []
  | element :: rest => element.mapNumbers change :: mapElementNumbers change rest

def mapFieldNumbers (change : Number → Number) :
    List (String × Value) → List (String × Value)
  | [] => []
  | (name, value) :: rest => (name, value.mapNumbers change) :: mapFieldNumbers change rest

end

mutual

theorem mapNumbers_id (value : Value) : value.mapNumbers id = value := by
  cases value with
  | null => rfl
  | bool flag => rfl
  | number number => rfl
  | string text => rfl
  | list elements => rw [mapNumbers, mapElementNumbers_id]
  | map fields => rw [mapNumbers, mapFieldNumbers_id]

theorem mapElementNumbers_id (elements : List Value) :
    mapElementNumbers id elements = elements := by
  match elements with
  | [] => rfl
  | element :: rest => rw [mapElementNumbers, mapNumbers_id element, mapElementNumbers_id rest]

theorem mapFieldNumbers_id (fields : List (String × Value)) :
    mapFieldNumbers id fields = fields := by
  match fields with
  | [] => rfl
  | (name, value) :: rest => rw [mapFieldNumbers, mapNumbers_id value, mapFieldNumbers_id rest]

end

mutual

theorem same_mapNumbers_iff (change : Number → Number) (value : Value) :
    (value.mapNumbers change).same value = true ↔
      ∀ number ∈ value.numbers, (change number).same number = true := by
  cases value with
  | null => simp [mapNumbers, same, numbers]
  | bool flag => simp [mapNumbers, same, numbers]
  | number number => simp [mapNumbers, same, numbers]
  | string text => simp [mapNumbers, same, numbers]
  | list elements => exact sameElements_mapNumbers_iff change elements
  | map fields => exact sameFields_mapNumbers_iff change fields

theorem sameElements_mapNumbers_iff (change : Number → Number) (elements : List Value) :
    sameElements (mapElementNumbers change elements) elements = true ↔
      ∀ number ∈ elementNumbers elements, (change number).same number = true := by
  match elements with
  | [] => simp [mapElementNumbers, sameElements, elementNumbers]
  | element :: rest =>
      simp only [mapElementNumbers, sameElements, elementNumbers, Bool.and_eq_true,
        List.forall_mem_append, same_mapNumbers_iff change element,
        sameElements_mapNumbers_iff change rest]

theorem sameFields_mapNumbers_iff (change : Number → Number) (fields : List (String × Value)) :
    sameFields (mapFieldNumbers change fields) fields = true ↔
      ∀ number ∈ fieldNumbers fields, (change number).same number = true := by
  match fields with
  | [] => simp [mapFieldNumbers, sameFields, fieldNumbers]
  | (name, value) :: rest =>
      simp only [mapFieldNumbers, sameFields, fieldNumbers, beq_self_eq_true, Bool.true_and,
        Bool.and_eq_true, List.forall_mem_append, same_mapNumbers_iff change value,
        sameFields_mapNumbers_iff change rest]

end

end Value

end KeyedStore
