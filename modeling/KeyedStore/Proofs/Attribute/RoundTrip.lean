import KeyedStore.Proofs.Attribute.Codec

/-! Writing values and reading them back. What is written reads as it was, to the sign of a
zero and to the empty strings inside of lists and maps; only an item drops its empty strings.
Where a number is not finite nothing is written, and the first such number is reported. -/

namespace KeyedStore

namespace Value

mutual

/-- The numbers of a value at any depth: those of a list by position, those of a map by
ascending name. -/
def numbers : Value → List Number
  | .number value => [value]
  | .list elements => elementNumbers elements
  | .map fields => fieldNumbers fields
  | _ => []

def elementNumbers : List Value → List Number
  | [] => []
  | element :: rest => element.numbers ++ elementNumbers rest

def fieldNumbers : List (String × Value) → List Number
  | [] => []
  | (_, value) :: rest => value.numbers ++ fieldNumbers rest

end

end Value

def firstNonFinite? (numbers : List Number) : Option Number :=
  numbers.find? fun number => !number.isFinite

theorem firstNonFinite?_append (front back : List Number) :
    firstNonFinite? (front ++ back) = (firstNonFinite? front).or (firstNonFinite? back) :=
  List.find?_append

/-- An encoder fails exactly if one of the numbers is not finite, and the first such number is
its fault. -/
def ReportsFirst {α : Type} (numbers : List Number) (written : Except MarshalError α) : Prop :=
  ∀ fault, written = .error fault ↔
    (firstNonFinite? numbers).map MarshalError.nonFiniteNumber = some fault

namespace ReportsFirst

variable {α β γ : Type} {numbers others : List Number} {first : Except MarshalError α}
  {second : Except MarshalError β}

theorem ok (value : α) : ReportsFirst [] (.ok value) := by
  intro fault
  simp [firstNonFinite?]

theorem exists_ok_iff (reports : ReportsFirst numbers first) :
    (∃ value, first = .ok value) ↔ firstNonFinite? numbers = none := by
  cases first with
  | ok value =>
      cases found : firstNonFinite? numbers with
      | none => simp
      | some number => simpa [found] using reports (.nonFiniteNumber number)
  | error fault =>
      cases found : firstNonFinite? numbers with
      | none => simpa [found] using reports fault
      | some number => simp

theorem map (reports : ReportsFirst numbers first) (build : α → β) :
    ReportsFirst numbers (first >>= fun value => pure (build value)) := by
  intro fault
  rw [← reports fault, bind_eq_error_iff]
  simp [pure, Except.pure]

theorem pair (firstReports : ReportsFirst numbers first)
    (secondReports : ReportsFirst others second) (build : α → β → γ) :
    ReportsFirst (numbers ++ others)
      (first >>= fun left => second >>= fun right => pure (build left right)) := by
  intro fault
  have secondFails (left : α) :
      (second >>= fun right => pure (build left right)) = .error fault ↔
        (firstNonFinite? others).map MarshalError.nonFiniteNumber = some fault :=
    secondReports.map (build left) fault
  rw [bind_eq_error_iff]
  simp only [secondFails, exists_and_right, firstReports.exists_ok_iff, firstReports fault,
    firstNonFinite?_append]
  cases firstNonFinite? numbers <;> simp

end ReportsFirst

namespace Value

theorem reports_number (number : Number) : ReportsFirst [number] number.marshal := by
  intro fault
  unfold Number.marshal firstNonFinite?
  cases finite : number.isFinite <;> simp [finite]

mutual

theorem reports_marshal (value : Value) : ReportsFirst value.numbers value.marshal := by
  cases value with
  | null => exact .ok _
  | bool flag => exact .ok _
  | string text => exact .ok _
  | number number => exact (reports_number number).map Attribute.number
  | list elements => exact (reports_marshalElements elements).map Attribute.list
  | map fields => exact (reports_marshalFields fields).map Attribute.map

theorem reports_marshalElements (elements : List Value) :
    ReportsFirst (elementNumbers elements) (marshalElements elements) := by
  match elements with
  | [] => exact .ok _
  | element :: rest =>
      exact (reports_marshal element).pair (reports_marshalElements rest) List.cons

theorem reports_marshalFields (fields : List (String × Value)) :
    ReportsFirst (fieldNumbers fields) (marshalFields fields) := by
  match fields with
  | [] => exact .ok _
  | (name, value) :: rest =>
      exact (reports_marshal value).pair (reports_marshalFields rest)
        fun encoded others => (name, encoded) :: others

end

theorem numbers_of_isEmptyString {value : Value} (empty : value.isEmptyString = true) :
    value.numbers = [] := by
  cases value <;> simp_all [isEmptyString, numbers]

end Value

namespace Item

theorem fieldNumbers_filter (item : Item) :
    Value.fieldNumbers (item.filter fun entry => !entry.2.isEmptyString) =
      Value.fieldNumbers item := by
  induction item with
  | nil => rfl
  | cons entry rest ih =>
      obtain ⟨name, value⟩ := entry
      cases empty : value.isEmptyString with
      | true => simp [empty, Value.fieldNumbers, Value.numbers_of_isEmptyString empty, ih]
      | false => simp [empty, Value.fieldNumbers, ih]

theorem reports_marshal (item : Item) :
    ReportsFirst (Value.fieldNumbers item) item.marshal := by
  rw [← fieldNumbers_filter item]
  exact Value.reports_marshalFields _

end Item

/-- Reading undoes writing. A value is written exactly if all of its numbers are finite, and it
is read as it was; else the first number that is not finite is reported. An item is written
under the same condition, and is read as it was less its own empty strings. -/
theorem written_reads_back :
    (∀ value : Value,
      match firstNonFinite? value.numbers with
      | none => ∃ encoded, value.marshal = .ok encoded ∧ encoded.unmarshal = .ok value
      | some number => value.marshal = .error (.nonFiniteNumber number)) ∧
    ∀ item : Item,
      match firstNonFinite? (Value.fieldNumbers item) with
      | none => ∃ row, item.marshal = .ok row ∧
          row.unmarshal = .ok (item.filter fun entry => !entry.2.isEmptyString)
      | some number => item.marshal = .error (.nonFiniteNumber number) := by
  constructor
  · intro value
    have reports := value.reports_marshal
    cases found : firstNonFinite? value.numbers with
    | none =>
        obtain ⟨encoded, written⟩ := reports.exists_ok_iff.mpr found
        exact ⟨encoded, written, Attribute.unmarshal_marshal written⟩
    | some number => exact (reports _).mpr (by rw [found]; rfl)
  · intro item
    have reports := item.reports_marshal
    cases found : firstNonFinite? (Value.fieldNumbers item) with
    | none =>
        obtain ⟨row, written⟩ := reports.exists_ok_iff.mpr found
        exact ⟨row, written, Item.unmarshal_marshal written⟩
    | some number => exact (reports _).mpr (by rw [found]; rfl)

end KeyedStore
