import KeyedStore.Attribute.Codec
import KeyedStore.Proofs.Fields
import KeyedStore.Proofs.Number.Text

/-! The codec between values and attributes. A value has an attribute exactly when all of
its numbers are finite, and its attribute reads as the value. -/

namespace KeyedStore

theorem bind_eq_ok_iff {α β ε : Type} {first : Except ε α} {next : α → Except ε β}
    {result : β} :
    (first >>= next) = .ok result ↔ ∃ value, first = .ok value ∧ next value = .ok result := by
  cases first <;> simp [bind, Except.bind]

theorem bind_eq_error_iff {α β ε : Type} {first : Except ε α} {next : α → Except ε β}
    {fault : ε} :
    (first >>= next) = .error fault ↔
      first = .error fault ∨ ∃ value, first = .ok value ∧ next value = .error fault := by
  cases first <;> simp [bind, Except.bind]

theorem toOption_eq_some_iff {α ε : Type} {outcome : Except ε α} {value : α} :
    outcome.toOption = some value ↔ outcome = .ok value := by
  cases outcome <;> simp [Except.toOption]

theorem toOption_eq_none_iff {α ε : Type} {outcome : Except ε α} :
    outcome.toOption = none ↔ ∃ fault, outcome = .error fault := by
  cases outcome <;> simp [Except.toOption]

theorem mapM_eq_some_iff_of_inverse {α β : Type} {read : β → Option α} (write : α → β)
    (inverse : ∀ written value, read written = some value ↔ written = write value)
    {elements : List β} {values : List α} :
    elements.mapM read = some values ↔ elements = values.map write := by
  induction elements generalizing values with
  | nil => cases values <;> simp
  | cons element rest ih =>
      cases values with
      | nil => simp [List.mapM_cons, Option.bind_eq_some_iff]
      | cons value others =>
          simp [List.mapM_cons, Option.bind_eq_some_iff, inverse, ih]

theorem isBlank_of_isDigit {char : Char} (digit : char.isDigit = true) :
    isBlank char = false := by
  have bounds : 48 ≤ char.toNat ∧ char.toNat ≤ 57 := by
    simp only [Char.isDigit, Bool.and_eq_true, decide_eq_true_eq] at digit
    exact ⟨UInt32.le_iff_toNat_le.mp digit.1, UInt32.le_iff_toNat_le.mp digit.2⟩
  simp only [isBlank, Bool.or_eq_false_iff, Bool.and_eq_false_iff, decide_eq_false_iff_not,
    beq_eq_false_iff_ne]
  omega

theorem trimBlanks_of_noBlank {text : List Char}
    (clear : ∀ char ∈ text, isBlank char = false) : trimBlanks text = text := by
  have kept (chars : List Char) (clear : ∀ char ∈ chars, isBlank char = false) :
      chars.dropWhile isBlank = chars := by
    cases chars with
    | nil => rfl
    | cons first rest => simp [clear first List.mem_cons_self]
  have reversed : ∀ char ∈ text.reverse, isBlank char = false := by
    intro char member
    exact clear char (List.mem_reverse.mp member)
  rw [trimBlanks, kept text clear, kept text.reverse reversed, List.reverse_reverse]

theorem Number.noBlank_plainText (double : Double) :
    ∀ char ∈ (Number.finite double).plainText, isBlank char = false := by
  intro char member
  have magnitude : char ∈ (double.shortest .up).plainText → isBlank char = false := by
    intro inMagnitude
    rcases Decimal.mem_plainText inMagnitude with digit | point
    · exact isBlank_of_isDigit digit
    · subst point
      decide
  simp only [plainText, signed] at member
  split at member
  · rcases List.mem_cons.mp member with sign | inMagnitude
    · subst sign
      decide
    · exact magnitude inMagnitude
  · exact magnitude member

theorem readNumberText?_text (double : Double) :
    readNumberText? (Number.finite double).text = some (.finite double) := by
  rw [readNumberText?, Number.text, String.toList_ofList,
    trimBlanks_of_noBlank (Number.noBlank_plainText double), Number.read?_plainText]

theorem Number.marshal_eq_ok_iff {number : Number} {text : String} :
    number.marshal = .ok text ↔ number.isFinite = true ∧ number.text = text := by
  unfold Number.marshal
  split <;> simp_all

theorem unmarshalNumber_marshal {number : Number} {text : String}
    (written : number.marshal = .ok text) : unmarshalNumber text = .ok (.number number) := by
  obtain ⟨finite, same⟩ := Number.marshal_eq_ok_iff.mp written
  cases number with
  | finite double => rw [unmarshalNumber, ← same, readNumberText?_text]
  | infinite negative => simp [Number.isFinite] at finite
  | notANumber => simp [Number.isFinite] at finite

namespace Value

mutual

def isFinite : Value → Bool
  | .number value => value.isFinite
  | .list elements => finiteElements elements
  | .map fields => finiteFields fields
  | _ => true

def finiteElements : List Value → Bool
  | [] => true
  | element :: rest => element.isFinite && finiteElements rest

def finiteFields : List (String × Value) → Bool
  | [] => true
  | (_, value) :: rest => value.isFinite && finiteFields rest

end

theorem finiteElements_iff {elements : List Value} :
    finiteElements elements = true ↔ ∀ element ∈ elements, element.isFinite = true := by
  induction elements with
  | nil => simp [finiteElements]
  | cons element rest ih => simp [finiteElements, ih]

theorem finiteFields_iff {fields : Fields Value} :
    finiteFields fields = true ↔ ∀ entry ∈ fields, entry.2.isFinite = true := by
  induction fields with
  | nil => simp [finiteFields]
  | cons entry rest ih =>
      obtain ⟨name, value⟩ := entry
      simp [finiteFields, ih]

theorem isEmptyString_iff {value : Value} :
    value.isEmptyString = true ↔ value = .string "" := by
  cases value <;> simp [isEmptyString]

theorem isFinite_of_isEmptyString {value : Value} (empty : value.isEmptyString = true) :
    value.isFinite = true := by
  cases value <;> simp_all [isEmptyString, isFinite]

mutual

theorem exists_marshal_iff (value : Value) :
    (∃ encoded, value.marshal = .ok encoded) ↔ value.isFinite = true := by
  cases value with
  | null => simp [marshal, isFinite]
  | bool flag => simp [marshal, isFinite]
  | string text => simp [marshal, isFinite]
  | number number =>
      simp [marshal, isFinite, bind_eq_ok_iff, Number.marshal_eq_ok_iff, pure, Except.pure]
  | list elements =>
      simp [marshal, isFinite, bind_eq_ok_iff, ← exists_marshalElements_iff, pure, Except.pure]
  | map fields =>
      simp [marshal, isFinite, bind_eq_ok_iff, ← exists_marshalFields_iff, pure, Except.pure]

theorem exists_marshalElements_iff (elements : List Value) :
    (∃ encoded, marshalElements elements = .ok encoded) ↔ finiteElements elements = true := by
  match elements with
  | [] => simp [marshalElements, finiteElements]
  | element :: rest =>
      simp [marshalElements, finiteElements, bind_eq_ok_iff, ← exists_marshal_iff element,
        ← exists_marshalElements_iff rest, pure, Except.pure]

theorem exists_marshalFields_iff (fields : List (String × Value)) :
    (∃ encoded, marshalFields fields = .ok encoded) ↔ finiteFields fields = true := by
  match fields with
  | [] => simp [marshalFields, finiteFields]
  | (name, value) :: rest =>
      simp [marshalFields, finiteFields, bind_eq_ok_iff, ← exists_marshal_iff value,
        ← exists_marshalFields_iff rest, pure, Except.pure]

end

theorem marshalFields_eq_traverse (fields : Fields Value) :
    marshalFields fields = fields.traverse marshal := by
  induction fields with
  | nil => rfl
  | cons entry rest ih => rw [marshalFields, Fields.traverse, ih]

end Value

namespace Attribute

theorem unmarshalFields_eq_traverse (fields : Fields Attribute) :
    unmarshalFields fields = fields.traverse unmarshal := by
  induction fields with
  | nil => rfl
  | cons entry rest ih => rw [unmarshalFields, Fields.traverse, ih]

mutual

theorem unmarshal_marshal {value : Value} {encoded : Attribute}
    (written : value.marshal = .ok encoded) : encoded.unmarshal = .ok value := by
  cases value with
  | null =>
      simp only [Value.marshal, Except.ok.injEq] at written
      simp [← written, unmarshal]
  | bool flag =>
      simp only [Value.marshal, Except.ok.injEq] at written
      simp [← written, unmarshal]
  | string text =>
      simp only [Value.marshal, Except.ok.injEq] at written
      simp [← written, unmarshal]
  | number number =>
      simp only [Value.marshal, bind_eq_ok_iff, pure, Except.pure, Except.ok.injEq] at written
      obtain ⟨text, numberWritten, same⟩ := written
      rw [← same, unmarshal, unmarshalNumber_marshal numberWritten]
  | list elements =>
      simp only [Value.marshal, bind_eq_ok_iff, pure, Except.pure, Except.ok.injEq] at written
      obtain ⟨attributes, elementsWritten, same⟩ := written
      rw [← same, unmarshal, unmarshalElements_marshal elementsWritten]
      rfl
  | map fields =>
      simp only [Value.marshal, bind_eq_ok_iff, pure, Except.pure, Except.ok.injEq] at written
      obtain ⟨attributes, fieldsWritten, same⟩ := written
      rw [← same, unmarshal, unmarshalFields_marshal fieldsWritten]
      rfl

theorem unmarshalElements_marshal {elements : List Value} {attributes : List Attribute}
    (written : Value.marshalElements elements = .ok attributes) :
    unmarshalElements attributes = .ok elements := by
  match elements with
  | [] =>
      simp only [Value.marshalElements, Except.ok.injEq] at written
      simp [← written, unmarshalElements]
  | element :: rest =>
      simp only [Value.marshalElements, bind_eq_ok_iff, pure, Except.pure,
        Except.ok.injEq] at written
      obtain ⟨first, firstWritten, others, restWritten, same⟩ := written
      rw [← same, unmarshalElements, unmarshal_marshal firstWritten,
        unmarshalElements_marshal restWritten]
      rfl

theorem unmarshalFields_marshal {fields : List (String × Value)}
    {attributes : List (String × Attribute)}
    (written : Value.marshalFields fields = .ok attributes) :
    unmarshalFields attributes = .ok fields := by
  match fields with
  | [] =>
      simp only [Value.marshalFields, Except.ok.injEq] at written
      simp [← written, unmarshalFields]
  | (name, value) :: rest =>
      simp only [Value.marshalFields, bind_eq_ok_iff, pure, Except.pure,
        Except.ok.injEq] at written
      obtain ⟨first, firstWritten, others, restWritten, same⟩ := written
      rw [← same, unmarshalFields, unmarshal_marshal firstWritten,
        unmarshalFields_marshal restWritten]
      rfl

end

end Attribute

namespace Item

theorem exists_marshal_iff (item : Item) :
    (∃ row, item.marshal = .ok row) ↔ ∀ entry ∈ item, entry.2.isFinite = true := by
  rw [marshal, Value.exists_marshalFields_iff, Value.finiteFields_iff]
  constructor
  · intro finite entry member
    by_cases empty : entry.2.isEmptyString = true
    · exact Value.isFinite_of_isEmptyString empty
    · exact finite entry (List.mem_filter.mpr ⟨member, by simp [empty]⟩)
  · intro finite entry member
    exact finite entry (List.mem_filter.mp member).1

theorem ascending_marshal {item : Item} {row : AttributeMap} (ascending : item.Ascending)
    (written : item.marshal = .ok row) : Fields.Ascending row := by
  rw [marshal, Value.marshalFields_eq_traverse] at written
  exact (Fields.ascending_traverse written).mpr (Fields.ascending_filter ascending _)

theorem get?_marshal {item : Item} {row : AttributeMap} (ascending : item.Ascending)
    (written : item.marshal = .ok row) (name : String) :
    row.get? name =
      (item.get? name).bind fun value =>
        if value.isEmptyString then none else value.marshal.toOption := by
  rw [marshal, Value.marshalFields_eq_traverse] at written
  rw [Fields.get?_traverse written, Fields.get?_filter ascending]
  cases item.get? name with
  | none => rfl
  | some value => cases empty : value.isEmptyString <;> simp [Option.filter, empty]

theorem get?_marshal_overlay {item key : Item} {row keyRow : AttributeMap}
    (itemAscending : item.Ascending) (keyAscending : key.Ascending)
    (written : marshal (item.overlay key) = .ok row) (keyWritten : key.marshal = .ok keyRow)
    {name : String} (member : name ∈ key.map Prod.fst) :
    Fields.get? row name = Fields.get? keyRow name := by
  obtain ⟨value, held⟩ := Fields.exists_get?_of_mem member
  rw [get?_marshal (Fields.ascending_overlay itemAscending key) written,
    get?_marshal keyAscending keyWritten, Fields.get?_overlay item keyAscending, held]
  rfl

theorem unmarshal_marshal {item : Item} {row : AttributeMap}
    (written : item.marshal = .ok row) :
    row.unmarshal = .ok (item.filter fun entry => !entry.2.isEmptyString) :=
  Attribute.unmarshalFields_marshal written

theorem eq_of_marshal {left right : Item} {row : AttributeMap}
    (leftWritten : left.marshal = .ok row) (rightWritten : right.marshal = .ok row)
    (filled : ∀ field ∈ left ++ right, field.2 ≠ .string "") : left = right := by
  have kept (item : Item) (within : ∀ field ∈ item, field ∈ left ++ right) :
      item.filter (fun field => !field.2.isEmptyString) = item := by
    apply List.filter_eq_self.mpr
    intro field member
    have notEmpty : field.2.isEmptyString ≠ true :=
      mt Value.isEmptyString_iff.mp (filled field (within field member))
    simpa using notEmpty
  have sameRead :=
    (unmarshal_marshal leftWritten).symm.trans (unmarshal_marshal rightWritten)
  rw [kept left (by simp +contextual), kept right (by simp +contextual)] at sameRead
  exact Except.ok.inj sameRead

end Item

namespace AttributeMap

/-- The row is listed by ascending name, and the item it reads as is written as the row. -/
def RoundTrips (row : AttributeMap) : Prop :=
  Fields.Ascending row ∧ ∃ item, row.unmarshal = .ok item ∧ Item.marshal item = .ok row

theorem roundTrips_of_marshal {item : Item} {row : AttributeMap}
    (ascending : item.Ascending) (written : item.marshal = .ok row) : row.RoundTrips := by
  refine ⟨Item.ascending_marshal ascending written, _, Item.unmarshal_marshal written, ?_⟩
  simpa [Item.marshal] using written

theorem ascending_unmarshal {row : AttributeMap} {item : Item}
    (read : row.unmarshal = .ok item) : item.Ascending ↔ Fields.Ascending row := by
  rw [unmarshal, Attribute.unmarshalFields_eq_traverse] at read
  exact Fields.ascending_traverse read

end AttributeMap

end KeyedStore
