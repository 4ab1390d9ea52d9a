import KeyedStore.Proofs.Attribute.Codec
import KeyedStore.Response.Field

/-! The typed views of a field against its value, and the value of a field against its row. A
view shows a number, a flag, a string or a list of strings exactly where the value is one, and a
row has an item exactly if each of its fields has a value. -/

namespace KeyedStore

namespace Attribute

/-- The attributes that a value is read from. Only a list is read from several kinds. -/
def StandsFor (encoded : Attribute) : Value → Prop
  | .null => ∃ flag, encoded = .null flag
  | .bool flag => encoded = .bool flag
  | .number value => ∃ text, encoded = .number text ∧ readNumberText? text = some value
  | .string text => encoded = .string text
  | .list values =>
      (∃ elements, encoded = .list elements ∧ unmarshalElements elements = .ok values) ∨
        (∃ texts, encoded = .stringSet texts ∧ texts.map .string = values) ∨
          ∃ texts, encoded = .numberSet texts ∧ texts.mapM unmarshalNumber = .ok values
  | .map fields => ∃ entries, encoded = .map entries ∧ unmarshalFields entries = .ok fields

theorem unmarshal_eq_ok_iff {encoded : Attribute} {value : Value} :
    encoded.unmarshal = .ok value ↔ encoded.StandsFor value := by
  cases encoded with
  | number text =>
      cases read : readNumberText? text <;> cases value <;>
        simp [unmarshal, unmarshalNumber, StandsFor, read]
  | list elements =>
      cases value <;> simp [unmarshal, StandsFor, bind_eq_ok_iff, pure, Except.pure]
  | map fields =>
      cases value <;> simp [unmarshal, StandsFor, bind_eq_ok_iff, pure, Except.pure]
  | numberSet texts =>
      cases value <;> simp [unmarshal, StandsFor, bind_eq_ok_iff, pure, Except.pure]
  | _ => cases value <;> simp [unmarshal, StandsFor]

theorem unmarshalElements_eq_strings_iff {elements : List Attribute} {texts : List String} :
    unmarshalElements elements = .ok (texts.map .string) ↔ elements = texts.map .string := by
  induction elements generalizing texts with
  | nil => cases texts <;> simp [unmarshalElements]
  | cons element rest ih =>
      cases texts with
      | nil => simp [unmarshalElements, bind_eq_ok_iff, pure, Except.pure]
      | cons text others =>
          simp [unmarshalElements, bind_eq_ok_iff, pure, Except.pure, unmarshal_eq_ok_iff,
            StandsFor, ih]

theorem mapM_unmarshalNumber_ne_strings {numbers texts : List String} (filled : texts ≠ []) :
    numbers.mapM unmarshalNumber ≠ .ok (texts.map .string) := by
  cases texts with
  | nil => exact absurd rfl filled
  | cons text others =>
      cases numbers with
      | nil => simp [pure, Except.pure]
      | cons first rest =>
          cases read : readNumberText? first <;>
            simp [List.mapM_cons, bind_eq_ok_iff, unmarshalNumber, read, pure, Except.pure]

end Attribute

namespace Response

variable {response : Response} {index : Nat} {name : String}

theorem value?_eq_some_iff {value : Value} :
    response.value? index name = some value ↔
      ∃ found, response.attribute? index name = some found ∧ found.StandsFor value := by
  simp [value?, Option.bind_eq_some_iff, toOption_eq_some_iff, Attribute.unmarshal_eq_ok_iff]

theorem number?_eq_some_iff {number : Number} :
    response.number? index name = some number ↔
      response.value? index name = some (.number number) := by
  rw [value?_eq_some_iff]
  unfold number? numberText?
  split <;> simp_all [Attribute.StandsFor, readNumberText?]

theorem bool?_eq_some_iff {flag : Bool} :
    response.bool? index name = some flag ↔ response.value? index name = some (.bool flag) := by
  rw [value?_eq_some_iff]
  unfold bool?
  split
  · simp_all [Attribute.StandsFor]
  · cases flag <;> simp_all [Attribute.StandsFor]

theorem string?_eq_some_iff {text : String} :
    response.string? index name = some text ↔
      response.value? index name = some (.string text) := by
  rw [value?_eq_some_iff]
  unfold string?
  split <;> simp_all [Attribute.StandsFor]

theorem stringList?_eq_some_iff {texts : List String} :
    response.stringList? index name = some texts ↔
      response.attribute? index name = some (.stringSet texts) ∨
        response.attribute? index name = some (.list (texts.map .string)) := by
  unfold stringList?
  split
  · simp_all
  · rename_i elements found
    rw [mapM_eq_some_iff_of_inverse Attribute.string]
    · simp [found]
    · intro written value
      cases written <;> simp
  · simp_all

theorem stringList?_of_value? {texts : List String} (filled : texts ≠ [])
    (valued : response.value? index name = some (.list (texts.map .string))) :
    response.stringList? index name = some texts := by
  rw [stringList?_eq_some_iff]
  obtain ⟨found, held, ⟨elements, same, read⟩ | ⟨others, same, read⟩ | ⟨numbers, same, read⟩⟩ :=
    value?_eq_some_iff.mp valued
  · rw [Attribute.unmarshalElements_eq_strings_iff] at read
    exact .inr (by rw [held, same, read])
  · have inj : Function.Injective Value.string := fun _ _ => Value.string.inj
    rw [List.map_injective_iff.mpr inj read] at same
    exact .inl (by rw [held, same])
  · exact absurd read (Attribute.mapM_unmarshalNumber_ne_strings filled)

theorem value?_of_stringList? {texts : List String}
    (seen : response.stringList? index name = some texts) :
    response.value? index name = some (.list (texts.map .string)) := by
  rw [value?_eq_some_iff]
  rcases stringList?_eq_some_iff.mp seen with held | held
  · exact ⟨_, held, .inr (.inl ⟨texts, rfl, rfl⟩)⟩
  · exact ⟨_, held, .inl ⟨_, rfl, Attribute.unmarshalElements_eq_strings_iff.mpr rfl⟩⟩

theorem item?_eq_some_iff {item : Item} :
    response.item? index = .ok (some item) ↔
      ∃ row, response.items[index]? = some row ∧ row.unmarshal = .ok item := by
  unfold item? unmarshalRow?
  cases response.items[index]? with
  | none => simp
  | some row => cases read : row.unmarshal <;> simp [read]

theorem exists_item?_error_iff :
    (∃ error, response.item? index = .error error) ↔
      ∃ row, response.items[index]? = some row ∧ ∃ fault, row.unmarshal = .error fault := by
  unfold item? unmarshalRow?
  cases response.items[index]? with
  | none => simp
  | some row => cases read : row.unmarshal <;> simp [read]

theorem attribute?_eq_get? {row : AttributeMap} (held : response.items[index]? = some row) :
    response.attribute? index name = row.get? name := by
  simp [attribute?, held]

theorem exists_unmarshal_error_iff {row : AttributeMap} (ascending : Fields.Ascending row)
    (held : response.items[index]? = some row) :
    (∃ fault, row.unmarshal = .error fault) ↔
      ∃ name found, response.attribute? index name = some found ∧
        response.value? index name = none := by
  rw [AttributeMap.unmarshal, Attribute.unmarshalFields_eq_traverse,
    Fields.exists_traverse_error_iff]
  simp only [value?, attribute?_eq_get? held]
  constructor
  · rintro ⟨⟨name, found⟩, member, failed⟩
    have got := Fields.get?_of_mem ascending member
    refine ⟨name, found, got, ?_⟩
    rw [got]
    exact toOption_eq_none_iff.mpr failed
  · rintro ⟨name, found, got, valueless⟩
    rw [got] at valueless
    exact ⟨(name, found), Fields.mem_of_get? got, toOption_eq_none_iff.mp valueless⟩

/-- The views of a row and of its fields are views of the unmarshaled values. A number, a flag or
a string is seen exactly where the value is one, and a list of strings where the value is that
list, if it is not empty exactly there. An item holds the values of the fields, and there is no
item exactly if some field has an attribute and no value. -/
theorem views_agree_with_values (response : Response) (index : Nat)
    (ordered : ∀ row ∈ response.items, Fields.Ascending row) :
    (∀ name,
      (∀ number, response.number? index name = some number ↔
        response.value? index name = some (.number number)) ∧
      (∀ flag, response.bool? index name = some flag ↔
        response.value? index name = some (.bool flag)) ∧
      (∀ text, response.string? index name = some text ↔
        response.value? index name = some (.string text)) ∧
      (∀ texts, response.stringList? index name = some texts →
        response.value? index name = some (.list (texts.map .string))) ∧
      ∀ texts, texts ≠ [] → response.value? index name = some (.list (texts.map .string)) →
        response.stringList? index name = some texts) ∧
    (∀ item, response.item? index = .ok (some item) →
      ∀ name, response.value? index name = item.get? name) ∧
    ((∃ error, response.item? index = .error error) ↔
      ∃ name found, response.attribute? index name = some found ∧
        response.value? index name = none) := by
  refine ⟨fun name => ⟨fun _ => number?_eq_some_iff, fun _ => bool?_eq_some_iff,
    fun _ => string?_eq_some_iff, fun _ => value?_of_stringList?,
    fun _ => stringList?_of_value?⟩, fun item read name => ?_, ?_⟩
  · obtain ⟨row, held, unmarshaled⟩ := item?_eq_some_iff.mp read
    rw [AttributeMap.unmarshal, Attribute.unmarshalFields_eq_traverse] at unmarshaled
    rw [Fields.get?_traverse unmarshaled, value?, attribute?_eq_get? held]
    rfl
  · rw [exists_item?_error_iff]
    constructor
    · rintro ⟨row, held, failed⟩
      have ascending := ordered row (List.mem_of_getElem? held)
      exact (exists_unmarshal_error_iff ascending held).mp failed
    · rintro ⟨name, found, got, valueless⟩
      cases held : response.items[index]? with
      | none => simp [attribute?, held] at got
      | some row =>
          have ascending := ordered row (List.mem_of_getElem? held)
          exact ⟨row, rfl,
            (exists_unmarshal_error_iff ascending held).mpr ⟨name, found, got, valueless⟩⟩

theorem views_agree_with_values_of_undecodable_row :
    let row : AttributeMap := [("photo", .binary [1, 2]), ("size", .number " 12 "),
      ("tags", .list [.string "a", .string "b"])]
    let response := Response.ofItems [row]
    response.value? 0 "size" = some (.number (.ofInt 12)) ∧
      response.value? 0 "tags" = some (.list [.string "a", .string "b"]) ∧
        ∃ error, response.item? 0 = .error error := by
  intro row response
  have ascending : ∀ held ∈ response.items, Fields.Ascending held :=
    List.forall_mem_singleton.mpr (by decide)
  obtain ⟨views, -, undecodable⟩ := views_agree_with_values response 0 ascending
  obtain ⟨sizeNumber, -⟩ := views "size"
  obtain ⟨-, -, -, tagsList, -⟩ := views "tags"
  have size : response.number? 0 "size" = some (.ofInt 12) := by decide +kernel
  exact ⟨(sizeNumber _).mp size, tagsList ["a", "b"] rfl,
    undecodable.mpr ⟨"photo", .binary [1, 2], rfl, rfl⟩⟩

end Response

end KeyedStore
