import KeyedStore.Proofs.Attribute.Codec

/-! Reading attributes and writing them again. Not every attribute comes back as it was: numbers
come back in their shortest text, sets as lists, and every null as true. What comes back is the
canonical form, and attributes have one canonical form exactly if they read as one value. -/

namespace KeyedStore

theorem readNumberText?_numberText (number : Number) :
    readNumberText? number.text = some number := by
  cases number with
  | notANumber => decide
  | infinite negative => cases negative <;> decide
  | finite double => exact readNumberText?_text double

def canonicalNumberText (text : String) : String :=
  match readNumberText? text with
  | some number => number.text
  | none => text

theorem canonicalNumberText_of_read {text : String} {number : Number}
    (read : readNumberText? text = some number) : canonicalNumberText text = number.text := by
  simp [canonicalNumberText, read]

theorem readNumberText?_canonical (text : String) :
    readNumberText? (canonicalNumberText text) = readNumberText? text := by
  cases read : readNumberText? text with
  | none => simp [canonicalNumberText, read]
  | some number => rw [canonicalNumberText_of_read read, readNumberText?_numberText]

theorem canonicalNumberText_canonical (text : String) :
    canonicalNumberText (canonicalNumberText text) = canonicalNumberText text := by
  cases read : readNumberText? text with
  | none => simp [canonicalNumberText, read]
  | some number =>
      have again := (readNumberText?_canonical text).trans read
      rw [canonicalNumberText_of_read again, canonicalNumberText_of_read read]

theorem unmarshalNumber_eq_ok_iff {text : String} {value : Value} :
    unmarshalNumber text = .ok value ↔
      ∃ number, readNumberText? text = some number ∧ value = .number number := by
  cases read : readNumberText? text <;> simp [unmarshalNumber, read, @eq_comm _ value]

theorem unmarshalNumber_canonical (text : String) :
    unmarshalNumber (canonicalNumberText text) = unmarshalNumber text := by
  cases read : readNumberText? text with
  | none => simp [canonicalNumberText, read]
  | some number => simp [unmarshalNumber, readNumberText?_canonical, read]

namespace Attribute

mutual

/-- Every number in its shortest text, every null true, and the elements of sets in lists. -/
def canonical : Attribute → Attribute
  | .number text => .number (canonicalNumberText text)
  | .null _ => .null true
  | .list elements => .list (canonicalElements elements)
  | .map fields => .map (canonicalFields fields)
  | .stringSet texts => .list (texts.map .string)
  | .numberSet texts => .list (texts.map fun text => .number (canonicalNumberText text))
  | other => other

def canonicalElements : List Attribute → List Attribute
  | [] => []
  | element :: rest => element.canonical :: canonicalElements rest

def canonicalFields : List (String × Attribute) → List (String × Attribute)
  | [] => []
  | (name, value) :: rest => (name, value.canonical) :: canonicalFields rest

end

mutual

/-- The attributes at any depth that are neither a list nor a map. -/
def leaves : Attribute → List Attribute
  | .list elements => elementLeaves elements
  | .map fields => fieldLeaves fields
  | leaf => [leaf]

def elementLeaves : List Attribute → List Attribute
  | [] => []
  | element :: rest => element.leaves ++ elementLeaves rest

def fieldLeaves : List (String × Attribute) → List Attribute
  | [] => []
  | (_, value) :: rest => value.leaves ++ fieldLeaves rest

end

def numberTexts : Attribute → List String
  | .number text => [text]
  | .numberSet texts => texts
  | _ => []

def isBinary : Attribute → Bool
  | .binary _ => true
  | .binarySet _ => true
  | _ => false

/-- Neither binary nor unknown. -/
def isGeneric : Attribute → Bool
  | .unknown => false
  | leaf => !leaf.isBinary

/-- The leaf is of a generic kind, and its number texts are numbers. -/
def ReadableLeaf (leaf : Attribute) : Prop :=
  leaf.isGeneric = true ∧ ∀ text ∈ leaf.numberTexts, (readNumberText? text).isSome = true

instance (leaf : Attribute) : Decidable leaf.ReadableLeaf :=
  inferInstanceAs (Decidable (_ ∧ _))

def FiniteLeaf (leaf : Attribute) : Prop :=
  ∀ text ∈ leaf.numberTexts, (readNumberText? text).any Number.isFinite = true

instance (leaf : Attribute) : Decidable leaf.FiniteLeaf :=
  inferInstanceAs (Decidable (∀ text ∈ leaf.numberTexts, _))

def Readable (encoded : Attribute) : Prop :=
  ∀ leaf ∈ encoded.leaves, leaf.ReadableLeaf

instance (encoded : Attribute) : Decidable encoded.Readable :=
  inferInstanceAs (Decidable (∀ leaf ∈ encoded.leaves, _))

def AllFinite (encoded : Attribute) : Prop :=
  ∀ leaf ∈ encoded.leaves, leaf.FiniteLeaf

instance (encoded : Attribute) : Decidable encoded.AllFinite :=
  inferInstanceAs (Decidable (∀ leaf ∈ encoded.leaves, _))

theorem exists_mapM_unmarshalNumber_iff (texts : List String) :
    (∃ values, texts.mapM unmarshalNumber = .ok values) ↔
      ∀ text ∈ texts, (readNumberText? text).isSome = true := by
  induction texts with
  | nil => simp [pure, Except.pure]
  | cons text rest ih =>
      rw [List.forall_mem_cons, ← ih]
      simp [List.mapM_cons, bind_eq_ok_iff, unmarshalNumber_eq_ok_iff, pure, Except.pure,
        Option.isSome_iff_exists]

mutual

theorem exists_unmarshal_iff (encoded : Attribute) :
    (∃ value, encoded.unmarshal = .ok value) ↔ encoded.Readable := by
  cases encoded with
  | number text =>
      simp [unmarshal, Readable, leaves, ReadableLeaf, isGeneric, isBinary, numberTexts,
        unmarshalNumber_eq_ok_iff, Option.isSome_iff_exists]
  | numberSet texts =>
      simp [unmarshal, Readable, leaves, ReadableLeaf, isGeneric, isBinary, numberTexts,
        bind_eq_ok_iff, pure, Except.pure, ← exists_mapM_unmarshalNumber_iff]
  | list elements =>
      simp [unmarshal, Readable, leaves, bind_eq_ok_iff, pure, Except.pure,
        ← exists_unmarshalElements_iff elements]
  | map fields =>
      simp [unmarshal, Readable, leaves, bind_eq_ok_iff, pure, Except.pure,
        ← exists_unmarshalFields_iff fields]
  | _ => simp [unmarshal, Readable, leaves, ReadableLeaf, isGeneric, isBinary, numberTexts]

theorem exists_unmarshalElements_iff (elements : List Attribute) :
    (∃ values, unmarshalElements elements = .ok values) ↔
      ∀ leaf ∈ elementLeaves elements, leaf.ReadableLeaf := by
  match elements with
  | [] => simp [unmarshalElements, elementLeaves]
  | element :: rest =>
      rw [elementLeaves, List.forall_mem_append, ← exists_unmarshalElements_iff rest,
        ← Readable, ← exists_unmarshal_iff element]
      simp [unmarshalElements, bind_eq_ok_iff, pure, Except.pure]

theorem exists_unmarshalFields_iff (fields : List (String × Attribute)) :
    (∃ values, unmarshalFields fields = .ok values) ↔
      ∀ leaf ∈ fieldLeaves fields, leaf.ReadableLeaf := by
  match fields with
  | [] => simp [unmarshalFields, fieldLeaves]
  | (name, value) :: rest =>
      rw [fieldLeaves, List.forall_mem_append, ← exists_unmarshalFields_iff rest,
        ← Readable, ← exists_unmarshal_iff value]
      simp [unmarshalFields, bind_eq_ok_iff, pure, Except.pure]

end

theorem marshal_of_unmarshalNumber {text : String} {value : Value}
    (finite : (readNumberText? text).any Number.isFinite = true)
    (read : unmarshalNumber text = .ok value) :
    value.marshal = .ok (.number (canonicalNumberText text)) := by
  obtain ⟨number, found, rfl⟩ := unmarshalNumber_eq_ok_iff.mp read
  rw [found, Option.any_some] at finite
  rw [Value.marshal, Number.marshal_eq_ok_iff.mpr ⟨finite, rfl⟩,
    canonicalNumberText_of_read found]
  rfl

theorem marshalElements_of_numbers {texts : List String} {values : List Value}
    (finite : ∀ text ∈ texts, (readNumberText? text).any Number.isFinite = true)
    (read : texts.mapM unmarshalNumber = .ok values) :
    Value.marshalElements values =
      .ok (texts.map fun text => .number (canonicalNumberText text)) := by
  induction texts generalizing values with
  | nil =>
      simp only [List.mapM_nil, pure, Except.pure, Except.ok.injEq] at read
      rw [← read]
      rfl
  | cons text rest ih =>
      obtain ⟨firstFinite, restFinite⟩ := List.forall_mem_cons.mp finite
      simp only [List.mapM_cons, bind_eq_ok_iff, pure, Except.pure, Except.ok.injEq] at read
      obtain ⟨value, firstRead, others, restRead, rfl⟩ := read
      rw [Value.marshalElements, marshal_of_unmarshalNumber firstFinite firstRead,
        ih restFinite restRead]
      rfl

theorem marshalElements_strings (texts : List String) :
    Value.marshalElements (texts.map .string) = .ok (texts.map .string) := by
  induction texts with
  | nil => rfl
  | cons text rest ih =>
      rw [List.map_cons, Value.marshalElements, ih]
      rfl

mutual

theorem marshal_of_unmarshal {encoded : Attribute} {value : Value}
    (finite : encoded.AllFinite) (read : encoded.unmarshal = .ok value) :
    value.marshal = .ok encoded.canonical := by
  cases encoded with
  | number text =>
      have number : (Attribute.number text).FiniteLeaf := finite _ (List.mem_singleton_self _)
      exact marshal_of_unmarshalNumber (number text (List.mem_singleton_self _)) read
  | numberSet texts =>
      have numbers : (Attribute.numberSet texts).FiniteLeaf := finite _ (List.mem_singleton_self _)
      simp only [unmarshal, bind_eq_ok_iff, pure, Except.pure, Except.ok.injEq] at read
      obtain ⟨values, elementsRead, rfl⟩ := read
      rw [Value.marshal, marshalElements_of_numbers numbers elementsRead]
      rfl
  | stringSet texts =>
      simp only [unmarshal, Except.ok.injEq] at read
      rw [← read, Value.marshal, marshalElements_strings]
      rfl
  | list elements =>
      simp only [unmarshal, bind_eq_ok_iff, pure, Except.pure, Except.ok.injEq] at read
      obtain ⟨values, elementsRead, rfl⟩ := read
      rw [Value.marshal, marshalElements_of_unmarshal finite elementsRead]
      rfl
  | map fields =>
      simp only [unmarshal, bind_eq_ok_iff, pure, Except.pure, Except.ok.injEq] at read
      obtain ⟨values, fieldsRead, rfl⟩ := read
      rw [Value.marshal, marshalFields_of_unmarshal finite fieldsRead]
      rfl
  | binary bytes => simp [unmarshal] at read
  | binarySet members => simp [unmarshal] at read
  | unknown => simp [unmarshal] at read
  | _ =>
      simp only [unmarshal, Except.ok.injEq] at read
      rw [← read]
      rfl

theorem marshalElements_of_unmarshal {elements : List Attribute} {values : List Value}
    (finite : ∀ leaf ∈ elementLeaves elements, leaf.FiniteLeaf)
    (read : unmarshalElements elements = .ok values) :
    Value.marshalElements values = .ok (canonicalElements elements) := by
  match elements with
  | [] =>
      simp only [unmarshalElements, Except.ok.injEq] at read
      rw [← read]
      rfl
  | element :: rest =>
      obtain ⟨firstFinite, restFinite⟩ := List.forall_mem_append.mp finite
      simp only [unmarshalElements, bind_eq_ok_iff, pure, Except.pure, Except.ok.injEq] at read
      obtain ⟨value, firstRead, others, restRead, rfl⟩ := read
      rw [Value.marshalElements, marshal_of_unmarshal firstFinite firstRead,
        marshalElements_of_unmarshal restFinite restRead]
      rfl

theorem marshalFields_of_unmarshal {fields : List (String × Attribute)}
    {values : List (String × Value)}
    (finite : ∀ leaf ∈ fieldLeaves fields, leaf.FiniteLeaf)
    (read : unmarshalFields fields = .ok values) :
    Value.marshalFields values = .ok (canonicalFields fields) := by
  match fields with
  | [] =>
      simp only [unmarshalFields, Except.ok.injEq] at read
      rw [← read]
      rfl
  | (name, encoded) :: rest =>
      obtain ⟨firstFinite, restFinite⟩ := List.forall_mem_append.mp finite
      simp only [unmarshalFields, bind_eq_ok_iff, pure, Except.pure, Except.ok.injEq] at read
      obtain ⟨value, firstRead, others, restRead, rfl⟩ := read
      rw [Value.marshalFields, marshal_of_unmarshal firstFinite firstRead,
        marshalFields_of_unmarshal restFinite restRead]
      rfl

end

theorem unmarshalElements_strings (texts : List String) :
    unmarshalElements (texts.map .string) = .ok (texts.map .string) := by
  induction texts with
  | nil => rfl
  | cons text rest ih =>
      rw [List.map_cons, unmarshalElements, ih]
      rfl

theorem unmarshalElements_canonicalNumbers (texts : List String) :
    unmarshalElements (texts.map fun text => .number (canonicalNumberText text)) =
      texts.mapM unmarshalNumber := by
  induction texts with
  | nil => rfl
  | cons text rest ih =>
      rw [List.map_cons, unmarshalElements, unmarshal, unmarshalNumber_canonical, ih,
        List.mapM_cons]

mutual

theorem unmarshal_canonical (encoded : Attribute) :
    encoded.canonical.unmarshal = encoded.unmarshal := by
  cases encoded with
  | number text => exact unmarshalNumber_canonical text
  | numberSet texts =>
      rw [canonical, unmarshal, unmarshalElements_canonicalNumbers, unmarshal]
  | stringSet texts =>
      rw [canonical, unmarshal, unmarshalElements_strings, unmarshal]
      rfl
  | list elements =>
      rw [canonical, unmarshal, unmarshalElements_canonical elements, unmarshal]
  | map fields => rw [canonical, unmarshal, unmarshalFields_canonical fields, unmarshal]
  | _ => rfl

theorem unmarshalElements_canonical (elements : List Attribute) :
    unmarshalElements (canonicalElements elements) = unmarshalElements elements := by
  match elements with
  | [] => rfl
  | element :: rest =>
      rw [canonicalElements, unmarshalElements, unmarshal_canonical element,
        unmarshalElements_canonical rest, unmarshalElements]

theorem unmarshalFields_canonical (fields : List (String × Attribute)) :
    unmarshalFields (canonicalFields fields) = unmarshalFields fields := by
  match fields with
  | [] => rfl
  | (name, value) :: rest =>
      rw [canonicalFields, unmarshalFields, unmarshal_canonical value,
        unmarshalFields_canonical rest, unmarshalFields]

end

theorem canonicalElements_eq_map (elements : List Attribute) :
    canonicalElements elements = elements.map canonical := by
  induction elements with
  | nil => rfl
  | cons element rest ih => rw [canonicalElements, ih, List.map_cons]

mutual

theorem canonical_canonical (encoded : Attribute) :
    encoded.canonical.canonical = encoded.canonical := by
  cases encoded with
  | number text => rw [canonical, canonical, canonicalNumberText_canonical]
  | numberSet texts =>
      simp [canonical, canonicalElements_eq_map, canonicalNumberText_canonical]
  | stringSet texts => simp [canonical, canonicalElements_eq_map]
  | list elements => rw [canonical, canonical, canonicalElements_canonical elements]
  | map fields => rw [canonical, canonical, canonicalFields_canonical fields]
  | _ => rfl

theorem canonicalElements_canonical (elements : List Attribute) :
    canonicalElements (canonicalElements elements) = canonicalElements elements := by
  match elements with
  | [] => rfl
  | element :: rest =>
      rw [canonicalElements, canonicalElements, canonical_canonical element,
        canonicalElements_canonical rest]

theorem canonicalFields_canonical (fields : List (String × Attribute)) :
    canonicalFields (canonicalFields fields) = canonicalFields fields := by
  match fields with
  | [] => rfl
  | (name, value) :: rest =>
      rw [canonicalFields, canonicalFields, canonical_canonical value,
        canonicalFields_canonical rest]

end

/-- All number texts at any depth are ones that finite numbers are written as. -/
def NumbersWritten (encoded : Attribute) : Prop :=
  ∀ leaf ∈ encoded.leaves, ∀ text ∈ leaf.numberTexts,
    ∃ number : Number, number.marshal = .ok text

def keepsForm : Attribute → Bool
  | .stringSet _ => false
  | .numberSet _ => false
  | .null flag => flag
  | _ => true

theorem canonicalNumberText_of_marshal {number : Number} {text : String}
    (written : number.marshal = .ok text) : canonicalNumberText text = text := by
  obtain ⟨-, rfl⟩ := Number.marshal_eq_ok_iff.mp written
  exact canonicalNumberText_of_read (readNumberText?_numberText number)

theorem NumbersWritten.allFinite {encoded : Attribute} (written : encoded.NumbersWritten) :
    encoded.AllFinite := by
  intro leaf member text inLeaf
  obtain ⟨number, marshaled⟩ := written leaf member text inLeaf
  obtain ⟨finite, rfl⟩ := Number.marshal_eq_ok_iff.mp marshaled
  rw [readNumberText?_numberText, Option.any_some, finite]

mutual

theorem canonical_eq_self_iff {encoded : Attribute} (written : encoded.NumbersWritten) :
    encoded.canonical = encoded ↔ ∀ leaf ∈ encoded.leaves, leaf.keepsForm = true := by
  cases encoded with
  | number text =>
      obtain ⟨number, marshaled⟩ := written (.number text) (by simp [leaves]) text
        (by simp [numberTexts])
      simp [canonical, leaves, keepsForm, canonicalNumberText_of_marshal marshaled]
  | list elements =>
      simpa [canonical, leaves] using canonicalElements_eq_self_iff written
  | map fields =>
      simpa [canonical, leaves] using canonicalFields_eq_self_iff written
  | null flag => simp [canonical, leaves, keepsForm, @eq_comm _ true]
  | _ => simp [canonical, leaves, keepsForm]

theorem canonicalElements_eq_self_iff {elements : List Attribute}
    (written : ∀ leaf ∈ elementLeaves elements, ∀ text ∈ leaf.numberTexts,
      ∃ number : Number, number.marshal = .ok text) :
    canonicalElements elements = elements ↔
      ∀ leaf ∈ elementLeaves elements, leaf.keepsForm = true := by
  match elements with
  | [] => simp [canonicalElements, elementLeaves]
  | element :: rest =>
      obtain ⟨first, others⟩ := List.forall_mem_append.mp written
      rw [canonicalElements, elementLeaves, List.forall_mem_append, List.cons.injEq,
        canonical_eq_self_iff first, canonicalElements_eq_self_iff others]

theorem canonicalFields_eq_self_iff {fields : List (String × Attribute)}
    (written : ∀ leaf ∈ fieldLeaves fields, ∀ text ∈ leaf.numberTexts,
      ∃ number : Number, number.marshal = .ok text) :
    canonicalFields fields = fields ↔ ∀ leaf ∈ fieldLeaves fields, leaf.keepsForm = true := by
  match fields with
  | [] => simp [canonicalFields, fieldLeaves]
  | (name, encoded) :: rest =>
      obtain ⟨first, others⟩ := List.forall_mem_append.mp written
      rw [canonicalFields, fieldLeaves, List.forall_mem_append, List.cons.injEq, Prod.mk.injEq,
        canonical_eq_self_iff first, canonicalFields_eq_self_iff others]
      simp

end

theorem canonicalFields_eq_map (fields : List (String × Attribute)) :
    canonicalFields fields = fields.map fun field => (field.1, field.2.canonical) := by
  induction fields with
  | nil => rfl
  | cons field rest ih => rw [canonicalFields, ih, List.map_cons]

theorem forall_mem_fieldLeaves {holds : Attribute → Prop} (fields : List (String × Attribute)) :
    (∀ leaf ∈ fieldLeaves fields, holds leaf) ↔
      ∀ field ∈ fields, ∀ leaf ∈ field.2.leaves, holds leaf := by
  induction fields with
  | nil => simp [fieldLeaves]
  | cons field rest ih =>
      rw [fieldLeaves, List.forall_mem_append, List.forall_mem_cons, ih]

def isEmptyString : Attribute → Bool
  | .string text => text.isEmpty
  | _ => false

theorem isEmptyString_of_unmarshal {encoded : Attribute} {value : Value}
    (read : encoded.unmarshal = .ok value) : value.isEmptyString = encoded.isEmptyString := by
  cases encoded with
  | number text =>
      obtain ⟨number, -, rfl⟩ := unmarshalNumber_eq_ok_iff.mp read
      rfl
  | numberSet texts =>
      simp only [unmarshal, bind_eq_ok_iff, pure, Except.pure, Except.ok.injEq] at read
      obtain ⟨values, -, rfl⟩ := read
      rfl
  | list elements =>
      simp only [unmarshal, bind_eq_ok_iff, pure, Except.pure, Except.ok.injEq] at read
      obtain ⟨values, -, rfl⟩ := read
      rfl
  | map fields =>
      simp only [unmarshal, bind_eq_ok_iff, pure, Except.pure, Except.ok.injEq] at read
      obtain ⟨values, -, rfl⟩ := read
      rfl
  | binary bytes => simp [unmarshal] at read
  | binarySet members => simp [unmarshal] at read
  | unknown => simp [unmarshal] at read
  | _ =>
      rw [← Except.ok.inj read]
      rfl

theorem unmarshalFields_filter {fields : List (String × Attribute)}
    {values : List (String × Value)} (read : unmarshalFields fields = .ok values) :
    unmarshalFields (fields.filter fun field => !field.2.isEmptyString) =
      .ok (values.filter fun field => !field.2.isEmptyString) := by
  induction fields generalizing values with
  | nil =>
      simp only [unmarshalFields, Except.ok.injEq] at read
      rw [← read]
      rfl
  | cons field rest ih =>
      obtain ⟨name, encoded⟩ := field
      simp only [unmarshalFields, bind_eq_ok_iff, pure, Except.pure, Except.ok.injEq] at read
      obtain ⟨value, firstRead, others, restRead, rfl⟩ := read
      have same := isEmptyString_of_unmarshal firstRead
      cases empty : encoded.isEmptyString with
      | true => simp [empty, same, ih restRead]
      | false =>
          simp [empty, same, unmarshalFields, firstRead, ih restRead, bind, Except.bind, pure,
            Except.pure]

def rewritten (encoded : Attribute) : Except MarshalError Attribute :=
  encoded.unmarshal >>= Value.marshal

end Attribute

namespace AttributeMap

def rewritten (row : AttributeMap) : Except MarshalError AttributeMap :=
  row.unmarshal >>= Item.marshal

/-- The row field by field, without the fields that hold the empty string. -/
def canonical (row : AttributeMap) : AttributeMap :=
  (row.filter fun field => !field.2.isEmptyString).map fun field => (field.1, field.2.canonical)

theorem marshal_of_unmarshal {row : AttributeMap} {item : Item}
    (finite : ∀ field ∈ row, field.2.AllFinite) (read : row.unmarshal = .ok item) :
    item.marshal = .ok row.canonical := by
  have kept : ∀ leaf ∈ Attribute.fieldLeaves (row.filter fun field => !field.2.isEmptyString),
      leaf.FiniteLeaf := by
    rw [Attribute.forall_mem_fieldLeaves]
    exact fun field member => finite field (List.mem_of_mem_filter member)
  rw [Item.marshal, canonical, ← Attribute.canonicalFields_eq_map]
  exact Attribute.marshalFields_of_unmarshal kept (Attribute.unmarshalFields_filter read)

theorem canonical_eq_self_iff {row : AttributeMap}
    (written : ∀ field ∈ row, field.2.NumbersWritten) :
    row.canonical = row ↔
      ∀ field ∈ row, field.2.isEmptyString = false ∧
        ∀ leaf ∈ field.2.leaves, leaf.keepsForm = true := by
  have texts := (Attribute.forall_mem_fieldLeaves row).mpr written
  rw [forall₂_and, ← Attribute.forall_mem_fieldLeaves,
    ← Attribute.canonicalFields_eq_self_iff texts]
  constructor
  · intro same
    have whole : row.filter (fun field => !field.2.isEmptyString) = row := by
      apply List.filter_eq_self.mpr
      apply List.length_filter_eq_length_iff.mp
      have length := congrArg List.length same
      simpa [canonical] using length
    refine ⟨by simpa using whole, ?_⟩
    rwa [canonical, whole, ← Attribute.canonicalFields_eq_map] at same
  · rintro ⟨filled, same⟩
    have whole : row.filter (fun field => !field.2.isEmptyString) = row := by
      simpa using filled
    rw [canonical, whole, ← Attribute.canonicalFields_eq_map, same]

theorem unmarshal_canonical {row : AttributeMap} {item : Item} (read : row.unmarshal = .ok item) :
    row.canonical.unmarshal = .ok (item.filter fun field => !field.2.isEmptyString) := by
  rw [canonical, ← Attribute.canonicalFields_eq_map, unmarshal,
    Attribute.unmarshalFields_canonical]
  exact Attribute.unmarshalFields_filter read

theorem rewritten_canonical {row : AttributeMap} {item : Item}
    (finite : ∀ field ∈ row, field.2.AllFinite) (read : row.unmarshal = .ok item) :
    row.canonical.rewritten = .ok row.canonical := by
  rw [rewritten, unmarshal_canonical read, ← marshal_of_unmarshal finite read]
  simp [Item.marshal, bind, Except.bind]

end AttributeMap

/-- Reading an attribute and writing it again. An attribute reads exactly if it holds nothing
binary or unknown and its number texts are numbers, blanks around them left out. If all these
numbers are finite it is written in its canonical form, which is its own canonical form and reads
as the attribute does, so attributes read as one value exactly if their canonical forms are equal.
Rows are rewritten field by field, less their own empty strings, and a second time is as good as
once. -/
theorem rewritten_in_canonical_form :
    (∀ encoded : Attribute,
      ((∃ value, encoded.unmarshal = .ok value) ↔ encoded.Readable) ∧
        (encoded.Readable → encoded.AllFinite → encoded.rewritten = .ok encoded.canonical) ∧
        encoded.canonical.canonical = encoded.canonical ∧
        encoded.canonical.unmarshal = encoded.unmarshal) ∧
      (∀ left right : Attribute, ∀ leftValue rightValue : Value,
        left.unmarshal = .ok leftValue → left.AllFinite →
          right.unmarshal = .ok rightValue → right.AllFinite →
            (leftValue = rightValue ↔ left.canonical = right.canonical)) ∧
      ∀ row : AttributeMap,
        ((∃ item, row.unmarshal = .ok item) ↔ ∀ field ∈ row, field.2.Readable) ∧
          ((∀ field ∈ row, field.2.Readable) → (∀ field ∈ row, field.2.AllFinite) →
            row.rewritten = .ok row.canonical ∧ row.canonical.rewritten = .ok row.canonical) := by
  refine ⟨fun encoded => ?_, fun left right leftValue rightValue => ?_, fun row => ?_⟩
  · refine ⟨encoded.exists_unmarshal_iff, fun readable finite => ?_,
      encoded.canonical_canonical, encoded.unmarshal_canonical⟩
    obtain ⟨value, read⟩ := encoded.exists_unmarshal_iff.mpr readable
    rw [Attribute.rewritten, read]
    exact Attribute.marshal_of_unmarshal finite read
  · intro leftRead leftFinite rightRead rightFinite
    have leftWritten := Attribute.marshal_of_unmarshal leftFinite leftRead
    have rightWritten := Attribute.marshal_of_unmarshal rightFinite rightRead
    constructor
    · intro same
      rw [same, rightWritten] at leftWritten
      exact (Except.ok.inj leftWritten).symm
    · intro same
      have read := left.unmarshal_canonical.trans leftRead
      rw [same, right.unmarshal_canonical, rightRead] at read
      exact (Except.ok.inj read).symm
  · have readable : (∃ item, row.unmarshal = .ok item) ↔ ∀ field ∈ row, field.2.Readable :=
      (Attribute.exists_unmarshalFields_iff row).trans (Attribute.forall_mem_fieldLeaves row)
    refine ⟨readable, fun allReadable finite => ?_⟩
    obtain ⟨item, read⟩ := readable.mpr allReadable
    refine ⟨?_, AttributeMap.rewritten_canonical finite read⟩
    rw [AttributeMap.rewritten, read]
    exact AttributeMap.marshal_of_unmarshal finite read

theorem rewritten_in_canonical_form_of_sets :
    let row : AttributeMap := [("blank", .string ""), ("gone", .null false),
      ("sizes", .numberSet ["007", " 1e1"]), ("tags", .stringSet ["a", ""])]
    row.rewritten = .ok [("gone", .null true),
      ("sizes", .list [.number "7", .number "10"]), ("tags", .list [.string "a", .string ""])] := by
  intro row
  have readable : ∀ field ∈ row, field.2.Readable := by decide +kernel
  have finite : ∀ field ∈ row, field.2.AllFinite := by decide +kernel
  have canonical : row.canonical = [("gone", .null true),
      ("sizes", .list [.number "7", .number "10"]), ("tags", .list [.string "a", .string ""])] := by
    decide +kernel
  rw [((rewritten_in_canonical_form.2.2 row).2 readable finite).1, canonical]

/-- An unknown attribute has no value, though it is not binary and has no number text; and blanks
around a number are no part of a number, yet its attribute has a value. -/
theorem unknown_attribute_has_no_value :
    (Attribute.unknown.unmarshal = .error (.unsupported "unknown") ∧
      ∀ leaf ∈ Attribute.unknown.leaves, leaf.isBinary = false ∧ leaf.numberTexts = []) ∧
    (Attribute.number " 12 ").unmarshal = .ok (.number (.ofInt 12)) ∧
      Number.read? " 12 ".toList = none := by
  refine ⟨⟨rfl, by decide⟩, ?_, by decide +kernel⟩
  have read : readNumberText? " 12 " = some (.ofInt 12) := by decide +kernel
  exact unmarshalNumber_eq_ok_iff.mpr ⟨_, read, rfl⟩

end KeyedStore
