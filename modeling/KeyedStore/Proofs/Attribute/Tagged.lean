import KeyedStore.Attribute.Json
import KeyedStore.Proofs.Attribute.Canonical
import KeyedStore.Proofs.Json.Document
import KeyedStore.Proofs.Json.RoundTrip

/-! Attributes as tagged JSON trees. The reader undoes the tagged form: it accepts the trees that
attributes are written as and no others, and a text exactly if it holds an object of such trees. -/

namespace KeyedStore

theorem stringElements?_eq_some_iff {elements : List Json} {texts : List String} :
    stringElements? elements = some texts ↔ elements = texts.map .string := by
  rw [stringElements?, mapM_eq_some_iff_of_inverse Json.string]
  intro written value
  cases written <;> simp

namespace Attribute

mutual

/-- The tagged tree of an attribute. Nothing binary or unknown has one. -/
def toJson? : Attribute → Option Json
  | .string text => some (.object [("S", .string text)])
  | .number text => some (.object [("N", .string text)])
  | .bool flag => some (.object [("BOOL", .bool flag)])
  | .null flag => some (.object [("NULL", .bool flag)])
  | .list elements => return .object [("L", .array (← elementsToJson? elements))]
  | .map fields => return .object [("M", .object (← fieldsToJson? fields))]
  | .stringSet texts => some (.object [("SS", .array (texts.map .string))])
  | .numberSet texts => some (.object [("NS", .array (texts.map .string))])
  | .binary _ => none
  | .binarySet _ => none
  | .unknown => none

def elementsToJson? : List Attribute → Option (List Json)
  | [] => some []
  | element :: rest => do
      let tree ← element.toJson?
      let trees ← elementsToJson? rest
      return tree :: trees

def fieldsToJson? : List (String × Attribute) → Option (List (String × Json))
  | [] => some []
  | (name, value) :: rest => do
      let tree ← value.toJson?
      let members ← fieldsToJson? rest
      return (name, tree) :: members

end

theorem toJson?_list_eq_some_iff {elements : List Attribute} {tree : Json} :
    (list elements).toJson? = some tree ↔
      ∃ trees, elementsToJson? elements = some trees ∧ .object [("L", .array trees)] = tree := by
  simp [toJson?, Option.bind_eq_some_iff]

theorem toJson?_map_eq_some_iff {fields : List (String × Attribute)} {tree : Json} :
    (map fields).toJson? = some tree ↔
      ∃ members, fieldsToJson? fields = some members ∧
        .object [("M", .object members)] = tree := by
  simp [toJson?, Option.bind_eq_some_iff]

theorem elementsToJson?_cons_eq_some_iff {element : Attribute} {rest : List Attribute}
    {trees : List Json} :
    elementsToJson? (element :: rest) = some trees ↔
      ∃ tree, element.toJson? = some tree ∧
        ∃ others, elementsToJson? rest = some others ∧ tree :: others = trees := by
  simp [elementsToJson?, Option.bind_eq_some_iff]

theorem fieldsToJson?_cons_eq_some_iff {name : String} {value : Attribute}
    {rest : List (String × Attribute)} {members : List (String × Json)} :
    fieldsToJson? ((name, value) :: rest) = some members ↔
      ∃ tree, value.toJson? = some tree ∧
        ∃ others, fieldsToJson? rest = some others ∧ (name, tree) :: others = members := by
  simp [fieldsToJson?, Option.bind_eq_some_iff]

mutual

theorem ofJson_of_toJson? {encoded : Attribute} {tree : Json}
    (tagged : encoded.toJson? = some tree) : ofJson tree = .ok encoded := by
  cases encoded with
  | list elements =>
      obtain ⟨trees, written, rfl⟩ := toJson?_list_eq_some_iff.mp tagged
      rw [ofJson, ofElements_of_elementsToJson? written]
      rfl
  | map fields =>
      obtain ⟨members, written, rfl⟩ := toJson?_map_eq_some_iff.mp tagged
      rw [ofJson, ofMembers_of_fieldsToJson? written]
      rfl
  | stringSet texts =>
      simp only [toJson?, Option.some.injEq] at tagged
      rw [← tagged, ofJson, stringElements?_eq_some_iff.mpr rfl]
  | numberSet texts =>
      simp only [toJson?, Option.some.injEq] at tagged
      rw [← tagged, ofJson, stringElements?_eq_some_iff.mpr rfl]
  | binary bytes => simp [toJson?] at tagged
  | binarySet members => simp [toJson?] at tagged
  | unknown => simp [toJson?] at tagged
  | _ =>
      simp only [toJson?, Option.some.injEq] at tagged
      rw [← tagged, ofJson]

theorem ofElements_of_elementsToJson? {elements : List Attribute} {trees : List Json}
    (tagged : elementsToJson? elements = some trees) : ofElements trees = .ok elements := by
  match elements with
  | [] =>
      simp only [elementsToJson?, Option.some.injEq] at tagged
      rw [← tagged, ofElements]
  | element :: rest =>
      obtain ⟨tree, first, others, later, rfl⟩ := elementsToJson?_cons_eq_some_iff.mp tagged
      rw [ofElements, ofJson_of_toJson? first, ofElements_of_elementsToJson? later]
      rfl

theorem ofMembers_of_fieldsToJson? {fields : List (String × Attribute)}
    {members : List (String × Json)} (tagged : fieldsToJson? fields = some members) :
    ofMembers members = .ok fields := by
  match fields with
  | [] =>
      simp only [fieldsToJson?, Option.some.injEq] at tagged
      rw [← tagged, ofMembers]
  | (name, value) :: rest =>
      obtain ⟨tree, first, others, later, rfl⟩ := fieldsToJson?_cons_eq_some_iff.mp tagged
      rw [ofMembers, ofJson_of_toJson? first, ofMembers_of_fieldsToJson? later]
      rfl

end

mutual

theorem toJson?_of_ofJson {tree : Json} {encoded : Attribute} (read : ofJson tree = .ok encoded) :
    encoded.toJson? = some tree := by
  unfold ofJson at read
  split at read
  · rw [← Except.ok.inj read, toJson?]
  · rw [← Except.ok.inj read, toJson?]
  · rw [← Except.ok.inj read, toJson?]
  · rw [← Except.ok.inj read, toJson?]
  · rename_i trees
    obtain ⟨elements, elementsRead, same⟩ := bind_eq_ok_iff.mp read
    rw [← Except.ok.inj same, toJson?, elementsToJson?_of_ofElements elementsRead]
    rfl
  · rename_i members
    obtain ⟨fields, fieldsRead, same⟩ := bind_eq_ok_iff.mp read
    rw [← Except.ok.inj same, toJson?, fieldsToJson?_of_ofMembers fieldsRead]
    rfl
  · split at read
    · rename_i texts strings
      rw [← Except.ok.inj read, toJson?, stringElements?_eq_some_iff.mp strings]
    · simp at read
  · split at read
    · rename_i texts strings
      rw [← Except.ok.inj read, toJson?, stringElements?_eq_some_iff.mp strings]
    · simp at read
  · simp at read

theorem elementsToJson?_of_ofElements {trees : List Json} {elements : List Attribute}
    (read : ofElements trees = .ok elements) : elementsToJson? elements = some trees := by
  match trees with
  | [] =>
      rw [ofElements] at read
      rw [← Except.ok.inj read, elementsToJson?]
  | tree :: rest =>
      simp only [ofElements, bind_eq_ok_iff, pure, Except.pure, Except.ok.injEq] at read
      obtain ⟨element, first, others, later, rfl⟩ := read
      rw [elementsToJson?, toJson?_of_ofJson first, elementsToJson?_of_ofElements later]
      rfl

theorem fieldsToJson?_of_ofMembers {members : List (String × Json)}
    {fields : List (String × Attribute)} (read : ofMembers members = .ok fields) :
    fieldsToJson? fields = some members := by
  match members with
  | [] =>
      rw [ofMembers] at read
      rw [← Except.ok.inj read, fieldsToJson?]
  | (name, tree) :: rest =>
      simp only [ofMembers, bind_eq_ok_iff, pure, Except.pure, Except.ok.injEq] at read
      obtain ⟨value, first, others, later, rfl⟩ := read
      rw [fieldsToJson?, toJson?_of_ofJson first, fieldsToJson?_of_ofMembers later]
      rfl

end

/-- A fault is that of a tree of which it is the fault already. -/
def NamesUntagged (fault : MarshalError) : Prop :=
  ∃ part, fault = .malformed (.untagged part) ∧ ofJson part = .error fault

mutual

theorem namesUntagged_of_ofJson {tree : Json} {fault : MarshalError}
    (refused : ofJson tree = .error fault) : NamesUntagged fault := by
  have whole := refused
  unfold ofJson at refused
  split at refused
  · simp at refused
  · simp at refused
  · simp at refused
  · simp at refused
  · rename_i trees
    rcases bind_eq_error_iff.mp refused with within | ⟨elements, -, same⟩
    · exact namesUntagged_of_ofElements within
    · simp [pure, Except.pure] at same
  · rename_i members
    rcases bind_eq_error_iff.mp refused with within | ⟨fields, -, same⟩
    · exact namesUntagged_of_ofMembers within
    · simp [pure, Except.pure] at same
  · split at refused
    · simp at refused
    · exact ⟨_, (Except.error.inj refused).symm, whole⟩
  · split at refused
    · simp at refused
    · exact ⟨_, (Except.error.inj refused).symm, whole⟩
  · exact ⟨_, (Except.error.inj refused).symm, whole⟩

theorem namesUntagged_of_ofElements {trees : List Json} {fault : MarshalError}
    (refused : ofElements trees = .error fault) : NamesUntagged fault := by
  match trees with
  | [] => simp [ofElements] at refused
  | tree :: rest =>
      rw [ofElements, bind_eq_error_iff] at refused
      rcases refused with first | ⟨element, -, later⟩
      · exact namesUntagged_of_ofJson first
      · rcases bind_eq_error_iff.mp later with within | ⟨others, -, same⟩
        · exact namesUntagged_of_ofElements within
        · simp [pure, Except.pure] at same

theorem namesUntagged_of_ofMembers {members : List (String × Json)} {fault : MarshalError}
    (refused : ofMembers members = .error fault) : NamesUntagged fault := by
  match members with
  | [] => simp [ofMembers] at refused
  | (name, tree) :: rest =>
      rw [ofMembers, bind_eq_error_iff] at refused
      rcases refused with first | ⟨value, -, later⟩
      · exact namesUntagged_of_ofJson first
      · rcases bind_eq_error_iff.mp later with within | ⟨others, -, same⟩
        · exact namesUntagged_of_ofMembers within
        · simp [pure, Except.pure] at same

end

theorem ofJson_eq_ok_iff {tree : Json} {encoded : Attribute} :
    ofJson tree = .ok encoded ↔ encoded.toJson? = some tree :=
  ⟨toJson?_of_ofJson, ofJson_of_toJson?⟩

theorem ofMembers_eq_ok_iff {members : Fields Json} {fields : Fields Attribute} :
    ofMembers members = .ok fields ↔ fieldsToJson? fields = some members :=
  ⟨fieldsToJson?_of_ofMembers, ofMembers_of_fieldsToJson?⟩

theorem ofMembers_eq_traverse (members : Fields Json) :
    ofMembers members = members.traverse ofJson := by
  induction members with
  | nil => rfl
  | cons member rest ih => rw [ofMembers, Fields.traverse, ih]

mutual

theorem exists_toJson?_iff (encoded : Attribute) :
    (∃ tree, encoded.toJson? = some tree) ↔ ∀ leaf ∈ encoded.leaves, leaf.isGeneric = true := by
  cases encoded with
  | list elements =>
      simp [toJson?, leaves, Option.bind_eq_some_iff, ← exists_elementsToJson?_iff elements]
  | map fields =>
      simp [toJson?, leaves, Option.bind_eq_some_iff, ← exists_fieldsToJson?_iff fields]
  | _ => simp [toJson?, leaves, isGeneric, isBinary]

theorem exists_elementsToJson?_iff (elements : List Attribute) :
    (∃ trees, elementsToJson? elements = some trees) ↔
      ∀ leaf ∈ elementLeaves elements, leaf.isGeneric = true := by
  match elements with
  | [] => simp [elementsToJson?, elementLeaves]
  | element :: rest =>
      rw [elementLeaves, List.forall_mem_append, ← exists_toJson?_iff element,
        ← exists_elementsToJson?_iff rest]
      simp [elementsToJson?, Option.bind_eq_some_iff]

theorem exists_fieldsToJson?_iff (fields : List (String × Attribute)) :
    (∃ members, fieldsToJson? fields = some members) ↔
      ∀ leaf ∈ fieldLeaves fields, leaf.isGeneric = true := by
  match fields with
  | [] => simp [fieldsToJson?, fieldLeaves]
  | (name, value) :: rest =>
      rw [fieldLeaves, List.forall_mem_append, ← exists_toJson?_iff value,
        ← exists_fieldsToJson?_iff rest]
      simp [fieldsToJson?, Option.bind_eq_some_iff]

end

mutual

def depth : Attribute → Nat
  | .list elements => elementsDepth elements + 2
  | .map fields => fieldsDepth fields + 2
  | .stringSet _ => 2
  | .numberSet _ => 2
  | _ => 1

def elementsDepth : List Attribute → Nat
  | [] => 0
  | element :: rest => max element.depth (elementsDepth rest)

def fieldsDepth : List (String × Attribute) → Nat
  | [] => 0
  | (_, value) :: rest => max value.depth (fieldsDepth rest)

end

mutual

def maps : Attribute → List (Fields Attribute)
  | .list elements => elementMaps elements
  | .map fields => fields :: fieldMaps fields
  | _ => []

def elementMaps : List Attribute → List (Fields Attribute)
  | [] => []
  | element :: rest => element.maps ++ elementMaps rest

def fieldMaps : List (String × Attribute) → List (Fields Attribute)
  | [] => []
  | (_, value) :: rest => value.maps ++ fieldMaps rest

end

theorem plain_tagged {depth : Nat} {tag : String} {payload : Json}
    (plain : payload.Plain depth) : (Json.object [(tag, payload)]).Plain (depth + 1) :=
  .object (by simp [Fields.Ascending]) (List.forall_mem_singleton.mpr plain)

theorem plain_strings (texts : List String) : (Json.array (texts.map .string)).Plain 1 :=
  .array (List.forall_mem_map.mpr fun text _ => .string text)

theorem ascending_toJson?_iff {fields : Fields Attribute} {members : Fields Json}
    (tagged : fieldsToJson? fields = some members) : members.Ascending ↔ fields.Ascending := by
  have read := ofMembers_eq_ok_iff.mpr tagged
  rw [ofMembers_eq_traverse] at read
  exact (Fields.ascending_traverse read).symm

mutual

theorem plain_of_toJson? {encoded : Attribute} {tree : Json}
    (tagged : encoded.toJson? = some tree)
    (ordered : ∀ fields ∈ encoded.maps, Fields.Ascending fields) : tree.Plain encoded.depth := by
  cases encoded with
  | list elements =>
      obtain ⟨trees, written, rfl⟩ := toJson?_list_eq_some_iff.mp tagged
      exact plain_tagged (.array (plain_of_elementsToJson? written ordered))
  | map fields =>
      obtain ⟨members, written, rfl⟩ := toJson?_map_eq_some_iff.mp tagged
      obtain ⟨ascending, orderedFields⟩ := List.forall_mem_cons.mp ordered
      exact plain_tagged (.object ((ascending_toJson?_iff written).mpr ascending)
        (plain_of_fieldsToJson? written orderedFields))
  | string text => exact Option.some.inj tagged ▸ plain_tagged (.string text)
  | number text => exact Option.some.inj tagged ▸ plain_tagged (.string text)
  | bool flag => exact Option.some.inj tagged ▸ plain_tagged (.bool flag)
  | null flag => exact Option.some.inj tagged ▸ plain_tagged (.bool flag)
  | stringSet texts => exact Option.some.inj tagged ▸ plain_tagged (plain_strings texts)
  | numberSet texts => exact Option.some.inj tagged ▸ plain_tagged (plain_strings texts)
  | binary bytes => simp [toJson?] at tagged
  | binarySet members => simp [toJson?] at tagged
  | unknown => simp [toJson?] at tagged

theorem plain_of_elementsToJson? {elements : List Attribute} {trees : List Json}
    (tagged : elementsToJson? elements = some trees)
    (ordered : ∀ fields ∈ elementMaps elements, Fields.Ascending fields) :
    ∀ tree ∈ trees, tree.Plain (elementsDepth elements) := by
  match elements with
  | [] =>
      rw [elementsToJson?, Option.some.injEq] at tagged
      simp [← tagged]
  | element :: rest =>
      obtain ⟨tree, first, others, later, rfl⟩ := elementsToJson?_cons_eq_some_iff.mp tagged
      obtain ⟨orderedFirst, orderedRest⟩ := List.forall_mem_append.mp ordered
      exact List.forall_mem_cons.mpr
        ⟨(plain_of_toJson? first orderedFirst).mono (Nat.le_max_left _ _), fun other member =>
          (plain_of_elementsToJson? later orderedRest other member).mono (Nat.le_max_right _ _)⟩

theorem plain_of_fieldsToJson? {fields : List (String × Attribute)}
    {members : List (String × Json)} (tagged : fieldsToJson? fields = some members)
    (ordered : ∀ held ∈ fieldMaps fields, Fields.Ascending held) :
    ∀ member ∈ members, member.2.Plain (fieldsDepth fields) := by
  match fields with
  | [] =>
      rw [fieldsToJson?, Option.some.injEq] at tagged
      simp [← tagged]
  | (name, value) :: rest =>
      obtain ⟨tree, first, others, later, rfl⟩ := fieldsToJson?_cons_eq_some_iff.mp tagged
      obtain ⟨orderedFirst, orderedRest⟩ := List.forall_mem_append.mp ordered
      exact List.forall_mem_cons.mpr
        ⟨(plain_of_toJson? first orderedFirst).mono (Nat.le_max_left _ _), fun other member =>
          (plain_of_fieldsToJson? later orderedRest other member).mono (Nat.le_max_right _ _)⟩

end

end Attribute

namespace AttributeMap

variable {text : String} {row : AttributeMap}

theorem read_eq_ok_iff :
    read text = .ok row ↔
      ∃ members, Json.read text.toList = .ok (.object members) ∧
        Attribute.fieldsToJson? row = some members := by
  simp only [← Json.readObject_eq_ok_iff, ← Attribute.ofMembers_eq_ok_iff, read]
  cases Json.readObject text.toList <;> simp

theorem exists_read_iff :
    (∃ row, read text = .ok row) ↔
      ∃ members, Json.read text.toList = .ok (.object members) ∧
        ∀ member ∈ members, ∃ encoded : Attribute, encoded.toJson? = some member.2 := by
  have fits (members : Fields Json) :
      (∃ fields, Attribute.ofMembers members = .ok fields) ↔
        ∀ member ∈ members, ∃ encoded : Attribute, encoded.toJson? = some member.2 := by
    rw [Attribute.ofMembers_eq_traverse, Fields.exists_traverse_iff]
    simp only [Attribute.ofJson_eq_ok_iff]
  simp only [← fits, Attribute.ofMembers_eq_ok_iff, read_eq_ok_iff]
  constructor
  · rintro ⟨row, members, parsed, tagged⟩
    exact ⟨members, parsed, row, tagged⟩
  · rintro ⟨members, parsed, row, tagged⟩
    exact ⟨row, members, parsed, tagged⟩

theorem malformed_of_read {fault : MarshalError} (refused : read text = .error fault) :
    ∃ reason, fault = .malformed reason := by
  unfold read at refused
  split at refused
  · obtain ⟨part, rfl, -⟩ := Attribute.namesUntagged_of_ofMembers refused
    exact ⟨_, rfl⟩
  · exact ⟨_, (Except.error.inj refused).symm⟩

theorem read_text_of_toJson? {members : Fields Json}
    (tagged : Attribute.fieldsToJson? row = some members) (ascending : Fields.Ascending row)
    (ordered : ∀ fields ∈ Attribute.fieldMaps row, Fields.Ascending fields)
    (shallow : Attribute.fieldsDepth row < Json.greatestDepth) :
    read (Json.object members).text = .ok row := by
  have plain : (Json.object members).Plain (Attribute.fieldsDepth row + 1) :=
    .object ((Attribute.ascending_toJson?_iff tagged).mpr ascending)
      (Attribute.plain_of_fieldsToJson? tagged ordered)
  rw [read_eq_ok_iff, Json.text, String.toList_ofList, (plain.mono shallow).read_write]
  exact ⟨members, rfl, tagged⟩

end AttributeMap

/-- The reader of attributes accepts exactly the tagged trees and undoes the tagged form, and it
faults any other tree as malformed. A text is read as a row exactly if it is read as an object of
the tagged trees of the row's fields; else it is faulted as malformed. All attributes but those that
hold something binary or unknown have a tagged tree. So every row of the others comes back from its
tagged form, from the object of its trees as from each text that holds that object, and
such a text is the compact one, unless the trees are nested too deep for any text. -/
theorem reader_undoes_tagging :
    (∀ tree encoded, Attribute.ofJson tree = .ok encoded ↔ encoded.toJson? = some tree) ∧
    (∀ tree, (∀ encoded : Attribute, encoded.toJson? ≠ some tree) →
      ∃ part, Attribute.ofJson tree = .error (.malformed (.untagged part))) ∧
    (∀ text row, AttributeMap.read text = .ok row ↔
      ∃ members, Json.read text.toList = .ok (.object members) ∧
        Attribute.fieldsToJson? row = some members) ∧
    (∀ text, (∃ row, AttributeMap.read text = .ok row) ↔
      ∃ members, Json.read text.toList = .ok (.object members) ∧
        ∀ member ∈ members, ∃ encoded : Attribute, encoded.toJson? = some member.2) ∧
    (∀ text, (∀ row, AttributeMap.read text ≠ .ok row) →
      ∃ reason, AttributeMap.read text = .error (.malformed reason)) ∧
    ∀ row : AttributeMap, (∀ field ∈ row, ∀ leaf ∈ field.2.leaves, leaf.isGeneric = true) →
      ∃ members, Attribute.fieldsToJson? row = some members ∧
        Attribute.ofMembers members = .ok row ∧
        (∀ text : String, Json.read text.toList = .ok (.object members) →
          AttributeMap.read text = .ok row) ∧
        (Fields.Ascending row → (∀ fields ∈ Attribute.fieldMaps row, Fields.Ascending fields) →
          Attribute.fieldsDepth row < Json.greatestDepth →
            AttributeMap.read (Json.object members).text = .ok row) := by
  refine ⟨fun _ _ => Attribute.ofJson_eq_ok_iff, fun tree untagged => ?_,
    fun _ _ => AttributeMap.read_eq_ok_iff, fun _ => AttributeMap.exists_read_iff,
    fun text unread => ?_, fun row free => ?_⟩
  · cases read : Attribute.ofJson tree with
    | ok encoded => exact absurd (Attribute.ofJson_eq_ok_iff.mp read) (untagged encoded)
    | error fault =>
        obtain ⟨part, rfl, -⟩ := Attribute.namesUntagged_of_ofJson read
        exact ⟨part, rfl⟩
  · cases read : AttributeMap.read text with
    | ok row => exact absurd read (unread row)
    | error fault =>
        obtain ⟨reason, rfl⟩ := AttributeMap.malformed_of_read read
        exact ⟨reason, rfl⟩
  · obtain ⟨members, tagged⟩ := (Attribute.exists_fieldsToJson?_iff row).mpr
      ((Attribute.forall_mem_fieldLeaves row).mpr free)
    exact ⟨members, tagged, Attribute.ofMembers_eq_ok_iff.mpr tagged,
      fun text parsed => AttributeMap.read_eq_ok_iff.mpr ⟨members, parsed, tagged⟩,
      AttributeMap.read_text_of_toJson? tagged⟩

theorem reader_undoes_tagging_of_nested :
    let row : AttributeMap := [("meta", .map [("tags", .stringSet ["x", "\n"])])]
    AttributeMap.read
      "\x7b\"meta\":\x7b\"M\":\x7b\"tags\":\x7b\"SS\":[\"x\",\"\\n\"]\x7d\x7d\x7d\x7d" =
        .ok row := by
  intro row
  let members : Fields Json :=
    [("meta", .object [("M", .object [("tags",
      .object [("SS", .array [.string "x", .string "\n"])])])])]
  obtain ⟨-, -, -, -, -, comesBack⟩ := reader_undoes_tagging
  obtain ⟨written, tagged, -, -, compact⟩ := comesBack row (by decide)
  have same : Attribute.fieldsToJson? row = some members := rfl
  rw [Option.some.inj (tagged.symm.trans same)] at compact
  have text : (Json.object members).text =
      "\x7b\"meta\":\x7b\"M\":\x7b\"tags\":\x7b\"SS\":[\"x\",\"\\n\"]\x7d\x7d\x7d\x7d" := by
    decide +kernel
  rw [← text]
  exact compact (by decide) (by decide) (by decide)

end KeyedStore
