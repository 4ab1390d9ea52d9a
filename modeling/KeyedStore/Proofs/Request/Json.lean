import KeyedStore.Proofs.Json.Decode
import KeyedStore.Proofs.Value.Json
import KeyedStore.Request.Json

/-! Requests as JSON trees and back. A request with finite numbers comes back as it was, but for
conditions on the value null, which come back without a value. -/

namespace KeyedStore

theorem traverse_members (members : Fields Json) :
    members.traverse (fun json => .ok (Value.ofJson json)) =
      (.ok (Value.ofMembers members) : Except Mismatch Item) := by
  induction members with
  | nil => rfl
  | cons entry rest ih =>
      obtain ⟨name, json⟩ := entry
      rw [Fields.traverse, ih, Value.ofMembers]
      rfl

theorem Item.decode_toJson {item : Item} (finite : ∀ entry ∈ item, entry.2.isFinite = true) :
    Item.decode item.toJson = .ok item := by
  rw [toJson, decode, Decoder.fields, traverse_members,
    Value.ofMembers_toExactMembers (Value.finiteFields_iff.mpr finite)]

namespace Condition

theorem choice_kind (kind : ConditionKind) :
    Decoder.choice ConditionKind.named (.string kind.name) = .ok kind :=
  Decoder.choice_of_lookup (by cases kind <;> rfl)

theorem choice_relationship (relationship : Relationship) :
    Decoder.choice Relationship.named (.string relationship.name) = .ok relationship :=
  Decoder.choice_of_lookup (by cases relationship <;> rfl)

def reread (condition : Condition) : Condition :=
  { condition with value := condition.value.filter fun value => !value.isNull }

theorem reread_eq_iff (condition : Condition) :
    condition.reread = condition ↔ condition.value ≠ some .null := by
  obtain ⟨field, kind, relationship, value⟩ := condition
  cases value with
  | none => simp [reread]
  | some value => cases value <;> simp [reread, Value.isNull, Option.filter]

theorem optional_tree {value : Option Value}
    (finite : ∀ given ∈ value, given.isFinite = true) :
    ∃ read,
      Decoder.optional Decoder.tree ((value.map Value.toExactJson).getD .null) = .ok read ∧
        read.map Value.ofJson = value.filter fun given => !given.isNull := by
  cases value with
  | none => exact ⟨none, rfl, rfl⟩
  | some given =>
      by_cases null : given = .null
      · subst null
        exact ⟨none, rfl, rfl⟩
      · have givenFinite := finite given rfl
        refine ⟨some given.toExactJson, ?_, ?_⟩
        · have written := Value.toExactJson_ne_null givenFinite null
          simp only [Option.map_some, Option.getD_some]
          unfold Decoder.optional
          split
          · contradiction
          · rfl
        · rw [Option.map_some, Value.ofJson_toExactJson givenFinite]
          cases given <;> simp_all [Value.isNull, Option.filter]

theorem decode_toJson {condition : Condition}
    (finite : ∀ value ∈ condition.value, value.isFinite = true) :
    decode condition.toJson = .ok condition.reread := by
  obtain ⟨field, kind, relationship, value⟩ := condition
  obtain ⟨read, optional, same⟩ := optional_tree finite
  have record : Record.ofJson layout (toJson ⟨field, kind, relationship, value⟩) = .ok (.named [
      ("field", .string field), ("kind", .string kind.name),
      ("relationship", .string relationship.name),
      ("value", (value.map Value.toExactJson).getD .null)]) := by
    apply Record.ofJson_object
    simp [layout, List.lookup_cons, Decoder.check, choice_kind, choice_relationship,
      Decoder.string, Decoder.tree, Except.map]
  simp [decode, record, Record.field, Record.optionalField, Record.finish, Fields.get?,
    choice_kind, choice_relationship, Decoder.string, optional, same, reread, bind, Except.bind,
    pure, Except.pure]

theorem list_toJson {conditions : List Condition}
    (finite : ∀ condition ∈ conditions, ∀ value ∈ condition.value, value.isFinite = true) :
    Decoder.list decode (.array (conditions.map toJson)) = .ok (conditions.map reread) :=
  Decoder.list_map fun condition member => decode_toJson (finite condition member)

end Condition

namespace Update

theorem choice_action (action : UpdateAction) :
    Decoder.choice UpdateAction.named (.string action.name) = .ok action :=
  Decoder.choice_of_lookup (by cases action <;> rfl)

theorem decode_toJson {update : Update} (finite : update.value.isFinite = true) :
    decode update.toJson = .ok update := by
  obtain ⟨action, path, value⟩ := update
  have record : Record.ofJson layout (toJson ⟨action, path, value⟩) = .ok (.named [
      ("action", .string action.name), ("path", .string path),
      ("value", value.toExactJson)]) := by
    apply Record.ofJson_object
    simp [layout, List.lookup_cons, Decoder.check, choice_action, Decoder.string, Decoder.tree,
      Except.map]
  simp [decode, record, Record.field, Record.finish, Fields.get?, choice_action, Decoder.string,
    Decoder.tree, Value.ofJson_toExactJson finite, bind, Except.bind, pure, Except.pure]

theorem list_toJson {updates : List Update}
    (finite : ∀ update ∈ updates, update.value.isFinite = true) :
    Decoder.list decode (.array (updates.map toJson)) = .ok updates := by
  have read : Decoder.list decode (.array (updates.map toJson)) = .ok (updates.map id) :=
    Decoder.list_map fun update member => decode_toJson (finite update member)
  rwa [List.map_id] at read

end Update

namespace Request

theorem choice_action (action : Action) :
    Decoder.choice Action.named (.string action.name) = .ok action :=
  Decoder.choice_of_lookup (by cases action <;> rfl)

theorem choice_returnValues (values : ReturnValues) :
    Decoder.choice ReturnValues.named (.string values.name) = .ok values :=
  Decoder.choice_of_lookup (by cases values <;> rfl)

theorem count_countTree (value : UInt64) : Decoder.count (countTree value) = .ok value :=
  Decoder.count_integer value

theorem optional_string (text : Option String) :
    Decoder.optional Decoder.string (optionalString text) = .ok text := by
  cases text <;> rfl

structure AllFinite (request : Request) : Prop where
  key : ∀ entry ∈ request.key, entry.2.isFinite = true
  item : ∀ entry ∈ request.item, entry.2.isFinite = true
  lastKey : ∀ entry ∈ request.lastKey, entry.2.isFinite = true
  updates : ∀ update ∈ request.updates, update.value.isFinite = true
  conditions : ∀ condition ∈ request.conditions ++ request.filter,
    ∀ value ∈ condition.value, value.isFinite = true

/-- The request whose conditions on the value null have lost it. -/
def reread (request : Request) : Request :=
  { request with
    conditions := request.conditions.map Condition.reread
    filter := request.filter.map Condition.reread }

theorem reread_eq_iff (request : Request) :
    request.reread = request ↔
      ∀ condition ∈ request.conditions ++ request.filter, condition.value ≠ some .null := by
  have kept (conditions : List Condition) :
      conditions.map Condition.reread = conditions ↔
        ∀ condition ∈ conditions, condition.value ≠ some .null := by
    simp only [← Condition.reread_eq_iff]
    rw [← List.map_inj_left, List.map_id']
  rw [List.forall_mem_append, ← kept, ← kept]
  constructor
  · intro same
    exact ⟨congrArg Request.conditions same, congrArg Request.filter same⟩
  · rintro ⟨conditions, filter⟩
    rw [reread, conditions, filter]

theorem distinct_members (request : Request) : (request.members.map Prod.fst).Nodup := by
  simp [members]

theorem get?_toJson {request : Request} {name : String} {json : Json}
    (member : (name, json) ∈ request.members) :
    (Fields.ofList request.members).get? name = some json := by
  rw [Fields.get?_ofList request.distinct_members]
  exact Fields.get?_of_mem_of_nodup request.distinct_members member

section Members

variable {α β : Type} {request : Request} {name : String} {json : Json} {decode : Decoder α}
  {place : Nat} {result : Except Mismatch β}

theorem bind_field {next : α → Except Mismatch β} {value : α} (read : decode json = .ok value)
    (member : (name, json) ∈ request.members) (rest : next value = result) :
    ((Record.named (Fields.ofList request.members)).field layout place name decode >>= next) =
      result := by
  rw [Record.field_named (get?_toJson member), read]
  exact rest

theorem bind_optionalField {next : Option α → Except Mismatch β} {value : Option α}
    (read : Decoder.optional decode json = .ok value) (member : (name, json) ∈ request.members)
    (rest : next value = result) :
    ((Record.named (Fields.ofList request.members)).optionalField layout place name decode >>=
      next) = result := by
  rw [Record.optionalField_named (get?_toJson member), read]
  exact rest

end Members

theorem fit_members {request : Request} (finite : request.AllFinite) :
    ∀ entry ∈ request.members, ∀ check, layout.fields.lookup entry.1 = some check →
      check entry.2 = .ok () := by
  have conditions := List.forall_mem_append.mp finite.conditions
  simp [members, layout, List.lookup_cons, Decoder.check_of_ok (Decoder.string_string _),
    Decoder.check_of_ok (choice_action _), Decoder.check_of_ok (Item.decode_toJson finite.key),
    Decoder.check_of_ok (Item.decode_toJson finite.item),
    Decoder.check_of_ok (Update.list_toJson finite.updates),
    Decoder.check_of_ok (count_countTree _), Decoder.check_of_ok (optional_string _),
    Decoder.check_of_ok (choice_returnValues _), Decoder.check_of_ok (Decoder.bool_bool _),
    Decoder.check_of_ok (Item.decode_toJson finite.lastKey),
    Decoder.check_of_ok (Condition.list_toJson conditions.1),
    Decoder.check_of_ok (Condition.list_toJson conditions.2)]

theorem ofJson_toJson {request : Request} (finite : request.AllFinite) :
    Record.ofJson layout request.toJson = .ok (.named (Fields.ofList request.members)) := by
  apply Record.ofJson_object
  intro entry member
  exact fit_members finite entry (by simpa using Fields.mem_overlay member)

theorem decode_toJson {request : Request} (finite : request.AllFinite) :
    decode request.toJson = .ok request.reread := by
  have conditions := List.forall_mem_append.mp finite.conditions
  rw [decode, bind_eq_ok_iff]
  refine ⟨_, ofJson_toJson finite, ?_⟩
  refine bind_field (Decoder.string_string request.table) (by simp [members]) ?_
  refine bind_field (choice_action request.action) (by simp [members]) ?_
  refine bind_field (Item.decode_toJson finite.key) (by simp [members]) ?_
  refine bind_field (Item.decode_toJson finite.item) (by simp [members]) ?_
  refine bind_field (Update.list_toJson finite.updates) (by simp [members]) ?_
  refine bind_field (count_countTree request.pageSize) (by simp [members]) ?_
  refine bind_field (count_countTree request.page) (by simp [members]) ?_
  refine bind_optionalField (optional_string request.index) (by simp [members]) ?_
  refine bind_field (choice_returnValues request.returnValues) (by simp [members]) ?_
  refine bind_field (Decoder.bool_bool request.consistentRead) (by simp [members]) ?_
  refine bind_field (Decoder.bool_bool request.liveData) (by simp [members]) ?_
  refine bind_field (count_countTree request.limit) (by simp [members]) ?_
  refine bind_field (Item.decode_toJson finite.lastKey) (by simp [members]) ?_
  refine bind_field (Condition.list_toJson conditions.1) (by simp [members]) ?_
  refine bind_field (Condition.list_toJson conditions.2) (by simp [members]) ?_
  rfl

end Request

end KeyedStore
