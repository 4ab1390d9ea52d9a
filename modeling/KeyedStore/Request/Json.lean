import KeyedStore.Json.Decode
import KeyedStore.Request.Basic
import KeyedStore.Value.Json

/-! Requests as JSON. A request is written with its fields in a fixed order and every
number as a double; reading takes the fields by name or, from an array, by place. -/

namespace KeyedStore

def countTree (value : UInt64) : Json :=
  .integer value.toNat

def optionalString : Option String → Json
  | some text => .string text
  | none => .null

namespace Item

def toJson (item : Item) : Json :=
  .object (Value.toMembers Json.ofNumber item)

def decode : Decoder Item :=
  Decoder.fields fun json => .ok (Value.ofJson json)

end Item

namespace Condition

def toJson (condition : Condition) : Json :=
  .object [
    ("field", .string condition.field),
    ("kind", .string condition.kind.name),
    ("relationship", .string condition.relationship.name),
    ("value", (condition.value.map Value.toExactJson).getD .null)]

def layout : Record.Layout where
  name := "struct RequestCondition"
  fields := [
    ("field", .check Decoder.string),
    ("kind", .check (Decoder.choice ConditionKind.named)),
    ("relationship", .check (Decoder.choice Relationship.named)),
    ("value", .check Decoder.tree)]

def decode : Decoder Condition := fun json => do
  let record ← Record.ofJson layout json
  let field ← record.field layout 0 "field" Decoder.string
  let kind ← record.field layout 1 "kind" (Decoder.choice ConditionKind.named)
  let relationship ← record.field layout 2 "relationship" (Decoder.choice Relationship.named)
  let value ← record.optionalField layout 3 "value" Decoder.tree
  record.finish layout
  return { field, kind, relationship, value := value.map Value.ofJson }

end Condition

namespace Update

def toJson (update : Update) : Json :=
  .object [
    ("action", .string update.action.name),
    ("path", .string update.path),
    ("value", update.value.toExactJson)]

def layout : Record.Layout where
  name := "struct UpdateValue"
  fields := [
    ("action", .check (Decoder.choice UpdateAction.named)),
    ("path", .check Decoder.string),
    ("value", .check Decoder.tree)]

def decode : Decoder Update := fun json => do
  let record ← Record.ofJson layout json
  let action ← record.field layout 0 "action" (Decoder.choice UpdateAction.named)
  let path ← record.field layout 1 "path" Decoder.string
  let value ← record.field layout 2 "value" Decoder.tree
  record.finish layout
  return { action, path, value := Value.ofJson value }

end Update

namespace Request

def members (request : Request) : List (String × Json) := [
  ("table", .string request.table),
  ("action", .string request.action.name),
  ("key", request.key.toJson),
  ("item", request.item.toJson),
  ("updates", .array (request.updates.map Update.toJson)),
  ("page_size", countTree request.pageSize),
  ("page", countTree request.page),
  ("index", optionalString request.index),
  ("return_values", .string request.returnValues.name),
  ("consistent_read", .bool request.consistentRead),
  ("live_data", .bool request.liveData),
  ("limit", countTree request.limit),
  ("last_key", request.lastKey.toJson),
  ("request_conditions", .array (request.conditions.map Condition.toJson)),
  ("result_filter", .array (request.filter.map Condition.toJson))]

def text (request : Request) : String :=
  (Json.object request.members).text

/-- The tree of a request, its members by name. -/
def toJson (request : Request) : Json :=
  .object (Fields.ofList request.members)

def layout : Record.Layout where
  name := "struct Request"
  fields := [
    ("table", .check Decoder.string),
    ("action", .check (Decoder.choice Action.named)),
    ("key", .check Item.decode),
    ("item", .check Item.decode),
    ("updates", .check (Decoder.list Update.decode)),
    ("page_size", .check Decoder.count),
    ("page", .check Decoder.count),
    ("index", .check (Decoder.optional Decoder.string)),
    ("return_values", .check (Decoder.choice ReturnValues.named)),
    ("consistent_read", .check Decoder.bool),
    ("live_data", .check Decoder.bool),
    ("limit", .check Decoder.count),
    ("last_key", .check Item.decode),
    ("request_conditions", .check (Decoder.list Condition.decode)),
    ("result_filter", .check (Decoder.list Condition.decode))]

def decode : Decoder Request := fun json => do
  let record ← Record.ofJson layout json
  let table ← record.field layout 0 "table" Decoder.string
  let action ← record.field layout 1 "action" (Decoder.choice Action.named)
  let key ← record.field layout 2 "key" Item.decode
  let item ← record.field layout 3 "item" Item.decode
  let updates ← record.field layout 4 "updates" (Decoder.list Update.decode)
  let pageSize ← record.field layout 5 "page_size" Decoder.count
  let page ← record.field layout 6 "page" Decoder.count
  let index ← record.optionalField layout 7 "index" Decoder.string
  let returnValues ← record.field layout 8 "return_values" (Decoder.choice ReturnValues.named)
  let consistentRead ← record.field layout 9 "consistent_read" Decoder.bool
  let liveData ← record.field layout 10 "live_data" Decoder.bool
  let limit ← record.field layout 11 "limit" Decoder.count
  let lastKey ← record.field layout 12 "last_key" Item.decode
  let conditions ←
    record.field layout 13 "request_conditions" (Decoder.list Condition.decode)
  let filter ← record.field layout 14 "result_filter" (Decoder.list Condition.decode)
  record.finish layout
  return {
    table, action, key, item, updates, pageSize, page, index, returnValues, consistentRead,
    liveData, limit, lastKey, conditions, filter }

end Request

end KeyedStore
