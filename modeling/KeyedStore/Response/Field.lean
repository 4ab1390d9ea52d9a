import KeyedStore.Error
import KeyedStore.Json.Decode
import KeyedStore.Response.Basic
import KeyedStore.Value.Json

/-! Unmarshaled views of a response: whole rows, the continuation key, and fields read
as a type through their JSON trees. -/

namespace KeyedStore

def unmarshalRow? : Option AttributeMap → Except StoreError (Option Item)
  | none => .ok none
  | some row =>
      match row.unmarshal with
      | .ok item => .ok (some item)
      | .error cause => .error (.unmarshalFailed cause)

namespace Response

def item? (response : Response) (index : Nat) : Except StoreError (Option Item) :=
  unmarshalRow? response.items[index]?

def lastEvaluatedKey? (response : Response) : Except StoreError (Option Item) :=
  unmarshalRow? response.lastKey

def field? {α : Type} (decode : Decoder α) (response : Response) (index : Nat)
    (name : String) : Except StoreError (Option α) :=
  match response.attribute? index name with
  | none => .ok none
  | some found =>
      match found.unmarshal with
      | .error cause => .error (.unmarshalFailed cause)
      | .ok value =>
          match decode value.toJson with
          | .ok result => .ok (some result)
          | .error mismatch => .error (.unmarshalFailed (.malformed (.field name mismatch)))

end Response

end KeyedStore
