import KeyedStore.Error
import KeyedStore.Transaction.Log
import KeyedStore.Value.Path

/-! Compensations: for a logged operation, the request that undoes it. A put is undone
by a delete, a delete by putting the old item back, and an update by restoring every
path it named; reads leave nothing to undo. -/

namespace KeyedStore

/-- The path that undoing an update restores: an append restores its whole list. -/
def restoreTarget (path : String) : String :=
  match path.toList.reverse with
  | '-' :: '/' :: rest => String.ofList rest.reverse
  | _ => path

namespace Update

def restoring (old : Item) (path : String) : Update :=
  match old.lookup? path with
  | some value => ⟨.put, path, value⟩
  | none => ⟨.delete, path, .null⟩

end Update

def Request.inverse (request : Request) (action : Action) : Request :=
  { table := request.table, action, key := request.key }

namespace LoggedOperation

/-- The request that undoes an operation; `none` where there is nothing to undo. -/
def compensate (operation : LoggedOperation) : Except StoreError (Option Request) :=
  let request := operation.request
  match request.action, operation.response.attributes with
  | .put, _ => .ok (some (request.inverse .delete))
  | .delete, none => .ok none
  | .delete, some old =>
      match old.unmarshal with
      | .error cause => .error (.unmarshalFailed cause)
      | .ok item => .ok (some { request.inverse .put with item })
  | .update, none => .ok (some (request.inverse .delete))
  | .update, some old =>
      match old.unmarshal with
      | .error cause => .error (.unmarshalFailed cause)
      | .ok old =>
          let paths := (request.updates.map fun update => restoreTarget update.path).eraseDups
          .ok (some { request.inverse .update with updates := paths.map (Update.restoring old) })
  | .get, _ => .ok none
  | .query, _ => .ok none
  | .queryPager, _ => .ok none

end LoggedOperation

end KeyedStore
