import KeyedStore.Backend.Call
import KeyedStore.Expression.Condition
import KeyedStore.Expression.Update

/-! Why a request fails: by a fault found before any call, or by a failed call. -/

namespace KeyedStore

inductive RequestFault where
  | missingKey (action : Action) (table : String)
  | emptyPage
  | pageZero
  | pageOutOfRange (page pageSize : UInt64)

def RequestFault.message : RequestFault → String
  | missingKey action table => action.name ++ " on `" ++ table ++ "` needs a key"
  | emptyPage => "page size must be positive"
  | pageZero => "pages are numbered from 1"
  | pageOutOfRange page pageSize =>
      "page " ++ numberedText page.toNat ++ " of size " ++ numberedText pageSize.toNat ++
        " is out of range"

def UpdateError.code : UpdateError → String
  | noUpdates => "InvalidUpdateExpression"
  | badPath _ _ => "InvalidUpdateExpression"
  | removesAppendMarker _ => "InvalidUpdateOperation"
  | emptyString _ => "InvalidUpdateOperation"
  | unencodable _ => "MarshalItemFailed"

def UpdateError.message : UpdateError → String
  | noUpdates => "invalid update expression: update request carries no updates"
  | badPath fault path =>
      "invalid update expression: " ++ fault.message ++ " in `" ++ path ++ "`"
  | removesAppendMarker path =>
      "invalid update operation: cannot remove append marker in `" ++ path ++ "`"
  | emptyString path =>
      "invalid update operation: empty string cannot be stored at `" ++ path ++
        "`, remove the path instead"
  | unencodable cause => "could not marshal item: " ++ cause.message

inductive StoreError where
  | invalidCondition (cause : ConditionError)
  | invalidFilter (cause : ConditionError)
  | invalidUpdate (cause : UpdateError)
  | marshalFailed (cause : MarshalError)
  | unmarshalFailed (cause : MarshalError)
  | invalidRequest (fault : RequestFault)
  | backendFailed (operation : Operation) (cause : BackendError)

namespace StoreError

def code : StoreError → String
  | invalidCondition _ => "InvalidRequestCondition"
  | invalidFilter _ => "InvalidFilterCondition"
  | invalidUpdate cause => cause.code
  | marshalFailed _ => "MarshalItemFailed"
  | unmarshalFailed _ => "UnmarshalItemFailed"
  | invalidRequest _ => "InvalidRequest"
  | backendFailed .put _ => "PutItemFailed"
  | backendFailed .get _ => "GetItemFailed"
  | backendFailed .delete _ => "DeleteItemFailed"
  | backendFailed .update _ => "UpdateItemFailed"
  | backendFailed .query _ => "QueryFailed"
  | backendFailed .queryPages _ => "QueryFailed"

def attempt : Operation → String
  | .put => "unable to put item in the database"
  | .get => "unable to retrieve item from the database"
  | .delete => "unable to delete item in the database"
  | .update => "unable to update item in the database"
  | .query => "unable to query the database"
  | .queryPages => "unable to query the database"

def message : StoreError → String
  | invalidCondition cause => "invalid request condition: " ++ cause.message
  | invalidFilter cause => "invalid filter condition: " ++ cause.message
  | invalidUpdate cause => cause.message
  | marshalFailed cause => "could not marshal item: " ++ cause.message
  | unmarshalFailed cause => "could not unmarshal item: " ++ cause.message
  | invalidRequest fault => "invalid request: " ++ fault.message
  | backendFailed operation cause => attempt operation ++ ": " ++ cause.text

def isBackendFailure : StoreError → Bool
  | backendFailed _ _ => true
  | _ => false

end StoreError

end KeyedStore
