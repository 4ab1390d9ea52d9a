import KeyedStore.Request.Basic

/-! Building requests step by step. -/

namespace KeyedStore

def withLeadingSlash (path : String) : String :=
  if path.toList.head? = some '/' then path else "/" ++ path

namespace Request

def on (table : String) (action : Action) : Request :=
  { table, action }

def withKey (request : Request) (name : String) (value : Value) : Request :=
  { request with key := request.key.set name value }

def withItem (request : Request) (name : String) (value : Value) : Request :=
  { request with item := request.item.set name value }

def withCondition (request : Request) (condition : Condition) : Request :=
  { request with conditions := request.conditions ++ [condition] }

def withFilter (request : Request) (condition : Condition) : Request :=
  { request with filter := request.filter ++ [condition] }

def withUpdate (request : Request) (path : String) (action : UpdateAction) (value : Value) :
    Request :=
  { request with updates := request.updates ++ [⟨action, withLeadingSlash path, value⟩] }

/-- Sets a field to a collection of a given size, or removes the field when the
collection is empty. -/
def withCollection (request : Request) (field : String) (size : Nat) (value : Value) :
    Request :=
  if size = 0 then request.withUpdate field .delete .null
  else request.withUpdate field .update value

def withPage (request : Request) (page pageSize : UInt64) : Request :=
  { request with page, pageSize }

def withLimit (request : Request) (limit : UInt64) : Request :=
  { request with limit }

def onIndex (request : Request) (index : String) : Request :=
  { request with index := some index }

def readingLive (request : Request) : Request :=
  { request with liveData := true }

def readingConsistently (request : Request) : Request :=
  { request with consistentRead := true }

end Request

end KeyedStore
