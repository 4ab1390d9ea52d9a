import KeyedStore.Request.Condition
import KeyedStore.Request.Update

/-! Requests: plain data that describes one operation on the store. -/

namespace KeyedStore

inductive Action where
  | put
  | get
  | update
  | delete
  | query
  | queryPager
  deriving DecidableEq

namespace Action

def named : List (String × Action) := [
  ("Put", put), ("Get", get), ("Update", update), ("Delete", delete), ("Query", query),
  ("QueryPager", queryPager)]

def name : Action → String
  | put => "Put"
  | get => "Get"
  | update => "Update"
  | delete => "Delete"
  | query => "Query"
  | queryPager => "QueryPager"

def isItemAddressed : Action → Bool
  | put => true
  | get => true
  | update => true
  | delete => true
  | query => false
  | queryPager => false

end Action

inductive ReturnValues where
  | nothing
  | allOld
  deriving DecidableEq

namespace ReturnValues

def named : List (String × ReturnValues) := [("None", nothing), ("AllOld", allOld)]

def name : ReturnValues → String
  | nothing => "None"
  | allOld => "AllOld"

end ReturnValues

/-- One operation on the store. Pages are numbered from one, a limit of zero is none,
and `liveData` asks for a read past the cache. -/
structure Request where
  table : String := ""
  action : Action := .put
  key : Item := []
  item : Item := []
  updates : List Update := []
  pageSize : UInt64 := 0
  page : UInt64 := 0
  index : Option String := none
  returnValues : ReturnValues := .nothing
  consistentRead : Bool := false
  liveData : Bool := false
  limit : UInt64 := 0
  lastKey : Item := []
  conditions : List Condition := []
  filter : List Condition := []

end KeyedStore
