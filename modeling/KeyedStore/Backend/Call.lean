import KeyedStore.Expression.Aliases
import KeyedStore.Request.Basic

/-! Calls to a backend, and what each gives back. -/

namespace KeyedStore

structure BackendError where
  code : String
  message : String
  deriving DecidableEq

def BackendError.text (error : BackendError) : String :=
  error.code ++ ": " ++ error.message

inductive Operation where
  | put
  | get
  | delete
  | update
  | query
  | queryPages
  deriving DecidableEq

def Operation.name : Operation → String
  | put => "put"
  | get => "get"
  | delete => "delete"
  | update => "update"
  | query => "query"
  | queryPages => "query_pages"

/-- One page of rows, with the backend's own count of them. -/
structure Page where
  items : List AttributeMap
  count : Nat := items.length
  lastKey : Option AttributeMap := none

/-- What an operation gives back: a row for the operations on one item, else pages. -/
abbrev Operation.Output : Operation → Type
  | .put => Option AttributeMap
  | .get => Option AttributeMap
  | .delete => Option AttributeMap
  | .update => Option AttributeMap
  | .query => Page
  | .queryPages => List Page

structure PutCall where
  table : String
  item : AttributeMap
  condition : Option String
  aliases : Aliases

structure GetCall where
  table : String
  key : AttributeMap
  consistentRead : Bool

structure DeleteCall where
  table : String
  key : AttributeMap
  condition : Option String
  aliases : Aliases
  returnValues : ReturnValues

structure UpdateCall where
  table : String
  key : AttributeMap
  update : String
  condition : Option String
  aliases : Aliases
  returnValues : ReturnValues

structure QueryCall where
  table : String
  index : Option String
  keyCondition : String
  filter : Option String := none
  aliases : Aliases
  consistentRead : Bool
  limit : Option Nat := none
  startKey : Option AttributeMap := none

inductive Call where
  | put (call : PutCall)
  | get (call : GetCall)
  | delete (call : DeleteCall)
  | update (call : UpdateCall)
  | query (call : QueryCall)
  | queryPages (call : QueryCall)

namespace Call

def operation : Call → Operation
  | put _ => .put
  | get _ => .get
  | delete _ => .delete
  | update _ => .update
  | query _ => .query
  | queryPages _ => .queryPages

def table : Call → String
  | put call => call.table
  | get call => call.table
  | delete call => call.table
  | update call => call.table
  | query call => call.table
  | queryPages call => call.table

end Call

end KeyedStore
