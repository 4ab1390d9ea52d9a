import KeyedStore.Value.Basic

/-! Updates of the parts of an item. -/

namespace KeyedStore

inductive UpdateAction where
  | put
  | update
  | delete
  deriving DecidableEq

namespace UpdateAction

def named : List (String × UpdateAction) :=
  [("Put", put), ("Update", update), ("Delete", delete)]

def name : UpdateAction → String
  | put => "Put"
  | update => "Update"
  | delete => "Delete"

end UpdateAction

/-- A change at a slash-delimited path. A segment of digits is a list position, and a
last segment `-` stands for the end of a list. -/
structure Update where
  action : UpdateAction
  path : String
  value : Value := .null

end KeyedStore
