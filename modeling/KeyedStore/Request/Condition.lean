import KeyedStore.Value.Basic

/-! Conditions on the fields of an item. -/

namespace KeyedStore

inductive ConditionKind where
  | present
  | absent
  | greaterThan
  | lessThan
  | equal
  | beginsWith
  deriving DecidableEq

inductive Relationship where
  | and
  | or
  deriving DecidableEq

/-- A question about one field. The relationship of a first condition has no meaning. -/
structure Condition where
  field : String
  kind : ConditionKind
  relationship : Relationship := .and
  value : Option Value := none

namespace ConditionKind

def named : List (String × ConditionKind) := [
  ("Exists", present), ("NotExists", absent), ("GreaterThan", greaterThan),
  ("LessThan", lessThan), ("Equal", equal), ("BeginsWith", beginsWith)]

def name : ConditionKind → String
  | present => "Exists"
  | absent => "NotExists"
  | greaterThan => "GreaterThan"
  | lessThan => "LessThan"
  | equal => "Equal"
  | beginsWith => "BeginsWith"

end ConditionKind

namespace Relationship

def named : List (String × Relationship) := [("And", and), ("Or", or)]

def name : Relationship → String
  | and => "And"
  | or => "Or"

def keyword : Relationship → String
  | and => "AND"
  | or => "OR"

end Relationship

namespace Condition

def present (field : String) : Condition :=
  { field, kind := .present }

def absent (field : String) : Condition :=
  { field, kind := .absent }

def greaterThan (field : String) (value : Value) : Condition :=
  { field, kind := .greaterThan, value := some value }

def lessThan (field : String) (value : Value) : Condition :=
  { field, kind := .lessThan, value := some value }

def equal (field : String) (value : Value) : Condition :=
  { field, kind := .equal, value := some value }

def beginsWith (field : String) (value : Value) : Condition :=
  { field, kind := .beginsWith, value := some value }

def asAlternative (condition : Condition) : Condition :=
  { condition with relationship := .or }

end Condition

end KeyedStore
