import KeyedStore.Fields
import KeyedStore.Number.Binary

/-! Generic values: what requests, conditions, updates and unmarshaled rows are made of. -/

namespace KeyedStore

/-- A value. Numbers of every kind are doubles; the fields of a map ascend by name. -/
inductive Value where
  | null
  | bool (flag : Bool)
  | number (value : Number)
  | string (text : String)
  | list (elements : List Value)
  | map (fields : List (String × Value))

abbrev Item := Fields Value

instance : Inhabited Value := ⟨.null⟩

namespace Value

def toString? : Value → Option String
  | .string text => some text
  | _ => none

def toNumber? : Value → Option Number
  | .number value => some value
  | _ => none

def toBool? : Value → Option Bool
  | .bool flag => some flag
  | _ => none

def isNull : Value → Bool
  | .null => true
  | _ => false

def typeName : Value → String
  | .null => "null"
  | .bool _ => "bool"
  | .number _ => "number"
  | .string _ => "string"
  | .list _ => "list"
  | .map _ => "map"

mutual

/-- Equality with numbers compared by value: not-a-number differs from itself, and
the two zeros are equal. -/
def same : Value → Value → Bool
  | .null, .null => true
  | .bool left, .bool right => left == right
  | .number left, .number right => left.same right
  | .string left, .string right => left == right
  | .list left, .list right => sameElements left right
  | .map left, .map right => sameFields left right
  | _, _ => false

def sameElements : List Value → List Value → Bool
  | [], [] => true
  | left :: lefts, right :: rights => left.same right && sameElements lefts rights
  | _, _ => false

def sameFields : List (String × Value) → List (String × Value) → Bool
  | [], [] => true
  | (leftName, left) :: lefts, (rightName, right) :: rights =>
      leftName == rightName && left.same right && sameFields lefts rights
  | _, _ => false

end

end Value

def Item.same (left right : Item) : Bool :=
  Value.sameFields left right

end KeyedStore
