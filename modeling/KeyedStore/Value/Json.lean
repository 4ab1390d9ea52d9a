import KeyedStore.Json.Basic
import KeyedStore.Value.Basic

/-! Values as JSON trees and back. Two trees stand for a value: the plain one writes
whole numbers as integers where 64 bits hold them, the exact one writes every number
as a double. -/

namespace KeyedStore

/-- The integer a number equals, if its magnitude is below 2^63. -/
def Number.toWord? : Number → Option Int
  | .finite double => double.toInt?.filter fun value => decide (value.natAbs < signedBound)
  | _ => none

def Number.toJson (number : Number) : Json :=
  match number.toWord? with
  | some value => .integer value
  | none => .ofNumber number

namespace Value

mutual

def toTree (number : Number → Json) : Value → Json
  | .null => .null
  | .bool flag => .bool flag
  | .number value => number value
  | .string text => .string text
  | .list elements => .array (toElements number elements)
  | .map fields => .object (toMembers number fields)

def toElements (number : Number → Json) : List Value → List Json
  | [] => []
  | element :: rest => element.toTree number :: toElements number rest

def toMembers (number : Number → Json) : List (String × Value) → List (String × Json)
  | [] => []
  | (name, value) :: rest => (name, value.toTree number) :: toMembers number rest

end

def toJson (value : Value) : Json :=
  value.toTree Number.toJson

/-- The exact tree, in which every finite number is a double. -/
def toExactJson (value : Value) : Json :=
  value.toTree Json.ofNumber

mutual

def ofJson : Json → Value
  | .null => .null
  | .bool flag => .bool flag
  | .integer value => .number (.ofInt value)
  | .float value => .number (.finite value)
  | .string text => .string text
  | .array elements => .list (ofElements elements)
  | .object members => .map (ofMembers members)

def ofElements : List Json → List Value
  | [] => []
  | element :: rest => ofJson element :: ofElements rest

def ofMembers : List (String × Json) → List (String × Value)
  | [] => []
  | (name, value) :: rest => (name, ofJson value) :: ofMembers rest

end

end Value

end KeyedStore
