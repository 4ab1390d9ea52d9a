import KeyedStore.Attribute.Basic
import KeyedStore.Attribute.Error
import KeyedStore.Number.Reader
import KeyedStore.Text.Blank
import KeyedStore.Value.Basic

/-! Values as attributes and back. Numbers are written as their plain text; an empty
string is left out of an item, but kept inside lists and maps. -/

namespace KeyedStore

def Number.marshal (number : Number) : Except MarshalError String :=
  if number.isFinite then .ok number.text else .error (.nonFiniteNumber number)

namespace Value

def isEmptyString : Value → Bool
  | .string text => text.isEmpty
  | _ => false

mutual

def marshal : Value → Except MarshalError Attribute
  | .null => .ok (.null true)
  | .bool flag => .ok (.bool flag)
  | .number value => return .number (← value.marshal)
  | .string text => .ok (.string text)
  | .list elements => return .list (← marshalElements elements)
  | .map fields => return .map (← marshalFields fields)

def marshalElements : List Value → Except MarshalError (List Attribute)
  | [] => .ok []
  | element :: rest => do
      let element ← element.marshal
      let rest ← marshalElements rest
      return element :: rest

def marshalFields : List (String × Value) → Except MarshalError (List (String × Attribute))
  | [] => .ok []
  | (name, value) :: rest => do
      let value ← value.marshal
      let rest ← marshalFields rest
      return (name, value) :: rest

end

end Value

/-- The row of an item: every field that is not the empty string. -/
def Item.marshal (item : Item) : Except MarshalError AttributeMap :=
  Value.marshalFields (item.filter fun entry => !entry.2.isEmptyString)

def readNumberText? (text : String) : Option Number :=
  Number.read? (trimBlanks text.toList)

def unmarshalNumber (text : String) : Except MarshalError Value :=
  match readNumberText? text with
  | some number => .ok (.number number)
  | none => .error (.malformed (.numberText text))

namespace Attribute

mutual

/-- The value of an attribute. A set becomes a list; binary and unknown attributes have no
value. -/
def unmarshal : Attribute → Except MarshalError Value
  | .string text => .ok (.string text)
  | .number text => unmarshalNumber text
  | .bool flag => .ok (.bool flag)
  | .null _ => .ok .null
  | .list elements => return .list (← unmarshalElements elements)
  | .map fields => return .map (← unmarshalFields fields)
  | .stringSet texts => .ok (.list (texts.map .string))
  | .numberSet texts => return .list (← texts.mapM unmarshalNumber)
  | .binary _ => .error (.unsupported "binary")
  | .binarySet _ => .error (.unsupported "binary")
  | .unknown => .error (.unsupported "unknown")

def unmarshalElements : List Attribute → Except MarshalError (List Value)
  | [] => .ok []
  | element :: rest => do
      let element ← element.unmarshal
      let rest ← unmarshalElements rest
      return element :: rest

def unmarshalFields : List (String × Attribute) → Except MarshalError (List (String × Value))
  | [] => .ok []
  | (name, value) :: rest => do
      let value ← value.unmarshal
      let rest ← unmarshalFields rest
      return (name, value) :: rest

end

end Attribute

def AttributeMap.unmarshal (row : AttributeMap) : Except MarshalError Item :=
  Attribute.unmarshalFields row

end KeyedStore
