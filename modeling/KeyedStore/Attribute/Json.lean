import KeyedStore.Attribute.Basic
import KeyedStore.Attribute.Error

/-! Attributes in JSON text: each is an object with one member, whose name is the tag
of the attribute. Binary attributes have no such form. -/

namespace KeyedStore

def stringElements? (elements : List Json) : Option (List String) :=
  elements.mapM fun
    | .string text => some text
    | _ => none

namespace Attribute

mutual

def ofJson : Json → Except MarshalError Attribute
  | .object [("S", .string text)] => .ok (.string text)
  | .object [("N", .string text)] => .ok (.number text)
  | .object [("BOOL", .bool flag)] => .ok (.bool flag)
  | .object [("NULL", .bool flag)] => .ok (.null flag)
  | .object [("L", .array elements)] => return .list (← ofElements elements)
  | .object [("M", .object members)] => return .map (← ofMembers members)
  | .object [("SS", .array elements)] =>
      match stringElements? elements with
      | some texts => .ok (.stringSet texts)
      | none => .error (.malformed (.untagged (.object [("SS", .array elements)])))
  | .object [("NS", .array elements)] =>
      match stringElements? elements with
      | some texts => .ok (.numberSet texts)
      | none => .error (.malformed (.untagged (.object [("NS", .array elements)])))
  | tree => .error (.malformed (.untagged tree))

def ofElements : List Json → Except MarshalError (List Attribute)
  | [] => .ok []
  | element :: rest => do
      let element ← ofJson element
      let rest ← ofElements rest
      return element :: rest

def ofMembers : List (String × Json) → Except MarshalError (List (String × Attribute))
  | [] => .ok []
  | (name, value) :: rest => do
      let value ← ofJson value
      let rest ← ofMembers rest
      return (name, value) :: rest

end

end Attribute

namespace AttributeMap

def read (text : String) : Except MarshalError AttributeMap :=
  match Json.readObject text.toList with
  | .ok members => Attribute.ofMembers members
  | .error fault => .error (.malformed (.document text fault))

end AttributeMap

end KeyedStore
