import KeyedStore.Fields

/-! Attributes: tagged values as the backend stores and exchanges them. Numbers are
decimal text, and equality is equality of that text. An unknown attribute is all that the
client of a backend makes of a tag it does not know. -/

namespace KeyedStore

inductive Attribute where
  | string (text : String)
  | number (text : String)
  | bool (flag : Bool)
  | null (flag : Bool)
  | list (elements : List Attribute)
  | map (fields : List (String × Attribute))
  | stringSet (texts : List String)
  | numberSet (texts : List String)
  | binary (bytes : List UInt8)
  | binarySet (members : List (List UInt8))
  | unknown

abbrev AttributeMap := Fields Attribute

instance : Inhabited Attribute := ⟨.null true⟩

namespace Attribute

mutual

def same : Attribute → Attribute → Bool
  | .string left, .string right => left == right
  | .number left, .number right => left == right
  | .bool left, .bool right => left == right
  | .null left, .null right => left == right
  | .list left, .list right => sameElements left right
  | .map left, .map right => sameFields left right
  | .stringSet left, .stringSet right => left == right
  | .numberSet left, .numberSet right => left == right
  | .binary left, .binary right => left == right
  | .binarySet left, .binarySet right => left == right
  | .unknown, .unknown => true
  | _, _ => false

def sameElements : List Attribute → List Attribute → Bool
  | [], [] => true
  | left :: lefts, right :: rights => left.same right && sameElements lefts rights
  | _, _ => false

def sameFields : List (String × Attribute) → List (String × Attribute) → Bool
  | [], [] => true
  | (leftName, left) :: lefts, (rightName, right) :: rights =>
      leftName == rightName && left.same right && sameFields lefts rights
  | _, _ => false

end

mutual

theorem same_iff (left right : Attribute) : left.same right = true ↔ left = right := by
  cases left <;> cases right <;>
    simp [same, sameElements_iff, sameFields_iff]

theorem sameElements_iff (left right : List Attribute) :
    sameElements left right = true ↔ left = right := by
  cases left <;> cases right <;> simp [sameElements, same_iff, sameElements_iff]

theorem sameFields_iff (left right : List (String × Attribute)) :
    sameFields left right = true ↔ left = right := by
  match left, right with
  | [], [] => simp [sameFields]
  | [], _ :: _ => simp [sameFields]
  | _ :: _, [] => simp [sameFields]
  | (leftName, left) :: lefts, (rightName, right) :: rights =>
      simp [sameFields, same_iff left right, sameFields_iff lefts rights]

end

instance : DecidableEq Attribute := fun left right =>
  decidable_of_iff (left.same right = true) (same_iff left right)

end Attribute

end KeyedStore
