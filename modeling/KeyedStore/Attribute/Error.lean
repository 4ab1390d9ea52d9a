import KeyedStore.Json.Document
import KeyedStore.Json.Mismatch

/-! What can go wrong between values, attributes and JSON text. -/

namespace KeyedStore

inductive Malformed where
  | numberText (text : String)
  | untagged (tree : Json)
  | document (text : String) (fault : DocumentFault)
  | field (name : String) (mismatch : Mismatch)

inductive MarshalError where
  | nonFiniteNumber (number : Number)
  | malformed (reason : Malformed)
  | unsupported (kind : String)

namespace Malformed

def message : Malformed → String
  | numberText text => "`" ++ text ++ "` is not a number"
  | untagged tree => "`" ++ tree.text ++ "` is not a tagged attribute"
  | document text (.illFormed fault) => fault.message text.toList
  | document text (.notObject found offset) =>
      (Mismatch.wrongType found "a map").message ++
        (TextPosition.ofOffset text.toList offset).message
  | field name mismatch => "field `" ++ name ++ "`: " ++ mismatch.message

end Malformed

namespace MarshalError

def message : MarshalError → String
  | nonFiniteNumber number => "number " ++ number.text ++ " has no decimal representation"
  | malformed reason => "malformed attribute value: " ++ reason.message
  | unsupported kind => kind ++ " attributes have no generic value"

end MarshalError

end KeyedStore
