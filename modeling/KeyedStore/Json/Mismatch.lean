import KeyedStore.Json.Writer
import KeyedStore.Text.Quoted

/-! Trees of the wrong shape: what was found where something else was expected. -/

namespace KeyedStore

def Json.described : Json → String
  | .null => "null"
  | .bool flag => "boolean `" ++ (if flag then "true" else "false") ++ "`"
  | .integer value => "integer `" ++ String.ofList (integerText value) ++ "`"
  | .float value => "floating point `" ++ String.ofList value.jsonText ++ "`"
  | .string text => "string " ++ quoteReadable text
  | .array _ => "sequence"
  | .object _ => "map"

inductive Mismatch where
  | wrongType (found : Json) (expected : String)
  | outOfRange (value : Int) (expected : String)
  | notSingle
  | missingField (name : String)
  | unknownVariant (name : String) (known : List String)
  | tooShort (length : Nat) (expected : String)
  | tooLong (length : Nat)

namespace Mismatch

def quoted (name : String) : String :=
  "`" ++ name ++ "`"

def listed : List String → String
  | [] => "there are no variants"
  | [only] => "expected " ++ quoted only
  | [first, second] => "expected " ++ quoted first ++ " or " ++ quoted second
  | names => "expected one of " ++ String.intercalate ", " (names.map quoted)

def message : Mismatch → String
  | wrongType found expected => "invalid type: " ++ found.described ++ ", expected " ++ expected
  | outOfRange value expected =>
      "invalid value: " ++ (Json.integer value).described ++ ", expected " ++ expected
  | notSingle => "invalid value: map, expected map with a single key"
  | missingField name => "missing field " ++ quoted name
  | unknownVariant name known => "unknown variant " ++ quoted name ++ ", " ++ listed known
  | tooShort length expected =>
      "invalid length " ++ String.ofList (naturalText length) ++ ", expected " ++ expected
  | tooLong length =>
      "invalid length " ++ String.ofList (naturalText length) ++
        ", expected fewer elements in array"

end Mismatch

end KeyedStore
