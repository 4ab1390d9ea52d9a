import KeyedStore.Fields
import KeyedStore.Number.Binary

/-! JSON trees. Whole numbers of the text are kept apart from numbers with a fraction
or an exponent, and the members of a tree that was read ascend by name. -/

namespace KeyedStore

/-- A JSON tree. Integers lie between -2^63 and 2^64 - 1; other numbers are doubles. -/
inductive Json where
  | null
  | bool (flag : Bool)
  | integer (value : Int)
  | float (value : Double)
  | string (text : String)
  | array (elements : List Json)
  | object (members : List (String × Json))

instance : Inhabited Json := ⟨.null⟩

namespace Json

def ofNumber : Number → Json
  | .finite double => .float double
  | _ => .null

end Json

end KeyedStore
