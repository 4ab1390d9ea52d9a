import KeyedStore.Text.Integer
import KeyedStore.Text.Segments
import KeyedStore.Value.Basic

/-! Looking up a path inside an item. The first segment names a field; a later segment
is a list position if it reads as one, else a field name, and there is nothing at a
position of a map or at a name of a list. -/

namespace KeyedStore

namespace Value

def step? (value : Value) (segment : String) : Option Value :=
  match value, readPosition? segment.toList with
  | .list elements, some position => elements[position]?
  | .map fields, none => Fields.get? fields segment
  | _, _ => none

def walk? (value : Value) (segments : List String) : Option Value :=
  segments.foldlM step? value

end Value

namespace Item

def lookup? (item : Item) (path : String) : Option Value :=
  match pathSegments path with
  | [] => none
  | first :: rest => (Fields.get? item first).bind (·.walk? rest)

end Item

end KeyedStore
