import KeyedStore.Json.Reader

/-! Texts that must hold one object. A text that starts another kind of tree is refused
where that tree ends, a list where it starts. -/

namespace KeyedStore

inductive DocumentFault where
  | illFormed (fault : SyntaxFault)
  | notObject (found : Json) (offset : Nat)

namespace Json

def readObject (text : List Char) : Except DocumentFault (Fields Json) :=
  let cursor := (Cursor.start text).skipBlanks
  match cursor.rest with
  | '[' :: _ => .error (.notObject (.array []) cursor.offset)
  | '\x7b' :: _ =>
      match read text with
      | .ok (.object members) => .ok members
      | .ok other => .error (.notObject other cursor.offset)
      | .error fault => .error (.illFormed fault)
  | _ =>
      match cursor.readScalar with
      | .ok (scalar, after) => .error (.notObject scalar after.offset)
      | .error fault => .error (.illFormed fault)

end Json

end KeyedStore
