import KeyedStore.Json.NumberReader
import KeyedStore.Json.StringReader

/-! Reading JSON text into a tree. Of two members of one name the later wins, and the
nesting of containers is bounded. -/

namespace KeyedStore

namespace Cursor

def readElements (readItem : Cursor → Except SyntaxFault (Json × Cursor)) :
    Nat → Cursor → Except SyntaxFault (List Json × Cursor)
  | 0, cursor => .error (cursor.faultAhead .endInList)
  | fuel + 1, cursor => do
      let (item, cursor) ← readItem cursor
      let cursor := cursor.skipBlanks
      match cursor.rest with
      | [] => .error (cursor.faultAhead .endInList)
      | ']' :: rest => .ok ([item], ⟨rest, cursor.offset + 1⟩)
      | ',' :: rest =>
          let cursor := skipBlanks ⟨rest, cursor.offset + 1⟩
          match cursor.rest with
          | [] => .error (cursor.faultAhead .endInValue)
          | ']' :: _ => .error (cursor.faultAhead .trailingComma)
          | _ => do
              let (items, cursor) ← readElements readItem fuel cursor
              return (item :: items, cursor)
      | _ => .error (cursor.faultAhead .expectedListEnd)

def readArray (readItem : Cursor → Except SyntaxFault (Json × Cursor)) (cursor : Cursor) :
    Except SyntaxFault (List Json × Cursor) :=
  let cursor := cursor.skipBlanks
  match cursor.rest with
  | [] => .error (cursor.faultAhead .endInList)
  | ']' :: rest => .ok ([], ⟨rest, cursor.offset + 1⟩)
  | _ => readElements readItem cursor.rest.length cursor

def readMember (readItem : Cursor → Except SyntaxFault (Json × Cursor)) (cursor : Cursor) :
    Except SyntaxFault ((String × Json) × Cursor) := do
  let (name, cursor) ← cursor.readString
  let cursor := cursor.skipBlanks
  match cursor.rest with
  | [] => .error (cursor.faultAhead .endInObject)
  | ':' :: rest => do
      let (value, cursor) ← readItem ⟨rest, cursor.offset + 1⟩
      return ((name, value), cursor)
  | _ => .error (cursor.faultAhead .expectedColon)

def readMembers (readItem : Cursor → Except SyntaxFault (Json × Cursor)) :
    Nat → Cursor → Except SyntaxFault (List (String × Json) × Cursor)
  | 0, cursor => .error (cursor.faultAhead .endInObject)
  | fuel + 1, cursor => do
      let (member, cursor) ← cursor.readMember readItem
      let cursor := cursor.skipBlanks
      match cursor.rest with
      | [] => .error (cursor.faultAhead .endInObject)
      | '\x7d' :: rest => .ok ([member], ⟨rest, cursor.offset + 1⟩)
      | ',' :: rest =>
          let cursor := skipBlanks ⟨rest, cursor.offset + 1⟩
          match cursor.rest with
          | [] => .error (cursor.faultAhead .endInValue)
          | '"' :: rest => do
              let (members, cursor) ← readMembers readItem fuel ⟨rest, cursor.offset + 1⟩
              return (member :: members, cursor)
          | '\x7d' :: _ => .error (cursor.faultAhead .trailingComma)
          | _ => .error (cursor.faultAhead .keyNotString)
      | _ => .error (cursor.faultAhead .expectedObjectEnd)

def readObject (readItem : Cursor → Except SyntaxFault (Json × Cursor)) (cursor : Cursor) :
    Except SyntaxFault (List (String × Json) × Cursor) :=
  let cursor := cursor.skipBlanks
  match cursor.rest with
  | [] => .error (cursor.faultAhead .endInObject)
  | '\x7d' :: rest => .ok ([], ⟨rest, cursor.offset + 1⟩)
  | '"' :: rest => readMembers readItem (rest.length + 1) ⟨rest, cursor.offset + 1⟩
  | _ => .error (cursor.faultAhead .keyNotString)

def readScalar (cursor : Cursor) : Except SyntaxFault (Json × Cursor) :=
  match cursor.rest with
  | [] => .error (cursor.faultAhead .endInValue)
  | first :: rest =>
      let next : Cursor := ⟨rest, cursor.offset + 1⟩
      if first = 'n' then do
        let after ← next.expectWord ['u', 'l', 'l']
        return (.null, after)
      else if first = 't' then do
        let after ← next.expectWord ['r', 'u', 'e']
        return (.bool true, after)
      else if first = 'f' then do
        let after ← next.expectWord ['a', 'l', 's', 'e']
        return (.bool false, after)
      else if first = '"' then do
        let (text, after) ← next.readString
        return (.string text, after)
      else if first = '-' then next.readNumber true
      else if first.isDigit then cursor.readNumber false
      else .error (cursor.faultAhead .expectedValue)

/-- A tree with at most so many containers around any part of it, the outermost
included. -/
def readTree : Nat → Cursor → Except SyntaxFault (Json × Cursor)
  | depth, cursor =>
      let cursor := cursor.skipBlanks
      match cursor.rest, depth with
      | '[' :: _, 0 => .error (cursor.faultAhead .nestingTooDeep)
      | '\x7b' :: _, 0 => .error (cursor.faultAhead .nestingTooDeep)
      | '[' :: rest, depth + 1 => do
          let (elements, cursor) ← readArray (readTree depth) ⟨rest, cursor.offset + 1⟩
          return (.array elements, cursor)
      | '\x7b' :: rest, depth + 1 => do
          let (members, cursor) ← readObject (readTree depth) ⟨rest, cursor.offset + 1⟩
          return (.object (Fields.ofList members), cursor)
      | _, _ => cursor.readScalar

def expectEnd (cursor : Cursor) : Except SyntaxFault Unit :=
  let cursor := cursor.skipBlanks
  if cursor.rest.isEmpty then .ok () else .error (cursor.faultAhead .trailingCharacters)

end Cursor

namespace Json

/-- The containers that may be nested in a text. -/
def greatestDepth : Nat := 127

def readWithin (depth : Nat) (text : List Char) : Except SyntaxFault Json := do
  let (json, cursor) ← Cursor.readTree depth (.start text)
  cursor.expectEnd
  return json

def read (text : List Char) : Except SyntaxFault Json :=
  readWithin greatestDepth text

end Json

end KeyedStore
