import KeyedStore.Json.Syntax

/-! The unread rest of a JSON text and the bytes already read. A fault seen in the next
byte counts that byte; a fault seen after reading a byte counts the bytes read. -/

namespace KeyedStore

structure Cursor where
  rest : List Char
  offset : Nat

namespace Cursor

def start (text : List Char) : Cursor :=
  ⟨text, 0⟩

def fault (cursor : Cursor) (error : SyntaxError) : SyntaxFault :=
  ⟨error, cursor.offset⟩

def faultAhead (cursor : Cursor) (error : SyntaxError) : SyntaxFault :=
  ⟨error, if cursor.rest.isEmpty then cursor.offset else cursor.offset + 1⟩

def isTokenBlank (char : Char) : Bool :=
  char == ' ' || char == '\n' || char == '\t' || char == '\r'

def skipBlanks (cursor : Cursor) : Cursor :=
  ⟨cursor.rest.dropWhile isTokenBlank,
    cursor.offset + (cursor.rest.takeWhile isTokenBlank).length⟩

def takeDigits (cursor : Cursor) : List Char × Cursor :=
  let digits := cursor.rest.takeWhile Char.isDigit
  (digits, ⟨cursor.rest.dropWhile Char.isDigit, cursor.offset + digits.length⟩)

def expectWord : List Char → Cursor → Except SyntaxFault Cursor
  | [], cursor => .ok cursor
  | letter :: letters, cursor =>
      match cursor.rest with
      | [] => .error (cursor.fault .endInValue)
      | char :: rest =>
          if char = letter then expectWord letters ⟨rest, cursor.offset + 1⟩
          else .error ⟨.expectedWord, cursor.offset + 1⟩

end Cursor

end KeyedStore
