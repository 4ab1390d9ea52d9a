import KeyedStore.Json.Cursor

/-! Reading quoted JSON strings. A code unit escape takes four bytes, and a leading
surrogate needs the escape of a trailing one right behind it. -/

namespace KeyedStore

def hexValue? (char : Char) : Option Nat :=
  if '0' ≤ char ∧ char ≤ '9' then some (char.toNat - '0'.toNat)
  else if 'a' ≤ char ∧ char ≤ 'f' then some (char.toNat - 'a'.toNat + 10)
  else if 'A' ≤ char ∧ char ≤ 'F' then some (char.toNat - 'A'.toNat + 10)
  else none

def hexNumber? (digits : List Char) : Option Nat :=
  digits.foldlM (fun value digit => (hexValue? digit).map (value * 16 + ·)) 0

namespace Cursor

def bytesAhead (cursor : Cursor) : Nat :=
  (cursor.rest.take 4).foldl (fun bytes char => bytes + char.utf8Size) 0

def readCodeUnit (cursor : Cursor) : Except SyntaxFault (Nat × Cursor) :=
  if cursor.bytesAhead < 4 then .error ⟨.endInString, cursor.offset + cursor.bytesAhead⟩
  else
    match hexNumber? (cursor.rest.take 4) with
    | some unit => .ok (unit, ⟨cursor.rest.drop 4, cursor.offset + 4⟩)
    | none => .error ⟨.invalidEscape, cursor.offset + 4⟩

def expectEscape (expected : Char) (cursor : Cursor) : Except SyntaxFault Cursor :=
  match cursor.rest with
  | [] => .error (cursor.fault .endInString)
  | char :: rest =>
      if char = expected then .ok ⟨rest, cursor.offset + 1⟩
      else .error ⟨.unfinishedSurrogate, cursor.offset + 1⟩

def readUnicodeEscape (cursor : Cursor) : Except SyntaxFault (Char × Cursor) := do
  let (leading, cursor) ← cursor.readCodeUnit
  if 0xDC00 ≤ leading ∧ leading ≤ 0xDFFF then .error (cursor.fault .loneSurrogate)
  else if leading < 0xD800 ∨ 0xDBFF < leading then .ok (Char.ofNat leading, cursor)
  else
    let cursor ← cursor.expectEscape '\\'
    let cursor ← cursor.expectEscape 'u'
    let (trailing, cursor) ← cursor.readCodeUnit
    if trailing < 0xDC00 ∨ 0xDFFF < trailing then .error (cursor.fault .loneSurrogate)
    else
      .ok (Char.ofNat (0x10000 + (leading - 0xD800) * 0x400 + (trailing - 0xDC00)), cursor)

def letterEscape? : Char → Option Char
  | '"' => some '"'
  | '\\' => some '\\'
  | '/' => some '/'
  | 'b' => some '\x08'
  | 'f' => some '\x0c'
  | 'n' => some '\n'
  | 'r' => some '\r'
  | 't' => some '\t'
  | _ => none

def readEscape (cursor : Cursor) : Except SyntaxFault (Char × Cursor) :=
  match cursor.rest with
  | [] => .error (cursor.fault .endInString)
  | 'u' :: rest => readUnicodeEscape ⟨rest, cursor.offset + 1⟩
  | letter :: rest =>
      match letterEscape? letter with
      | some char => .ok (char, ⟨rest, cursor.offset + 1⟩)
      | none => .error ⟨.invalidEscape, cursor.offset + 1⟩

/-- The characters up to the closing quote; each step takes at least one character. -/
def readCharacters : Nat → Cursor → Except SyntaxFault (List Char × Cursor)
  | 0, cursor => .error (cursor.fault .endInString)
  | fuel + 1, cursor =>
      match cursor.rest with
      | [] => .error (cursor.fault .endInString)
      | '"' :: rest => .ok ([], ⟨rest, cursor.offset + 1⟩)
      | '\\' :: rest => do
          let (char, cursor) ← readEscape ⟨rest, cursor.offset + 1⟩
          let (chars, cursor) ← readCharacters fuel cursor
          return (char :: chars, cursor)
      | char :: rest =>
          if char.toNat < 0x20 then .error ⟨.controlCharacter, cursor.offset + 1⟩
          else do
            let (chars, cursor) ← readCharacters fuel ⟨rest, cursor.offset + char.utf8Size⟩
            return (char :: chars, cursor)

def readString (cursor : Cursor) : Except SyntaxFault (String × Cursor) := do
  let (chars, cursor) ← readCharacters cursor.rest.length cursor
  return (String.ofList chars, cursor)

end Cursor

end KeyedStore
