/-! Faults of JSON text: what is wrong, and how many bytes of the text it takes to see
it. A fault reports the line and the column of that byte. -/

namespace KeyedStore

inductive SyntaxError where
  | endInValue
  | endInList
  | endInObject
  | endInString
  | expectedValue
  | expectedWord
  | expectedColon
  | expectedListEnd
  | expectedObjectEnd
  | trailingComma
  | trailingCharacters
  | keyNotString
  | invalidNumber
  | numberOutOfRange
  | invalidEscape
  | controlCharacter
  | loneSurrogate
  | unfinishedSurrogate
  | nestingTooDeep
  deriving DecidableEq

namespace SyntaxError

def message : SyntaxError → String
  | endInValue => "EOF while parsing a value"
  | endInList => "EOF while parsing a list"
  | endInObject => "EOF while parsing an object"
  | endInString => "EOF while parsing a string"
  | expectedValue => "expected value"
  | expectedWord => "expected ident"
  | expectedColon => "expected `:`"
  | expectedListEnd => "expected `,` or `]`"
  | expectedObjectEnd => "expected `,` or `\x7d`"
  | trailingComma => "trailing comma"
  | trailingCharacters => "trailing characters"
  | keyNotString => "key must be a string"
  | invalidNumber => "invalid number"
  | numberOutOfRange => "number out of range"
  | invalidEscape => "invalid escape"
  | controlCharacter => "control character (\\u0000-\\u001F) found while parsing a string"
  | loneSurrogate => "lone leading surrogate in hex escape"
  | unfinishedSurrogate => "unexpected end of hex escape"
  | nestingTooDeep => "recursion limit exceeded"

end SyntaxError

structure TextPosition where
  line : Nat
  column : Nat
  deriving DecidableEq

namespace TextPosition

def after (place : TextPosition) (char : Char) : TextPosition :=
  if char = '\n' then ⟨place.line + 1, 0⟩ else ⟨place.line, place.column + char.utf8Size⟩

/-- The place reached from a given one by a number of bytes, which may end inside
a character. -/
def advance (place : TextPosition) : List Char → Nat → TextPosition
  | [], _ => place
  | char :: rest, bytes =>
      if char.utf8Size ≤ bytes then (place.after char).advance rest (bytes - char.utf8Size)
      else ⟨place.line, place.column + bytes⟩

def ofOffset (text : List Char) (offset : Nat) : TextPosition :=
  advance ⟨1, 0⟩ text offset

def message (place : TextPosition) : String :=
  s!" at line {place.line} column {place.column}"

end TextPosition

structure SyntaxFault where
  error : SyntaxError
  offset : Nat
  deriving DecidableEq

def SyntaxFault.message (text : List Char) (fault : SyntaxFault) : String :=
  fault.error.message ++ (TextPosition.ofOffset text fault.offset).message

end KeyedStore
