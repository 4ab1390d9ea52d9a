import KeyedStore.Number.Decimal
import KeyedStore.Text.Integer

/-! Reading a number from text: digits with an optional sign, point and exponent, or a
name for infinity or not-a-number in any letter case. The value is the nearest number
of the chosen format. -/

namespace KeyedStore

def namedNumber? (negative : Bool) (text : List Char) : Option Number :=
  let name := text.map Char.toLower
  if name = ['n', 'a', 'n'] then some .notANumber
  else if name = ['i', 'n', 'f'] ∨ name = ['i', 'n', 'f', 'i', 'n', 'i', 't', 'y'] then
    some (.infinite negative)
  else none

def readExponent? : List Char → Option Int
  | [] => some 0
  | marker :: rest => if marker = 'e' ∨ marker = 'E' then readInteger? rest else none

def splitFraction : List Char → List Char × List Char
  | '.' :: rest => (rest.takeWhile Char.isDigit, rest.dropWhile Char.isDigit)
  | rest => ([], rest)

def readDecimal? (text : List Char) : Option (Nat × Int) := do
  let whole := text.takeWhile Char.isDigit
  let (fraction, rest) := splitFraction (text.dropWhile Char.isDigit)
  let digits ← readNatural? (whole ++ fraction)
  let exponent ← readExponent? rest
  return (digits, exponent - fraction.length)

namespace Number

def readAs? (format : BinaryFormat) (text : List Char) : Option Number :=
  let (negative, magnitude) := splitSign text
  match namedNumber? negative magnitude with
  | some number => some number
  | none => (readDecimal? magnitude).map fun (digits, exponent) =>
      ofDecimal format negative digits exponent

def read? (text : List Char) : Option Number :=
  readAs? .double text

end Number

end KeyedStore
