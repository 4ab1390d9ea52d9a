import KeyedStore.Json.Basic
import KeyedStore.Number.Text

/-! Compact JSON text: no blanks, members in the order of the tree, and the fewest
escapes a string can have. -/

namespace KeyedStore

def hexDigit (value : Nat) : Char :=
  Nat.digitChar (value % 16)

def escapeChar (char : Char) : List Char :=
  if char = '"' then ['\\', '"']
  else if char = '\\' then ['\\', '\\']
  else if char = '\x08' then ['\\', 'b']
  else if char = '\t' then ['\\', 't']
  else if char = '\n' then ['\\', 'n']
  else if char = '\x0c' then ['\\', 'f']
  else if char = '\r' then ['\\', 'r']
  else if char.toNat < 0x20 then
    ['\\', 'u', '0', '0', hexDigit (char.toNat / 16), hexDigit char.toNat]
  else [char]

def quoteString (text : String) : List Char :=
  '"' :: (text.toList.flatMap escapeChar ++ ['"'])

def Decimal.exponentText (decimal : Decimal) : List Char :=
  let digits := naturalText decimal.digits
  let exponent := decimal.exponent + (digits.length - 1 : Nat)
  let fraction := match digits.drop 1 with
    | [] => []
    | rest => '.' :: rest
  let sign := if exponent < 0 then '-' else '+'
  digits.take 1 ++ fraction ++ 'e' :: sign :: naturalText exponent.natAbs

def Decimal.pointText (decimal : Decimal) : List Char :=
  if 0 ≤ decimal.exponent then decimal.plainText ++ ['.', '0'] else decimal.plainText

/-- A double in JSON text: positional from 10^-5 up to 10^16 and for zero, else with
an exponent. -/
def Double.jsonText (double : Double) : List Char :=
  let decimal := double.shortest .toEven
  let leading := decimal.exponent + ((naturalText decimal.digits).length - 1 : Nat)
  signed double.negative
    (if decimal.digits = 0 ∨ (-5 ≤ leading ∧ leading < 16) then decimal.pointText
     else decimal.exponentText)

def joinCommas (pieces : List (List Char)) : List Char :=
  List.intercalate [','] pieces

namespace Json

mutual

def write : Json → List Char
  | .null => ['n', 'u', 'l', 'l']
  | .bool true => ['t', 'r', 'u', 'e']
  | .bool false => ['f', 'a', 'l', 's', 'e']
  | .integer value => integerText value
  | .float value => value.jsonText
  | .string text => quoteString text
  | .array elements => '[' :: (joinCommas (writeElements elements) ++ [']'])
  | .object members => '\x7b' :: (joinCommas (writeMembers members) ++ ['\x7d'])

def writeElements : List Json → List (List Char)
  | [] => []
  | element :: rest => element.write :: writeElements rest

def writeMembers : List (String × Json) → List (List Char)
  | [] => []
  | (name, value) :: rest => (quoteString name ++ ':' :: value.write) :: writeMembers rest

end

def text (json : Json) : String :=
  String.ofList json.write

/-! Positional notation ends below 10^16 and starts at 10^-5. -/

example : (ofNumber (.ofDecimal .double false 1 15)).text = "1000000000000000.0" := by
  decide +kernel

example : (ofNumber (.ofDecimal .double false 1 16)).text = "1e+16" := by decide +kernel

example : (ofNumber (.ofDecimal .double false 1 (-5))).text = "0.00001" := by decide +kernel

example : (ofNumber (.ofDecimal .double false 15 (-7))).text = "1.5e-6" := by decide +kernel

end Json

end KeyedStore
