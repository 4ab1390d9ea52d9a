import KeyedStore.Json.StringReader

/-! Transaction identifiers: numbers of 128 bits, written in hexadecimal groups of 8, 4,
4, 4 and 12 digits. -/

namespace KeyedStore

structure TransactionId where
  value : BitVec 128
  deriving DecidableEq

namespace TransactionId

def digits (id : TransactionId) : List Char :=
  let shown := Nat.toDigits 16 id.value.toNat
  List.replicate (32 - shown.length) '0' ++ shown

def text (id : TransactionId) : String :=
  let digits := id.digits
  let group (start length : Nat) := (digits.drop start).take length
  String.ofList (List.intercalate ['-'] [group 0 8, group 8 4, group 12 4, group 16 4, group 20 12])

def ungroup? (text : List Char) : Option (List Char) :=
  let group (start length : Nat) := (text.drop start).take length
  if text.length = 36 ∧ [8, 13, 18, 23].all (fun place => text[place]? == some '-') then
    some (group 0 8 ++ group 9 4 ++ group 14 4 ++ group 19 4 ++ group 24 12)
  else none

/-- The digits of a text in any of its forms: bare digits, hyphenated, hyphenated between
braces, or hyphenated behind `urn:uuid:`, whose letters may be of either case. -/
def bareDigits? (text : List Char) : Option (List Char) :=
  if text.length = 32 then some text
  else if text.length = 38 ∧ text.head? = some '\x7b' ∧ text.getLast? = some '\x7d' then
    ungroup? ((text.drop 1).take 36)
  else if text.length = 45 ∧ (text.take 9).map Char.toLower = "urn:uuid:".toList then
    ungroup? (text.drop 9)
  else ungroup? text

def read? (text : String) : Option TransactionId := do
  let number ← hexNumber? (← bareDigits? text.toList)
  return ⟨BitVec.ofNat 128 number⟩

end TransactionId

end KeyedStore
