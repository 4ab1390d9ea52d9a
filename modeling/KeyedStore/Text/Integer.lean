import KeyedStore.Number.Power

/-! Decimal text of integers. Digits are the ASCII digits; a reader may allow a
sign, and bounds are left to its caller. -/

namespace KeyedStore

def naturalText (value : Nat) : List Char :=
  Nat.toDigits 10 value

def integerText (value : Int) : List Char :=
  if value < 0 then '-' :: naturalText value.natAbs else naturalText value.natAbs

def readNatural? (text : List Char) : Option Nat :=
  if text ≠ [] ∧ text.all Char.isDigit then some (Nat.ofDigitChars 10 text 0) else none

def splitSign : List Char → Bool × List Char
  | '-' :: rest => (true, rest)
  | '+' :: rest => (false, rest)
  | rest => (false, rest)

def readInteger? (text : List Char) : Option Int :=
  let (negative, digits) := splitSign text
  (readNatural? digits).map fun magnitude => if negative then -magnitude else magnitude

def fitsInt64 (value : Int) : Bool :=
  decide (-signedBound ≤ value ∧ value < signedBound)

def readInt64? (text : List Char) : Option Int :=
  (readInteger? text).filter fitsInt64

/-- The list position that a text denotes: digits after at most one `+`, below 2^64. -/
def readPosition? (text : List Char) : Option Nat :=
  let digits := match text with
    | '+' :: rest => rest
    | rest => rest
  (readNatural? digits).filter (· < wordBound)

theorem naturalText_ne_nil (value : Nat) : naturalText value ≠ [] :=
  Nat.toDigits_ne_nil

theorem isDigit_of_mem_naturalText {value : Nat} {char : Char}
    (member : char ∈ naturalText value) : char.isDigit = true :=
  Nat.isDigit_of_mem_toDigits (by decide) (by decide) member

theorem readNatural?_naturalText (value : Nat) : readNatural? (naturalText value) = some value := by
  have digits : (naturalText value).all Char.isDigit = true :=
    List.all_eq_true.mpr fun _ member => isDigit_of_mem_naturalText member
  simp only [readNatural?, naturalText_ne_nil, digits, ne_eq, not_false_eq_true, and_self,
    if_true]
  exact congrArg some Nat.ofDigitChars_ten_toDigits

theorem splitSign_of_isDigit {char : Char} (digit : char.isDigit = true) (rest : List Char) :
    splitSign (char :: rest) = (false, char :: rest) := by
  unfold splitSign
  split
  · rename_i same
    rw [(List.cons.inj same).1] at digit
    exact absurd digit (by decide)
  · rename_i same
    rw [(List.cons.inj same).1] at digit
    exact absurd digit (by decide)
  · rfl

end KeyedStore
