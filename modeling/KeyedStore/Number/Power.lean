/-! Powers of two, five and ten, and the bounds of 64-bit integers. -/

namespace KeyedStore

def twoTo (exponent : Nat) : Nat :=
  Nat.pow 2 exponent

def fiveTo (exponent : Nat) : Nat :=
  Nat.pow 5 exponent

def tenTo (exponent : Nat) : Nat :=
  Nat.pow 10 exponent

/-- The number of 64-bit words; unsigned integers of 64 bits lie below it. -/
def wordBound : Nat := 18446744073709551616

/-- Half the number of 64-bit words; signed integers of 64 bits lie below it, and not
below its negation. -/
def signedBound : Nat := 9223372036854775808

theorem signedBound_eq : signedBound = twoTo 63 := rfl

end KeyedStore
