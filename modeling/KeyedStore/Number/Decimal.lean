import KeyedStore.Number.Binary

/-! Decimal numbers: a count of digits times a power of ten, sent to the nearest
double or single. Exponents outside the range of every double are settled without
forming the power. -/

namespace KeyedStore

def BinaryFormat.roundDecimal (format : BinaryFormat) (digits : Nat) (exponent : Int) :
    Option (Nat × Int) :=
  if digits = 0 then some (0, format.leastExponent)
  else if 310 < exponent then none
  else if (digits.log2 : Int) + 1 + 3 * exponent < -1075 then some (0, format.leastExponent)
  else format.round (digits * tenTo exponent.toNat) (tenTo (-exponent).toNat)

namespace Number

def ofDecimal (format : BinaryFormat) (negative : Bool) (digits : Nat) (exponent : Int) :
    Number :=
  match format.roundDecimal digits exponent with
  | none => .infinite negative
  | some (significand, exponent) =>
      ofQuotient negative (significand * twoTo exponent.toNat) (twoTo (-exponent).toNat)

end Number

end KeyedStore
