import KeyedStore.Number.Power

/-! Double-precision numbers as exact data. A finite double is a sign, a significand
and an exponent of two; rounding sends an exact quotient to the nearest double, a tie
to the even significand. -/

namespace KeyedStore

def divideToEven (numerator denominator : Nat) : Nat :=
  let floor := numerator / denominator
  let twice := 2 * (numerator % denominator)
  if twice < denominator then floor
  else if denominator < twice then floor + 1
  else floor + floor % 2

def floorLog2 (numerator denominator : Nat) : Int :=
  let estimate : Int := (numerator.log2 : Int) - (denominator.log2 : Int)
  if numerator * twoTo (-estimate).toNat < denominator * twoTo estimate.toNat then estimate - 1
  else estimate

structure BinaryFormat where
  precision : Nat
  leastExponent : Int
  greatestExponent : Int

namespace BinaryFormat

def double : BinaryFormat := ⟨53, -1074, 971⟩

def single : BinaryFormat := ⟨24, -149, 104⟩

/-- A significand and an exponent in their one admitted form: all bits in use,
unless the exponent is the least. -/
def Admits (format : BinaryFormat) (significand : Nat) (exponent : Int) : Prop :=
  significand < twoTo format.precision ∧
    format.leastExponent ≤ exponent ∧ exponent ≤ format.greatestExponent ∧
    (twoTo (format.precision - 1) ≤ significand ∨ exponent = format.leastExponent)

instance (format : BinaryFormat) (significand : Nat) (exponent : Int) :
    Decidable (format.Admits significand exponent) :=
  inferInstanceAs (Decidable (_ ∧ _ ∧ _ ∧ _))

def round (format : BinaryFormat) (numerator denominator : Nat) : Option (Nat × Int) :=
  if numerator = 0 then some (0, format.leastExponent)
  else
    let exponent :=
      max format.leastExponent (floorLog2 numerator denominator - (format.precision - 1 : Nat))
    let significand :=
      divideToEven (numerator * twoTo (-exponent).toNat) (denominator * twoTo exponent.toNat)
    let (significand, exponent) :=
      if significand = twoTo format.precision then (twoTo (format.precision - 1), exponent + 1)
      else (significand, exponent)
    if exponent ≤ format.greatestExponent then some (significand, exponent) else none

end BinaryFormat

/-- A finite double: significand times two to the exponent, and a sign that zero has too. -/
structure Double where
  negative : Bool
  significand : Nat
  exponent : Int
  admitted : BinaryFormat.double.Admits significand exponent
  deriving DecidableEq

namespace Double

def zero (negative : Bool) : Double :=
  ⟨negative, 0, -1074, by decide⟩

def numerator (double : Double) : Nat :=
  double.significand * twoTo double.exponent.toNat

def denominator (double : Double) : Nat :=
  twoTo (-double.exponent).toNat

def toInt? (double : Double) : Option Int :=
  if double.numerator % double.denominator = 0 then
    let magnitude : Int := (double.numerator / double.denominator : Nat)
    some (if double.negative then -magnitude else magnitude)
  else none

def same (left right : Double) : Bool :=
  left.significand == right.significand && left.exponent == right.exponent &&
    (left.negative == right.negative || left.significand == 0)

end Double

inductive Number where
  | notANumber
  | infinite (negative : Bool)
  | finite (double : Double)
  deriving DecidableEq

namespace Number

/-- Numeric equality: not-a-number differs from itself, and the two zeros are equal. -/
def same : Number → Number → Bool
  | .finite left, .finite right => left.same right
  | .infinite left, .infinite right => left == right
  | _, _ => false

def isFinite : Number → Bool
  | .finite _ => true
  | _ => false

def ofQuotient (negative : Bool) (numerator denominator : Nat) : Number :=
  match BinaryFormat.double.round numerator denominator with
  | none => .infinite negative
  | some (significand, exponent) =>
      if admitted : BinaryFormat.double.Admits significand exponent then
        .finite ⟨negative, significand, exponent, admitted⟩
      else .infinite negative

def ofInt (value : Int) : Number :=
  ofQuotient (decide (value < 0)) value.natAbs 1

end Number

end KeyedStore
