import KeyedStore.Number.Decimal

/-! The shortest decimal digits that read back as a given double. Grids of powers of
ten are tried from coarse to fine; the first grid with a point that rounds to the
double gives the digits, and of two such points the nearer one is taken. -/

namespace KeyedStore

inductive Tie where
  | up
  | toEven
  deriving DecidableEq

structure Decimal where
  digits : Nat
  exponent : Int
  deriving DecidableEq

namespace Decimal

def ReadsAs (decimal : Decimal) (double : Double) : Prop :=
  BinaryFormat.double.roundDecimal decimal.digits decimal.exponent =
    some (double.significand, double.exponent)

instance (decimal : Decimal) (double : Double) : Decidable (decimal.ReadsAs double) :=
  inferInstanceAs (Decidable (_ = _))

end Decimal

namespace Double

def exactGrid (double : Double) : Int :=
  min double.exponent 0

def exactDecimal (double : Double) : Decimal :=
  ⟨double.significand * twoTo double.exponent.toNat * fiveTo (-double.exponent).toNat,
    double.exactGrid⟩

/-- The magnitude of the double as whole steps of ten to `grid`, and what is left of it
over the width of a step. -/
def gridSteps (double : Double) (grid : Int) : Nat × Nat × Nat :=
  let numerator := double.numerator * tenTo (-grid).toNat
  let width := double.denominator * tenTo grid.toNat
  (numerator / width, numerator % width, width)

def gridPoint (tie : Tie) (double : Double) (grid : Int) : Option Decimal :=
  let (steps, rest, width) := double.gridSteps grid
  let lower : Decimal := ⟨steps, grid⟩
  let upper : Decimal := ⟨steps + 1, grid⟩
  if lower.ReadsAs double then
    if upper.ReadsAs double then
      let takeUpper :=
        decide (width < 2 * rest) ||
          (2 * rest == width && (tie == .up || steps % 2 == 1))
      some (if takeUpper then upper else lower)
    else some lower
  else if upper.ReadsAs double then some upper
  else none

def shortestFrom (tie : Tie) (double : Double) : Nat → Decimal
  | 0 => double.exactDecimal
  | steps + 1 =>
      (double.gridPoint tie (double.exactGrid + (steps + 1 : Nat))).getD
        (double.shortestFrom tie steps)

def coarsestGrid (double : Double) : Int :=
  let bits := double.exponent + double.significand.log2 + 1
  max (bits * 4 / 13) (bits * 3 / 10) + 1

/-- The fewest digits that read back as the double; zero is one digit. -/
def shortest (tie : Tie) (double : Double) : Decimal :=
  if double.significand = 0 then ⟨0, 0⟩
  else double.shortestFrom tie (double.coarsestGrid - double.exactGrid).toNat

end Double

end KeyedStore
