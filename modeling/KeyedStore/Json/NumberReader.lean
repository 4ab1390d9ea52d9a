import KeyedStore.Json.Basic
import KeyedStore.Json.Cursor
import KeyedStore.Number.Decimal

/-! Reading JSON numbers. Digits are collected while 64 bits hold them; the collected
digits are rounded to a double, and one multiplication or division by a power of ten
gives the number. -/

namespace KeyedStore

def collectDigits (limit : Nat) : Nat → List Char → Nat × List Char
  | value, [] => (value, [])
  | value, digit :: rest =>
      let longer := value * 10 + (digit.toNat - '0'.toNat)
      if longer ≤ limit then collectDigits limit longer rest else (value, digit :: rest)

def greatestWord : Nat := wordBound - 1

def greatestExponent : Nat := 2147483647

def nearestPowerOfTen (exponent : Nat) : Nat :=
  match BinaryFormat.double.round (tenTo exponent) 1 with
  | some (significand, exponent) =>
      significand * twoTo exponent.toNat / twoTo (-exponent).toNat
  | none => 0

/-- A double times ten to an exponent, rounded once; a smaller exponent than -308 is
taken in steps of 308, of which the third leaves zero. -/
def Double.scale (double : Double) (exponent : Int) : Nat → Number
  | 0 => .finite (.zero double.negative)
  | steps + 1 =>
      if double.significand = 0 then .finite double
      else if 308 < exponent then .infinite double.negative
      else if 0 ≤ exponent then
        .ofQuotient double.negative
          (double.numerator * nearestPowerOfTen exponent.toNat) double.denominator
      else if -308 ≤ exponent then
        .ofQuotient double.negative double.numerator
          (double.denominator * nearestPowerOfTen (-exponent).toNat)
      else
        match Number.ofQuotient double.negative double.numerator
            (double.denominator * nearestPowerOfTen 308) with
        | .finite smaller => smaller.scale (exponent + 308) steps
        | number => number

def scaleDigits (negative : Bool) (digits : Nat) (exponent : Int) : Option Double :=
  match Number.ofQuotient negative digits 1 with
  | .finite double =>
      match double.scale exponent 4 with
      | .finite scaled => some scaled
      | _ => none
  | _ => none

namespace Cursor

def finishFloat (negative : Bool) (digits : Nat) (exponent : Int) (cursor : Cursor) :
    Except SyntaxFault (Json × Cursor) :=
  match scaleDigits negative digits exponent with
  | some double => .ok (.float double, cursor)
  | none => .error (cursor.fault .numberOutOfRange)

def readExponentSign (cursor : Cursor) : Bool × Cursor :=
  match cursor.rest with
  | '-' :: rest => (true, ⟨rest, cursor.offset + 1⟩)
  | '+' :: rest => (false, ⟨rest, cursor.offset + 1⟩)
  | _ => (false, cursor)

def readExponent (negative : Bool) (digits : Nat) (exponent : Int) (cursor : Cursor) :
    Except SyntaxFault (Json × Cursor) :=
  let (below, cursor) := cursor.readExponentSign
  let (power, after) := cursor.takeDigits
  if power.isEmpty then
    if cursor.rest.isEmpty then .error (cursor.fault .endInValue)
    else .error ⟨.invalidNumber, cursor.offset + 1⟩
  else
    let (value, uncounted) := collectDigits greatestExponent 0 power
    if uncounted.isEmpty then
      finishFloat negative digits (if below then exponent - value else exponent + value) after
    else if digits ≠ 0 ∧ !below then
      .error ⟨.numberOutOfRange, after.offset - uncounted.length + 1⟩
    else .ok (.float (.zero negative), after)

def readAfterFraction (negative : Bool) (digits : Nat) (exponent : Int) (cursor : Cursor) :
    Except SyntaxFault (Json × Cursor) :=
  match cursor.rest with
  | mark :: rest =>
      if mark = 'e' ∨ mark = 'E' then
        readExponent negative digits exponent ⟨rest, cursor.offset + 1⟩
      else finishFloat negative digits exponent cursor
  | [] => finishFloat negative digits exponent cursor

def readFraction (negative : Bool) (digits : Nat) (exponent : Int) (cursor : Cursor) :
    Except SyntaxFault (Json × Cursor) :=
  let (fraction, after) := cursor.takeDigits
  if fraction.isEmpty then
    .error (cursor.faultAhead (if cursor.rest.isEmpty then .endInValue else .invalidNumber))
  else
    let (digits, uncounted) := collectDigits greatestWord digits fraction
    readAfterFraction negative digits
      (exponent - (fraction.length - uncounted.length : Nat)) after

/-- A whole number: an integer of 64 bits, else a double; minus zero is a double. -/
def finishInteger (negative : Bool) (digits : Nat) (dropped : Nat) (cursor : Cursor) :
    Except SyntaxFault (Json × Cursor) :=
  if dropped = 0 ∧ !negative then .ok (.integer digits, cursor)
  else if dropped = 0 ∧ digits ≠ 0 ∧ digits ≤ signedBound then
    .ok (.integer (-digits), cursor)
  else finishFloat negative digits dropped cursor

def readNumber (negative : Bool) (cursor : Cursor) : Except SyntaxFault (Json × Cursor) :=
  let (whole, after) := cursor.takeDigits
  match whole with
  | [] =>
      if cursor.rest.isEmpty then .error (cursor.fault .endInValue)
      else .error ⟨.invalidNumber, cursor.offset + 1⟩
  | '0' :: _ :: _ => .error ⟨.invalidNumber, cursor.offset + 2⟩
  | whole =>
      let (digits, dropped) := collectDigits greatestWord 0 whole
      match after.rest with
      | mark :: rest =>
          if mark = '.' then
            readFraction negative digits dropped.length ⟨rest, after.offset + 1⟩
          else if mark = 'e' ∨ mark = 'E' then
            readExponent negative digits dropped.length ⟨rest, after.offset + 1⟩
          else finishInteger negative digits dropped.length after
      | [] => finishInteger negative digits dropped.length after

end Cursor

end KeyedStore
