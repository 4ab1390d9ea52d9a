import KeyedStore.Number.Shortest
import KeyedStore.Text.Integer

/-! Plain text of numbers: the shortest digits that read back, never an exponent, and
no point after a whole number. -/

namespace KeyedStore

namespace Decimal

def plainText (decimal : Decimal) : List Char :=
  let digits := naturalText decimal.digits
  if 0 ≤ decimal.exponent then digits ++ List.replicate decimal.exponent.toNat '0'
  else
    let places := (-decimal.exponent).toNat
    if places < digits.length then
      digits.take (digits.length - places) ++ '.' :: digits.drop (digits.length - places)
    else '0' :: '.' :: (List.replicate (places - digits.length) '0' ++ digits)

end Decimal

def signed (negative : Bool) (magnitude : List Char) : List Char :=
  if negative then '-' :: magnitude else magnitude

namespace Number

def plainText : Number → List Char
  | .notANumber => ['N', 'a', 'N']
  | .infinite negative => signed negative ['i', 'n', 'f']
  | .finite double => signed double.negative (double.shortest .up).plainText

def text (number : Number) : String :=
  String.ofList number.plainText

/-! Whole numbers show no point, small and large numbers no exponent, and zero keeps
its sign. -/

example : (ofDecimal .double false 1 21).text = "1000000000000000000000" := by decide +kernel

example : (ofDecimal .double true 15 (-8)).text = "-0.00000015" := by decide +kernel

example : (finite (.zero true)).text = "-0" := by decide +kernel

end Number

end KeyedStore
