import Markup.Number.Binary

/-!
# The shortest decimal of a number

A decimal reads back as a floating-point number if it lies among the reals that round to it: from
halfway to the number below to halfway to the number above, the ends included if the mantissa is
even. A number is shown by the decimal with the fewest digits that reads back, the nearest of
those, and without an exponent.
-/

namespace Markup

/-- A decimal: `digits * 10 ^ exponent`. -/
structure Decimal where
  digits : Nat
  exponent : Int
  deriving Repr, DecidableEq

namespace Binary

/-- Compare `a * 10 ^ i` with `n * 2 ^ j`. -/
def compareScaled (a : Nat) (i : Int) (n : Nat) (j : Int) : Ordering :=
  compare (a * Nat.pow 10 i.toNat * Nat.pow 2 (-j).toNat)
    (n * Nat.pow 2 j.toNat * Nat.pow 10 (-i).toNat)

/-- Whether the number below is nearer than the number above, as it is at a power of two. -/
def isNarrowBelow (x : Binary) : Bool :=
  x.mantissa == Nat.pow 2 52 && leastExponent < x.exponent

/-- Whether a decimal lies among the reals that round to the magnitude of a number. -/
def readsBack (x : Binary) (decimal : Decimal) : Bool :=
  let lower := 4 * x.mantissa - if x.isNarrowBelow then 1 else 2
  let upper := 4 * x.mantissa + 2
  let withEnds := x.mantissa % 2 == 0
  let fromLower := compareScaled decimal.digits decimal.exponent lower (x.exponent - 2)
  let fromUpper := compareScaled decimal.digits decimal.exponent upper (x.exponent - 2)
  (fromLower == .gt || (withEnds && fromLower == .eq)) &&
    (fromUpper == .lt || (withEnds && fromUpper == .eq))

/-- The number of digits before the point of the magnitude of a number other than zero, negative
if zeros follow the point: the least `k` with the magnitude below `10 ^ k`. The binary logarithm
gives it up to one. -/
def decimalPlace (x : Binary) : Int :=
  let estimate := (x.mantissa.log2 + x.exponent) * 30103 / 100000 + 1
  if compareScaled 1 estimate x.mantissa x.exponent == .gt then estimate else estimate + 1

/-- The magnitude in units of a power of ten, rounded down. -/
def inUnits (x : Binary) (exponent : Int) : Nat :=
  x.mantissa * Nat.pow 2 x.exponent.toNat * Nat.pow 10 (-exponent).toNat /
    (Nat.pow 2 (-x.exponent).toNat * Nat.pow 10 exponent.toNat)

/-- The decimal in units of a power of ten that reads back. Of two the nearer is taken, and the
larger if they are equally near. -/
def inGrid? (x : Binary) (exponent : Int) : Option Decimal :=
  let below : Decimal := ⟨x.inUnits exponent, exponent⟩
  let above : Decimal := ⟨below.digits + 1, exponent⟩
  match x.readsBack below, x.readsBack above with
  | false, false => none
  | true, false => some below
  | false, true => some above
  | true, true =>
    let middle := 2 * below.digits + 1
    if compareScaled middle exponent x.mantissa (x.exponent + 1) == .gt then some below
    else some above

/-- The magnitude as a decimal, without any rounding. -/
def exactDecimal (x : Binary) : Decimal :=
  ⟨x.mantissa * Nat.pow 2 x.exponent.toNat * Nat.pow 5 (-x.exponent).toNat, min x.exponent 0⟩

/-- The shortest decimal that reads back as a number other than zero. Seventeen digits always
suffice. -/
def shortest (x : Binary) : Decimal :=
  let place := x.decimalPlace
  ((List.range 17).findSome? fun (n : Nat) => x.inGrid? (place - (n + 1))).getD x.exactDecimal

end Binary

namespace Decimal

/-- The same decimal without zeros at the end of its digits. -/
def withoutZeros (decimal : Decimal) : Decimal :=
  if decimal.digits ≠ 0 ∧ decimal.digits % 10 = 0 then
    withoutZeros ⟨decimal.digits / 10, decimal.exponent + 1⟩
  else decimal
  termination_by decimal.digits
  decreasing_by omega

/-- A decimal written out without an exponent, the point only before digits. -/
def toText (decimal : Decimal) : String :=
  let digits := Nat.toDigits 10 decimal.digits
  let places := (-decimal.exponent).toNat
  let padded :=
    List.replicate (places + 1 - digits.length) '0' ++ digits ++
      List.replicate decimal.exponent.toNat '0'
  let (before, after) := padded.splitAt (padded.length - places)
  String.ofList (if after.isEmpty then before else before ++ '.' :: after)

end Decimal

namespace Number

/-- The shortest decimal of a finite number, written out. -/
def shortestText (x : Float) : String :=
  let parts := Binary.ofFloat x
  let magnitude := if parts.mantissa = 0 then "0" else parts.shortest.withoutZeros.toText
  if parts.negative then "-" ++ magnitude else magnitude

end Number
end Markup
