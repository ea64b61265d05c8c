/-!
# Floating-point numbers taken apart

A finite floating-point number is a whole number times a power of two, with a sign. Taken apart
this way, rounding to whole numbers and remainders are exact computations on natural numbers.
-/

namespace Markup

/-- A finite floating-point number: `± mantissa * 2 ^ exponent`. -/
structure Binary where
  negative : Bool
  mantissa : Nat
  exponent : Int
  deriving Repr, DecidableEq

namespace Binary

/-- The least exponent of a floating-point number. -/
def leastExponent : Int := -1074

/-- The parts of a finite floating-point number. -/
def ofFloat (x : Float) : Binary :=
  let bits := x.toBits.toNat
  let fraction : Nat := bits % Nat.pow 2 52
  let biased : Nat := bits / Nat.pow 2 52 % Nat.pow 2 11
  let negative := bits / Nat.pow 2 63 == 1
  if biased = 0 then ⟨negative, fraction, leastExponent⟩
  else ⟨negative, Nat.pow 2 52 + fraction, (biased : Int) - 1075⟩

/-- The floating-point number of the parts, which has to be one: a mantissa of at most 53 bits and
an exponent that is neither too small nor, with that mantissa, too large. -/
def toFloat (x : Binary) : Float :=
  let length := if x.mantissa = 0 then 0 else x.mantissa.log2 + 1
  let shift := min (53 - length) (x.exponent - leastExponent).toNat
  let mantissa := x.mantissa * Nat.pow 2 shift
  let exponent := x.exponent - shift
  let magnitude :=
    if mantissa < Nat.pow 2 52 then mantissa
    else (exponent + 1075).toNat * Nat.pow 2 52 + (mantissa - Nat.pow 2 52)
  .ofBits (.ofNat (magnitude + if x.negative then Nat.pow 2 63 else 0))

/-- The part of the magnitude before the point. -/
def whole (x : Binary) : Nat :=
  x.mantissa * Nat.pow 2 x.exponent.toNat / Nat.pow 2 (-x.exponent).toNat

/-- Whether nothing stands after the point. -/
def isWhole (x : Binary) : Bool :=
  x.mantissa % Nat.pow 2 (-x.exponent).toNat == 0

/-- The nearest whole number on the side of the negative or of the positive numbers. The sign stays,
also where the result is zero. -/
def toward (negativeSide : Bool) (x : Binary) : Binary :=
  if 0 ≤ x.exponent then x
  else
    let away := x.negative == negativeSide && !x.isWhole
    ⟨x.negative, x.whole + if away then 1 else 0, 0⟩

/-- What is left of a number after the largest multiple of another that fits into it was taken
away, both without regard to sign. The sign is that of the number. -/
def remainder (x y : Binary) : Binary :=
  let exponent := min x.exponent y.exponent
  let scaled (z : Binary) := z.mantissa * Nat.pow 2 (z.exponent - exponent).toNat
  ⟨x.negative, scaled x % scaled y, exponent⟩

end Binary

namespace Number

/-- The number that is none. -/
def nan : Float := 0.0 / 0.0

/-- The positive infinite number. -/
def infinite : Float := 1.0 / 0.0

/-- Do to a finite number what is said of its parts, and leave the others alone. -/
def onFinite (f : Binary → Binary) (x : Float) : Float :=
  if x.isFinite then (f (.ofFloat x)).toFloat else x

/-- The largest whole number that is not larger. -/
def floor : Float → Float := onFinite (Binary.toward true)

/-- The smallest whole number that is not smaller. -/
def ceiling : Float → Float := onFinite (Binary.toward false)

/-- The remainder of a division that rounds toward zero. It has the sign of the dividend. -/
def remainder (x y : Float) : Float :=
  if !x.isFinite || y.isNaN || y == 0 then nan
  else if y.isInf then x
  else ((Binary.ofFloat x).remainder (.ofFloat y)).toFloat

end Number
end Markup
