import Markup.Number.Binary
import Markup.Text.Ascii
import Markup.Text.Blank

/-!
# Numbers written as decimals

A decimal is read exactly and rounded once, to the nearest floating-point number. Where a text only
has to begin with a number, as much of it is read as makes one.
-/

namespace Markup.Number

/-- A number with its sign. -/
def signed (negative : Bool) (magnitude : Float) : Float :=
  if negative then -magnitude else magnitude

/-- The number that digits write as a whole number, times a power of ten. What is too large or too
small by far is not computed, and zeros at the end only move the point. -/
def ofDecimal (digits : List Char) (exponent : Int) : Float :=
  let digits := digits.dropWhile (· == '0')
  let place := digits.length + exponent
  if digits.isEmpty ∨ place < -330 then 0
  else if place > 310 then infinite
  else
    let kept := (digits.reverse.dropWhile (· == '0')).reverse
    let exponent := place - kept.length
    .ofScientific (Text.digitsValue 10 kept) (exponent < 0) exponent.natAbs

/-- The number written by the digits before and after a point. -/
def ofDigits (negative : Bool) (before after : List Char) : Float :=
  signed negative (ofDecimal (before ++ after) (-after.length))

/-- Split at the first point, which is left out. -/
def splitPoint (text : List Char) : List Char × List Char :=
  match text.span (· != '.') with
  | (before, _ :: after) => (before, after)
  | (before, []) => (before, [])

/-- Whether a text begins with a minus sign, and what follows the sign if there is one. -/
def splitSign : List Char → Bool × List Char
  | '-' :: rest => (true, rest)
  | '+' :: rest => (false, rest)
  | rest => (false, rest)

/-! ## Numbers at the start of a text -/

/-- The nearest of the integers that 64 bits hold with a sign. -/
def saturate (n : Int) : Int :=
  max (-0x8000000000000000) (min n 0x7FFFFFFFFFFFFFFF)

/-- The integer at the start of a text, after blanks, or zero. What has too many digits stays at the
end of the range of 64 bits. -/
def leadingInteger (text : String) : Int :=
  let (negative, rest) := splitSign (Text.trimStart Text.isBlank text.toList)
  (rest.takeWhile Char.isDigit).foldl (fun value c =>
    let digit : Int := Text.digitsValue 10 [c]
    saturate (saturate (value * 10) + if negative then -digit else digit)) 0

/-- The magnitude of an exponent. It takes no more digits once it has reached 65536: a number goes
beyond every bound then, unless it has as many digits itself. -/
def exponentValue (digits : List Char) : Nat :=
  digits.foldl (fun value c =>
    if value < 0x10000 then value * 10 + Text.digitsValue 10 [c] else value) 0

/-- The exponent at the start of a text, or zero if it begins with none. -/
def leadingExponent : List Char → Int
  | [] => 0
  | mark :: rest =>
    if mark == 'e' || mark == 'E' then
      let (negative, rest) := splitSign rest
      let value : Int := exponentValue (rest.takeWhile Char.isDigit)
      if negative then -value else value
    else 0

/-- The decimal number at the start of a text, after blanks, or zero. -/
def leadingNumber (text : String) : Float :=
  let (negative, rest) := splitSign (Text.trimStart Text.isBlank text.toList)
  let before := rest.takeWhile Char.isDigit
  let (after, rest) :=
    match rest.drop before.length with
    | '.' :: rest => rest.span Char.isDigit
    | rest => ([], rest)
  if before.isEmpty && after.isEmpty then 0
  else signed negative (ofDecimal (before ++ after) (leadingExponent rest - after.length))

end Markup.Number
