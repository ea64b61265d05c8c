import Markup.Number.Reading
import Markup.Number.Shortest
import Markup.Text.Blank

/-!
# Numbers of query expressions

A number is read from digits with an optional point and sign between blanks; every other text is
not a number. A number is written without an exponent, a whole number also without a point.
-/

namespace Markup.XPath

/-- The number that a text stands for. -/
def numberOf (text : String) : Float :=
  let trimmed := Text.trim Text.isMarkupBlank text.toList
  let (negative, digits) :=
    match trimmed with
    | '-' :: rest => (true, rest)
    | digits => (false, digits)
  let (before, after) := Number.splitPoint digits
  if (before ++ after).isEmpty || !(before ++ after).all Char.isDigit then Number.nan
  else Number.ofDigits negative before after

/-- A number as text. -/
def numberText (x : Float) : String :=
  if x.isNaN then "NaN"
  else if x.isInf then if x < 0 then "-Infinity" else "Infinity"
  else if x == 0 then "0"
  else
    let parts := Binary.ofFloat x
    if parts.isWhole && parts.whole < Nat.pow 10 18 then
      (if parts.negative then "-" else "") ++ toString parts.whole
    else Number.shortestText x

/-- The nearest whole number, the larger of two that are equally near. The sum is rounded before
the fraction is dropped. What rounds to zero from below is the negative zero. -/
def round (x : Float) : Float :=
  if !x.isFinite || x == 0 then x
  else
    let rounded := Number.floor (x + 0.5)
    if rounded == 0 && x < 0 then -0.0 else rounded

end Markup.XPath
