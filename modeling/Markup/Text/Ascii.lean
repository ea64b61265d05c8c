/-!
# Text up to ASCII case

Labels, tag names and keywords are compared after the letters A to Z are lowered; all other
characters are compared as they are.
-/

namespace Markup.Text

/-- A text with the letters A to Z lowered. -/
def lowerAscii (text : List Char) : List Char :=
  text.map Char.toLower

/-- Equality of texts up to the case of the letters A to Z. -/
def equalsIgnoringCase (left right : List Char) : Bool :=
  lowerAscii left == lowerAscii right

/-- Whether a text begins with a word, up to the case of the letters A to Z. -/
def startsIgnoringCase (text word : List Char) : Bool :=
  equalsIgnoringCase (text.take word.length) word

/-- Whether a character is an ASCII letter or digit. -/
def isAsciiAlphanumeric (c : Char) : Bool :=
  c.isAlpha || c.isDigit

/-- The value of a digit in bases up to sixteen. -/
def digitValue? (c : Char) : Option Nat :=
  if c.isDigit then some (c.toNat - '0'.toNat)
  else if 'a' ≤ c && c ≤ 'f' then some (c.toNat - 'a'.toNat + 10)
  else if 'A' ≤ c && c ≤ 'F' then some (c.toNat - 'A'.toNat + 10)
  else none

/-- Whether a character is a hexadecimal digit of either case. -/
def isHexDigit (c : Char) : Bool :=
  (digitValue? c).isSome

/-- The number that a run of digits denotes in a base; characters that are no digits count as
zero. -/
def digitsValue (base : Nat) (digits : List Char) : Nat :=
  digits.foldl (fun value c => value * base + (digitValue? c).getD 0) 0

/-- A number in hexadecimal with capital letters, padded with zeros to a least width. -/
def upperHex (width number : Nat) : String :=
  let digits := (Nat.toDigits 16 number).map Char.toUpper
  String.ofList (List.replicate (width - digits.length) '0' ++ digits)

end Markup.Text
