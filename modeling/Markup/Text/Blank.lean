/-!
# Blank characters

Three classes of blank character occur in markup: the four that separate the parts of a tag, the
five of ASCII, and the Unicode property White_Space. Each class contains the one before it.
-/

namespace Markup.Text

/-- The blanks between the parts of markup: space, tab, carriage return and line feed. -/
def isMarkupBlank (c : Char) : Bool :=
  c == ' ' || c == '\t' || c == '\r' || c == '\n'

/-- The blanks of ASCII: those of markup and the form feed. -/
def isAsciiBlank (c : Char) : Bool :=
  isMarkupBlank c || c == '\x0c'

/-- The code points of the property White_Space, as closed ranges in ascending order. -/
def blankRanges : List (Nat × Nat) :=
  [(0x09, 0x0D), (0x20, 0x20), (0x85, 0x85), (0xA0, 0xA0), (0x1680, 0x1680), (0x2000, 0x200A),
    (0x2028, 0x2029), (0x202F, 0x202F), (0x205F, 0x205F), (0x3000, 0x3000)]

/-- Whether a code point lies in one of the closed ranges. -/
def inRanges (ranges : List (Nat × Nat)) (point : Nat) : Bool :=
  ranges.any fun range => range.1 ≤ point && point ≤ range.2

/-- The Unicode property White_Space. -/
def isBlank (c : Char) : Bool :=
  inRanges blankRanges c.toNat

/-- Whether a text holds nothing but characters of the property White_Space. -/
def isAllBlank (text : String) : Bool :=
  text.toList.all isBlank

/-- A text without the leading characters of a class. -/
def trimStart (blank : Char → Bool) (text : List Char) : List Char :=
  text.dropWhile blank

/-- A text without the leading and trailing characters of a class. -/
def trim (blank : Char → Bool) (text : List Char) : List Char :=
  ((text.dropWhile blank).reverse.dropWhile blank).reverse

end Markup.Text
