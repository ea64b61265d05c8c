import Markup.Text.Ascii

/-!
# Character references

A character is referred to by number or by name. The semicolon at the end may be missing. A number
that no character has stands for U+FFFD; an ampersand that begins no reference stands for itself.
-/

namespace Markup.Html

/-- The names that stand for the characters of markup itself. -/
def basicNames : List (String × Nat) :=
  [("amp", 0x26), ("AMP", 0x26), ("lt", 0x3C), ("LT", 0x3C), ("gt", 0x3E), ("GT", 0x3E),
    ("quot", 0x22), ("QUOT", 0x22), ("apos", 0x27)]

/-- The names of the upper half of Latin-1. -/
def latinNames : List (String × Nat) :=
  [("nbsp", 0xA0), ("iexcl", 0xA1), ("cent", 0xA2), ("pound", 0xA3), ("curren", 0xA4),
    ("yen", 0xA5), ("brvbar", 0xA6), ("sect", 0xA7), ("uml", 0xA8), ("copy", 0xA9), ("COPY", 0xA9),
    ("ordf", 0xAA), ("laquo", 0xAB), ("not", 0xAC), ("shy", 0xAD), ("reg", 0xAE), ("REG", 0xAE),
    ("macr", 0xAF), ("deg", 0xB0), ("plusmn", 0xB1), ("sup2", 0xB2), ("sup3", 0xB3),
    ("acute", 0xB4), ("micro", 0xB5), ("para", 0xB6), ("middot", 0xB7), ("cedil", 0xB8),
    ("sup1", 0xB9), ("ordm", 0xBA), ("raquo", 0xBB), ("frac14", 0xBC), ("frac12", 0xBD),
    ("frac34", 0xBE), ("iquest", 0xBF), ("Agrave", 0xC0), ("Aacute", 0xC1), ("Acirc", 0xC2),
    ("Atilde", 0xC3), ("Auml", 0xC4), ("Aring", 0xC5), ("AElig", 0xC6), ("Ccedil", 0xC7),
    ("Egrave", 0xC8), ("Eacute", 0xC9), ("Ecirc", 0xCA), ("Euml", 0xCB), ("Igrave", 0xCC),
    ("Iacute", 0xCD), ("Icirc", 0xCE), ("Iuml", 0xCF), ("ETH", 0xD0), ("Ntilde", 0xD1),
    ("Ograve", 0xD2), ("Oacute", 0xD3), ("Ocirc", 0xD4), ("Otilde", 0xD5), ("Ouml", 0xD6),
    ("times", 0xD7), ("Oslash", 0xD8), ("Ugrave", 0xD9), ("Uacute", 0xDA), ("Ucirc", 0xDB),
    ("Uuml", 0xDC), ("Yacute", 0xDD), ("THORN", 0xDE), ("szlig", 0xDF), ("agrave", 0xE0),
    ("aacute", 0xE1), ("acirc", 0xE2), ("atilde", 0xE3), ("auml", 0xE4), ("aring", 0xE5),
    ("aelig", 0xE6), ("ccedil", 0xE7), ("egrave", 0xE8), ("eacute", 0xE9), ("ecirc", 0xEA),
    ("euml", 0xEB), ("igrave", 0xEC), ("iacute", 0xED), ("icirc", 0xEE), ("iuml", 0xEF),
    ("eth", 0xF0), ("ntilde", 0xF1), ("ograve", 0xF2), ("oacute", 0xF3), ("ocirc", 0xF4),
    ("otilde", 0xF5), ("ouml", 0xF6), ("divide", 0xF7), ("oslash", 0xF8), ("ugrave", 0xF9),
    ("uacute", 0xFA), ("ucirc", 0xFB), ("uuml", 0xFC), ("yacute", 0xFD), ("thorn", 0xFE),
    ("yuml", 0xFF)]

/-- The names of further letters, spaces, marks and quotes. -/
def specialNames : List (String × Nat) :=
  [("OElig", 0x152), ("oelig", 0x153), ("Scaron", 0x160), ("scaron", 0x161), ("Yuml", 0x178),
    ("circ", 0x2C6), ("tilde", 0x2DC), ("ensp", 0x2002), ("emsp", 0x2003), ("thinsp", 0x2009),
    ("zwnj", 0x200C), ("zwj", 0x200D), ("lrm", 0x200E), ("rlm", 0x200F), ("ndash", 0x2013),
    ("mdash", 0x2014), ("lsquo", 0x2018), ("rsquo", 0x2019), ("sbquo", 0x201A), ("ldquo", 0x201C),
    ("rdquo", 0x201D), ("bdquo", 0x201E), ("dagger", 0x2020), ("Dagger", 0x2021),
    ("permil", 0x2030), ("lsaquo", 0x2039), ("rsaquo", 0x203A), ("euro", 0x20AC)]

/-- The names of Greek letters, arrows and signs. -/
def symbolNames : List (String × Nat) :=
  [("fnof", 0x192), ("Alpha", 0x391), ("Beta", 0x392), ("Gamma", 0x393), ("Delta", 0x394),
    ("Omega", 0x3A9), ("alpha", 0x3B1), ("beta", 0x3B2), ("gamma", 0x3B3), ("delta", 0x3B4),
    ("epsilon", 0x3B5), ("lambda", 0x3BB), ("mu", 0x3BC), ("pi", 0x3C0), ("sigma", 0x3C3),
    ("omega", 0x3C9), ("bull", 0x2022), ("hellip", 0x2026), ("prime", 0x2032), ("Prime", 0x2033),
    ("oline", 0x203E), ("frasl", 0x2044), ("trade", 0x2122), ("TRADE", 0x2122), ("larr", 0x2190),
    ("uarr", 0x2191), ("rarr", 0x2192), ("darr", 0x2193), ("harr", 0x2194), ("lArr", 0x21D0),
    ("rArr", 0x21D2), ("hArr", 0x21D4), ("forall", 0x2200), ("part", 0x2202), ("exist", 0x2203),
    ("empty", 0x2205), ("nabla", 0x2207), ("isin", 0x2208), ("notin", 0x2209), ("prod", 0x220F),
    ("sum", 0x2211), ("minus", 0x2212), ("radic", 0x221A), ("infin", 0x221E), ("and", 0x2227),
    ("or", 0x2228), ("cap", 0x2229), ("cup", 0x222A), ("int", 0x222B), ("asymp", 0x2248),
    ("ne", 0x2260), ("equiv", 0x2261), ("le", 0x2264), ("ge", 0x2265), ("sub", 0x2282),
    ("sup", 0x2283), ("loz", 0x25CA), ("spades", 0x2660), ("clubs", 0x2663), ("hearts", 0x2665),
    ("diams", 0x2666)]

/-- The names that were added last. -/
def laterNames : List (String × Nat) :=
  [("check", 0x2713), ("star", 0x2606), ("starf", 0x2605), ("NewLine", 0xA), ("Tab", 0x9)]

/-- The names of characters, with their code points. Case matters. -/
def characterNames : List (String × Nat) :=
  basicNames ++ latinNames ++ specialNames ++ symbolNames ++ laterNames

/-- The character that a name stands for. -/
def namedCharacter? (name : String) : Option Char :=
  (characterNames.lookup name).map Char.ofNat

/-- The character with a number, or U+FFFD if there is none. -/
def numberedCharacter (number : Nat) : Char :=
  if number.isValidChar then Char.ofNat number else '\ufffd'

/-- A reference at the front of a text. -/
structure Reference where
  /-- What it stands for. -/
  character : Char
  /-- The number of characters that it is written with. -/
  length : Nat
  /-- Whether it ends with a semicolon. -/
  terminated : Bool
  deriving Repr, DecidableEq

namespace Reference

/-- A reference written with a number of characters, and a semicolon if one comes next. -/
def close (character : Char) (length : Nat) (rest : List Char) : Reference :=
  if rest.head? == some ';' then ⟨character, length + 1, true⟩
  else ⟨character, length, false⟩

/-- A reference by number, of which the first characters are read. -/
def numbered? (opening base : Nat) (isDigit : Char → Bool) (text : List Char) :
    Option Reference :=
  let digits := text.takeWhile isDigit
  if digits.isEmpty then none
  else
    some <| close (numberedCharacter (Text.digitsValue base digits)) (opening + digits.length)
      (text.drop digits.length)

/-- A reference by name, of which the ampersand is read. -/
def named? (text : List Char) : Option Reference :=
  let name := text.takeWhile Text.isAsciiAlphanumeric
  (namedCharacter? (String.ofList name)).map fun character =>
    close character (1 + name.length) (text.drop name.length)

/-- The reference at the front of a text. -/
def ofText? : List Char → Option Reference
  | '&' :: '#' :: 'x' :: text | '&' :: '#' :: 'X' :: text => numbered? 3 16 Text.isHexDigit text
  | '&' :: '#' :: text => numbered? 2 10 Char.isDigit text
  | '&' :: text => named? text
  | _ => none

theorem length_close_pos {character : Char} {length : Nat} {rest : List Char}
    (positive : 0 < length) : 0 < (close character length rest).length := by
  unfold close
  split
  · exact Nat.succ_pos _
  · exact positive

theorem length_pos_of_numbered? {opening base : Nat} {isDigit : Char → Bool} {text : List Char}
    {reference : Reference} (positive : 0 < opening)
    (h : numbered? opening base isDigit text = some reference) : 0 < reference.length := by
  unfold numbered? at h
  dsimp only at h
  split at h
  · cases h
  · cases h
    exact length_close_pos (Nat.add_pos_left positive _)

theorem length_pos_of_ofText? {text : List Char} {reference : Reference}
    (h : ofText? text = some reference) : 0 < reference.length := by
  unfold ofText? at h
  split at h
  · exact length_pos_of_numbered? (by decide) h
  · exact length_pos_of_numbered? (by decide) h
  · exact length_pos_of_numbered? (by decide) h
  · simp only [named?, Option.map_eq_some_iff] at h
    obtain ⟨character, _, rfl⟩ := h
    exact length_close_pos (Nat.add_pos_left (by decide) _)
  · cases h

end Reference
end Markup.Html
