import Markup.Text.Blank

/-!
# Names

The character classes of names, names without colons, and qualified names. A qualified name is
split at its first colon; what stands before it is the prefix.
-/

namespace Markup

/-- The characters that a document may hold, literally or by reference. -/
def isDocumentChar (c : Char) : Bool :=
  Text.inRanges [(0x09, 0x0A), (0x0D, 0x0D), (0x20, 0xD7FF), (0xE000, 0xFFFD), (0x10000, 0x10FFFF)]
    c.toNat

/-- The code points that may begin a name, as closed ranges in ascending order. -/
def nameStartRanges : List (Nat × Nat) :=
  [(0x3A, 0x3A), (0x41, 0x5A), (0x5F, 0x5F), (0x61, 0x7A), (0xC0, 0xD6), (0xD8, 0xF6),
    (0xF8, 0x2FF), (0x370, 0x37D), (0x37F, 0x1FFF), (0x200C, 0x200D), (0x2070, 0x218F),
    (0x2C00, 0x2FEF), (0x3001, 0xD7FF), (0xF900, 0xFDCF), (0xFDF0, 0xFFFD), (0x10000, 0xEFFFF)]

/-- The code points that may continue a name but not begin one. -/
def nameTailRanges : List (Nat × Nat) :=
  [(0x2D, 0x2E), (0x30, 0x39), (0xB7, 0xB7), (0x300, 0x36F), (0x203F, 0x2040)]

/-- Whether a character may begin a name. -/
def isNameStart (c : Char) : Bool :=
  Text.inRanges nameStartRanges c.toNat

/-- Whether a character may stand in a name. -/
def isNameChar (c : Char) : Bool :=
  isNameStart c || Text.inRanges nameTailRanges c.toNat

/-- Whether a text is a name without colons. -/
def isPlainName (text : String) : Bool :=
  match text.toList with
  | [] => false
  | first :: rest =>
    first != ':' && isNameStart first && rest.all fun c => c != ':' && isNameChar c

/-- A name as it is written: an optional prefix and a local part. -/
structure QName where
  /-- What stands before the first colon, if there is one. -/
  nsPrefix : Option String
  /-- What stands after it. -/
  localName : String
  deriving Repr, DecidableEq, Inhabited

namespace QName

/-- Split a written name at its first colon. -/
def ofText (text : String) : QName :=
  match text.toList.span (· != ':') with
  | (all, []) => ⟨none, String.ofList all⟩
  | (before, _ :: after) => ⟨some (String.ofList before), String.ofList after⟩

/-- The name as it is written in markup. -/
def toText : QName → String
  | ⟨none, localName⟩ => localName
  | ⟨some nsPrefix, localName⟩ => nsPrefix ++ ":" ++ localName

/-- Whether every part of the name is a name without colons. -/
def isWellFormed (name : QName) : Bool :=
  name.nsPrefix.all isPlainName && isPlainName name.localName

end QName

/-- Whether a text is a qualified name: one plain name, or two joined by a colon. -/
def isQualifiedName (text : String) : Bool :=
  (QName.ofText text).isWellFormed

end Markup
