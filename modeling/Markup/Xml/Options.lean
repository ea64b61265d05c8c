/-!
# Options of the strict parser

What the parser does about problems it could step over, and the limits that it keeps.
-/

namespace Markup.Xml

/-- How a text is to be read as XML. -/
structure ParseOptions where
  /-- Report problems that can be stepped over, instead of failing at the first. -/
  recover : Bool := false
  /-- Drop text that holds nothing but blanks. -/
  noBlanks : Bool := false
  /-- The greatest nesting depth of elements; the root element has depth one. -/
  maxDepth : Nat := 256
  /-- The greatest length of a name, in bytes. -/
  maxNameLength : Nat := 50000
  /-- The greatest length of a run of text, in bytes. -/
  maxTextLength : Nat := 10485760
  /-- The greatest number of entity references that are expanded in one document. -/
  maxExpansions : Nat := 10000
  deriving Repr, DecidableEq

end Markup.Xml
