import Markup.Xml.Reader

/-!
# The declaration at the head of a document

A document may begin by naming its version, its encoding and whether it stands alone, in this
order.
-/

namespace Markup.Xml

/-- What the head of a document declares. -/
structure Declaration where
  version : String
  encoding : Option String
  standalone : Option Bool
  deriving Repr, DecidableEq

/-- Whether a text is a version number: `1.` and digits. -/
def isVersion (version : String) : Bool :=
  match version.toList with
  | '1' :: '.' :: digits => !digits.isEmpty && digits.all Char.isDigit
  | _ => false

/-- Whether a text may name an encoding: a letter, then letters, digits, dots, underscores and
hyphens. -/
def isEncodingName (name : String) : Bool :=
  match name.toList with
  | [] => false
  | first :: rest =>
    first.isAlpha &&
      rest.all fun c => Text.isAsciiAlphanumeric c || c == '.' || c == '_' || c == '-'

namespace Reader

/-- Read an equals sign and a quoted literal, with blanks around the sign. -/
def pseudoValue (r : Reader) : Except ParseFailure (String × Reader) := do
  let r ← r.skipBlanks.expect '='
  r.skipBlanks.quoted

/-- Read the version. -/
def version (r : Reader) : Except ParseFailure (String × Reader) := do
  let r ← r.expectWord "version"
  let (version, r) ← r.pseudoValue
  if isVersion version then return (version, r) else r.fail (.invalidVersion version)

/-- Read the name of the encoding, if it comes next. -/
def encodingName (r : Reader) : Except ParseFailure (Option String × Reader) :=
  if r.skipBlanks.startsWith "encoding" then
    if r.seesBlank then do
      let r ← r.skipBlanks.expectWord "encoding"
      let (name, r) ← r.pseudoValue
      if isEncodingName name then return (some name, r) else r.fail (.invalidEncodingName name)
    else r.skipBlanks.fail (.blankRequired .beforeEncoding)
  else .ok (none, r)

/-- Read whether the document stands alone, if it comes next. -/
def standalone (r : Reader) : Except ParseFailure (Option Bool × Reader) :=
  if r.skipBlanks.startsWith "standalone" then
    if r.seesBlank then do
      let r ← r.skipBlanks.expectWord "standalone"
      let (value, r) ← r.pseudoValue
      match value with
      | "yes" => return (some true, r)
      | "no" => return (some false, r)
      | _ => r.fail .invalidStandalone
    else r.skipBlanks.fail (.blankRequired .beforeStandalone)
  else .ok (none, r)

/-- Whether a declaration comes next. -/
def seesDeclaration (r : Reader) : Bool :=
  r.startsWith "<?xml" && (r.rest[5]?).any Text.isAsciiBlank

/-- Read a declaration. -/
def declaration (r : Reader) : Except ParseFailure (Declaration × Reader) := do
  let r ← r.expectWord "<?xml"
  let r ← r.requireBlanks .anywhere
  let (version, r) ← r.version
  let (encoding, r) ← r.encodingName
  let (standalone, r) ← r.standalone
  let r ← r.skipBlanks.expectWord "?>"
  return (⟨version, encoding, standalone⟩, r)

end Reader
end Markup.Xml
