import Markup.Position
import Markup.Text.Ascii

/-!
# Problems of markup and their reports

A problem is a cause, and its text is written by one function. A diagnostic is a problem that did
not stop the reading; a failure is the one that did, with the diagnostics that came before it.
-/

namespace Markup

/-- Why bytes could not be read as text. -/
inductive DecodingFault where
  /-- No encoding has this label. -/
  | unknownLabel (label : String)
  /-- The bytes are no text in the encoding of this name. -/
  | malformed (encoding : String)
  deriving Repr, DecidableEq

/-- The text of a decoding fault. -/
def DecodingFault.message : DecodingFault → String
  | unknownLabel label => s!"encoding error: unsupported encoding: {label}"
  | malformed encoding => s!"encoding error: malformed byte sequence for encoding {encoding}"

/-- The construct that the end of the text cut short. -/
inductive Construct where
  | attributeValue | entityValue | comment | cdataSection | instruction | doctype | startTag
  | elementContent
  deriving Repr, DecidableEq

/-- A construct as messages name it. -/
def Construct.phrase : Construct → String
  | attributeValue => "attribute value"
  | entityValue => "entity value"
  | comment => "comment"
  | cdataSection => "CDATA section"
  | instruction => "processing instruction"
  | doctype => "DOCTYPE"
  | startTag => "start tag"
  | elementContent => "element content"

/-- A literal that has to stand in quotes. -/
inductive Quoted where
  | attributeValue | entityValue | plain
  deriving Repr, DecidableEq

/-- A quoted literal as messages name it. -/
def Quoted.phrase : Quoted → String
  | attributeValue => "quoted attribute value"
  | entityValue => "quoted entity value"
  | plain => "quoted value"

/-- A place where a blank has to stand. -/
inductive BlankPlace where
  | anywhere | beforeEncoding | beforeStandalone | beforeNotation | betweenAttributes
  deriving Repr, DecidableEq

/-- The end of the message about a missing blank. -/
def BlankPlace.phrase : BlankPlace → String
  | anywhere => ""
  | beforeEncoding => " before encoding"
  | beforeStandalone => " before standalone"
  | beforeNotation => " before NDATA"
  | betweenAttributes => " between attributes"

/-- What can be wrong with a text that is read as markup. -/
inductive Problem where
  /-- Another character stands where this one has to, or none does. -/
  | expected (wanted : Char) (found : Option Char)
  | endOfText (within : Option Construct)
  | invalidChar (found : Char)
  | blankRequired (place : BlankPlace)
  | nameMissing
  | invalidNameStart (found : Char)
  | nameTooLong (length limit : Nat)
  | selfReference (entity : String)
  | tooManyExpansions (limit : Nat)
  | externalEntity (entity : String)
  | unknownEntity (entity : String)
  | emptyCharReference
  | charReferenceOutOfRange
  | invalidCharReference (value : Nat)
  | quoteMissing (literal : Quoted)
  | lessThanInAttribute
  | entityBringsLessThan (entity : String)
  | parameterReference
  | doubleHyphen
  | reservedTarget
  | invalidVersion (version : String)
  | invalidEncodingName (name : String)
  | invalidStandalone
  | misplacedDeclaration
  | noRoot
  | contentBeforeRoot
  | contentAfterRoot
  | strayTextInSubset
  | colonInEntityName (entity : String)
  | notationNotAllowed
  | tooDeep (limit : Nat)
  | duplicateAttribute (name : String)
  | undeclaredPrefix (name : String)
  | mismatchedEndTag (opened closed : String)
  | sectionEndInText
  | textTooLong (limit : Nat)
  | endTagInEntity (entity : String)
  | emptyDocument
  | noRootElement
  | undecodable (fault : DecodingFault)
  | unclosedElement (tag : String)
  | misplacedDoctype
  | bogusDeclaration
  | headInsideBody
  | endTagIgnored (tag : String)
  | implicitClose (closed tag : String)
  | strayEndTag (tag : String)
  | duplicateIgnored (name : String)
  | unterminatedComment
  | semicolonMissing
  deriving Repr, DecidableEq

/-- The first byte of the UTF-8 form of a character, read as a character of its own. -/
def leadByte (c : Char) : Char :=
  let point := c.toNat
  if point < 0x80 then c
  else if point < 0x800 then Char.ofNat (0xC0 + point / 0x40)
  else if point < 0x10000 then Char.ofNat (0xE0 + point / 0x1000)
  else Char.ofNat (0xF0 + point / 0x40000)

/-- The text of a problem. -/
def Problem.message : Problem → String
  | expected wanted (some found) => s!"expected '{wanted}', found '{leadByte found}'"
  | expected wanted none => s!"expected '{wanted}', found end of input"
  | endOfText none => "unexpected end of input"
  | endOfText (some construct) => s!"unexpected end of input in {construct.phrase}"
  | invalidChar found => s!"invalid XML character: U+{Text.upperHex 4 found.toNat}"
  | blankRequired place => s!"whitespace required{place.phrase}"
  | nameMissing => "expected name, found end of input"
  | invalidNameStart found => s!"invalid name start character: '{found}'"
  | nameTooLong length limit => s!"name length ({length}) exceeds maximum ({limit})"
  | selfReference entity => s!"entity '{entity}' references itself"
  | tooManyExpansions limit => s!"entity expansion limit exceeded ({limit})"
  | externalEntity entity => s!"reference to external entity '{entity}' is not supported"
  | unknownEntity entity => s!"unknown entity reference: &{entity};"
  | emptyCharReference => "empty character reference"
  | charReferenceOutOfRange => "character reference out of range"
  | invalidCharReference value =>
    s!"character reference &#x{Text.upperHex 0 value}; does not refer to a valid XML character"
  | quoteMissing literal => s!"expected {literal.phrase}"
  | lessThanInAttribute => "'<' not allowed in attribute value"
  | entityBringsLessThan entity => s!"entity '{entity}' puts '<' in an attribute value"
  | parameterReference => "parameter entity reference not allowed in internal entity value"
  | doubleHyphen => "'--' not allowed inside comments"
  | reservedTarget => "PI target 'xml' is reserved"
  | invalidVersion version => s!"invalid version number: '{version}'"
  | invalidEncodingName name => s!"invalid encoding name: '{name}'"
  | invalidStandalone => "standalone must be 'yes' or 'no'"
  | misplacedDeclaration => "XML declaration must be at the start of the document"
  | noRoot => "document is empty or has no root element"
  | contentBeforeRoot => "content before root element"
  | contentAfterRoot => "content after document element"
  | strayTextInSubset => "unexpected content in DOCTYPE internal subset"
  | colonInEntityName entity => s!"entity name '{entity}' contains a colon"
  | notationNotAllowed => "NDATA is only allowed on external general entities"
  | tooDeep limit => s!"maximum nesting depth exceeded ({limit})"
  | duplicateAttribute name => s!"duplicate attribute: '{name}'"
  | undeclaredPrefix name => s!"namespace prefix '{name}' is not declared"
  | mismatchedEndTag opened closed =>
    s!"mismatched end tag: expected </{opened}>, found </{closed}>"
  | sectionEndInText => "']]>' not allowed in character data"
  | textTooLong limit => s!"text node length exceeds maximum ({limit})"
  | endTagInEntity entity => s!"end tag in entity '{entity}' has no matching start tag"
  | emptyDocument => "document is empty"
  | noRootElement => "document has no root element"
  | undecodable fault => fault.message
  | unclosedElement tag => s!"unclosed element <{tag}> at end of document"
  | misplacedDoctype => "misplaced DOCTYPE declaration"
  | bogusDeclaration => "bogus markup declaration"
  | headInsideBody => "<head> inside body ignored"
  | endTagIgnored tag => s!"end tag </{tag}> ignored"
  | implicitClose closed tag => s!"implicitly closing <{closed}> before </{tag}>"
  | strayEndTag tag => s!"stray end tag </{tag}>"
  | duplicateIgnored name => s!"duplicate attribute '{name}' ignored"
  | unterminatedComment => "unterminated comment"
  | semicolonMissing => "character reference missing semicolon"

/-- How grave a reported problem is. -/
inductive Severity where
  | warning | error | fatal
  deriving Repr, DecidableEq

/-- A severity as reports name it. -/
def Severity.phrase : Severity → String
  | warning => "warning"
  | error => "error"
  | fatal => "fatal error"

/-- A report: how grave, what, and where. -/
def Severity.report (severity : Severity) (message : String) (position : Position) : String :=
  s!"{severity.phrase}: {message} at {position.toText}"

/-- A problem that did not stop the reading. -/
structure Diagnostic where
  severity : Severity
  problem : Problem
  position : Position
  deriving Repr, DecidableEq

/-- The report of a diagnostic. -/
def Diagnostic.toText (diagnostic : Diagnostic) : String :=
  diagnostic.severity.report diagnostic.problem.message diagnostic.position

/-- The problem that stopped the reading. -/
structure ParseFailure where
  problem : Problem
  /-- Where it arose; a failure that concerns the whole text has no place. -/
  position : Option Position
  /-- What was reported before it, in the order of the text. -/
  diagnostics : List Diagnostic
  deriving Repr, DecidableEq

namespace ParseFailure

/-- A failure that concerns the whole text. -/
def ofWhole (problem : Problem) : ParseFailure := ⟨problem, none, []⟩

/-- The text of a failure; one without a place is shown at line zero. -/
def message (failure : ParseFailure) : String :=
  let place := (failure.position.map Position.toText).getD "0:0"
  s!"parse error at {place}: {failure.problem.message}"

end ParseFailure
end Markup
