import Markup.Xml.Content
import Markup.Xml.Declaration
import Markup.Xml.Doctype

/-!
# Whole documents

A document is an optional declaration, comments and instructions, an optional document type
declaration, one element, and comments and instructions after it.
-/

namespace Markup.Xml

namespace Reader

-- The equations bound by `match` are what the termination proofs need.
set_option linter.unusedVariables false

/-- Read comments, instructions and the blanks between them, after earlier nodes, latest first. -/
def misc (options : ParseOptions) (r : Reader) (before : List Draft) :
    Except ParseFailure (List Draft × Reader) :=
  if r.skipBlanks.startsWith "<!--" then
    match h : r.skipBlanks.comment options with
    | .error failure => .error failure
    | .ok (content, next) => misc options next (.written (.comment content) [] :: before)
  else if r.skipBlanks.startsWith "<?" then
    match h : r.skipBlanks.instruction options with
    | .error failure => .error failure
    | .ok ((target, data), next) =>
      misc options next (.written (.instruction target data) [] :: before)
  else .ok (before, r.skipBlanks)
  termination_by r.rest.length
  decreasing_by
    · exact Nat.lt_of_lt_of_le (length_lt_of_comment h) (length_skipBlanks_le r)
    · exact Nat.lt_of_lt_of_le (length_lt_of_instruction h) (length_skipBlanks_le r)

/-- Read the declaration, if there is one. It may not follow blanks. -/
def head (r : Reader) : Except ParseFailure (Option Declaration × Reader) :=
  if r.seesDeclaration then do
    let (declaration, r) ← r.declaration
    return (some declaration, r)
  else if r.seesBlank && r.skipBlanks.seesDeclaration then
    r.skipBlanks.fail .misplacedDeclaration
  else .ok (none, r.skipBlanks)

/-- Read the document type declaration, if there is one, and the nodes after it. -/
def typeDeclaration (r : Reader) (options : ParseOptions) (before : List Draft) :
    Except ParseFailure ((List Draft × EntityTable) × Reader) :=
  if r.startsWith "<!DOCTYPE" then do
    let ((doctype, table), r) ← r.doctype options
    let node := Draft.written (.doctype doctype.name doctype.publicId doctype.systemId) []
    let (nodes, r) ← misc options r (node :: before)
    return ((nodes, table), r)
  else .ok ((before, .empty), r)

end Reader

/-- Parse a text as an XML document. -/
def parse (options : ParseOptions) (text : String) : Except ParseFailure DocumentDraft := do
  let (declaration, r) ← (Reader.ofText text).head
  let (nodes, r) ← Reader.misc options r []
  let ((nodes, table), r) ← r.typeDeclaration options nodes
  if r.atEnd then r.fail .noRoot
  else if !r.sees '<' then r.fail .contentBeforeRoot
  else
    let (root, r) ← r.rootElement ⟨options, table, []⟩
    let (nodes, r) ← Reader.misc options r (root :: nodes)
    let r ← if r.atEnd then pure r else r.report options .contentAfterRoot
    return {
      version := declaration.map (·.version)
      encoding := declaration.bind (·.encoding)
      standalone := declaration.bind (·.standalone)
      diagnostics := r.diagnostics
      nodes := nodes.reverse }

end Markup.Xml
