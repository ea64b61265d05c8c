import Markup.Document.Parse
import Markup.Html.Parser
import Markup.Workspace.Refusal
import Markup.XPath.Parser

/-!
# Open documents and handles

A workspace holds open documents. A handle names a node of one of them and nothing else: whatever is
asked of it is read from the document, so that all handles see all changes. A handle holds as long
as its node is part of the tree.
-/

namespace Markup

/-- The kind of markup that a document was read as. -/
inductive Mode where
  | xml | html
  deriving Repr, DecidableEq

/-- A kind of markup in a word. -/
def Mode.name : Mode → String
  | xml => "xml"
  | html => "html"

/-- A query that was read once and is kept; no two have one serial number. -/
structure CompiledQuery where
  serial : Nat
  query : XPath.Query
  deriving Inhabited

/-- Queries that were read before, each under a key, the one used last first. -/
structure QueryCache where
  /-- How many are kept; at least one. -/
  capacity : Nat
  entries : List (String × CompiledQuery)

namespace QueryCache

/-- How many queries are kept unless something else is said. -/
def defaultCapacity : Nat := 64

/-- A cache without queries. -/
def ofCapacity (capacity : Nat) : QueryCache := ⟨max 1 capacity, []⟩

/-- The query of a key. -/
def find? (cache : QueryCache) (key : String) : Option CompiledQuery :=
  cache.entries.lookup key

/-- Put a query first under a key, and drop the last one if there are too many. -/
def put (cache : QueryCache) (key : String) (compiled : CompiledQuery) : QueryCache :=
  let others := cache.entries.filter fun entry => entry.1 != key
  { cache with entries := ((key, compiled) :: others).take cache.capacity }

end QueryCache

/-- A document that is open. -/
structure OpenDocument where
  tree : Document
  mode : Mode
  cache : QueryCache

namespace OpenDocument

/-- How a document is to be read. -/
structure LoadOptions where
  mode : Mode := .xml
  /-- A label of an encoding, which is then not looked for. -/
  label : Option String := none
  xml : Xml.ParseOptions := {}
  html : Html.ParseOptions := {}
  cacheCapacity : Nat := QueryCache.defaultCapacity

/-- Open a document that is there already. -/
def ofTree (tree : Document) (mode : Mode) : OpenDocument :=
  ⟨tree, mode, .ofCapacity QueryCache.defaultCapacity⟩

instance : Inhabited OpenDocument := ⟨ofTree .empty .xml⟩

/-- The text of bytes, and the encoding. -/
def decode (options : LoadOptions) (bytes : List UInt8) : Except DecodingFault Encoding.Decoded :=
  match options.mode with
  | .xml => Encoding.decodeXml bytes options.label
  | .html => Encoding.decodeHtml bytes options.label

/-- The document of a text. -/
def parse (options : LoadOptions) (text : String) : Except ParseFailure Document :=
  match options.mode with
  | .xml => Document.ofXml options.xml text
  | .html => Html.parse options.html text

/-- Whether a text has nothing in it but byte order marks and then blanks. -/
def isVacant (text : String) : Bool :=
  (Text.trimStart (· == '\ufeff') text.toList).all Text.isBlank

/-- Read a document from bytes. It has to have a root element. -/
def load (options : LoadOptions) (bytes : List UInt8) : Except ParseFailure OpenDocument := do
  match decode options bytes with
  | .error fault => throw (.ofWhole (.undecodable fault))
  | .ok decoded =>
    if isVacant decoded.text then throw (.ofWhole .emptyDocument)
    let tree ← parse options (Document.dropMark decoded.text)
    if tree.rootElement?.isNone then throw (.ofWhole .noRootElement)
    let encoding := tree.encoding <|> some decoded.encoding.name
    return ⟨{ tree with encoding := encoding }, options.mode, .ofCapacity options.cacheCapacity⟩

/-- Read a document from a text. -/
def ofText (mode : Mode) (text : String) : Except ParseFailure OpenDocument :=
  load { mode := mode, label := some "utf-8" } text.toUTF8.toList

end OpenDocument

/-- The documents that are open. -/
structure Workspace where
  documents : Array OpenDocument := #[]
  /-- How many queries were read so far. -/
  compiled : Nat := 0
  deriving Inhabited

/-- The name of a node of an open document. -/
structure Handle where
  /-- The number of the document. -/
  document : Nat
  node : NodeId
  deriving Repr, DecidableEq, Inhabited

/-- What works on open documents and can be refused. -/
abbrev Session := ExceptT Refusal (StateM Workspace)

namespace Session

/-- Open a document, and tell its number. -/
def openDocument (opened : OpenDocument) : Session Nat := do
  let workspace ← get
  set { workspace with documents := workspace.documents.push opened }
  return workspace.documents.size

/-- An open document. -/
def opened (document : Nat) : Session OpenDocument := do
  return (← get).documents.getD document default

/-- The tree of an open document. -/
def tree (document : Nat) : Session Document := do
  return (← opened document).tree

/-- Change an open document. -/
def modifyOpened (document : Nat) (change : OpenDocument → OpenDocument) : Session Unit :=
  modify fun workspace =>
    { workspace with documents := workspace.documents.modify document change }

/-- A result that may be a refusal. -/
def ofExcept {α : Type} : Except Refusal α → Session α
  | .ok value => pure value
  | .error refusal => throw refusal

end Session

/-- Whether a handle can stand for a node. It cannot for the document node or a document type. -/
def NodeKind.hasHandle : NodeKind → Bool
  | .document | .doctype .. => false
  | _ => true

namespace Handle

/-- A handle of the same document. -/
def sibling (handle : Handle) (node : NodeId) : Handle := ⟨handle.document, node⟩

/-- Whether the node is still part of its document. -/
def isValid (handle : Handle) : Session Bool := do
  return (← Session.tree handle.document).isAttached handle.node

/-- Read from the document of a handle that holds. -/
def read {α : Type} (handle : Handle) (look : Document → NodeId → Except Refusal α) :
    Session α := do
  let doc ← Session.tree handle.document
  if doc.isAttached handle.node then Session.ofExcept (look doc handle.node) else throw .gone

/-- Read from the document of a handle that holds, what is always there. -/
def readOff {α : Type} (handle : Handle) (look : Document → NodeId → α) : Session α :=
  handle.read fun doc id => .ok (look doc id)

/-- Change the document of a handle that holds. A change that is refused is none. -/
def edit {α : Type} (handle : Handle)
    (change : Document → NodeId → Except Refusal (α × Document)) : Session α := do
  let doc ← Session.tree handle.document
  if doc.isAttached handle.node then
    let (value, changed) ← Session.ofExcept (change doc handle.node)
    Session.modifyOpened handle.document fun opened => { opened with tree := changed }
    return value
  else throw .gone

/-- Change the document of a handle that holds, with nothing to tell. -/
def editOnly (handle : Handle) (change : Document → NodeId → Except Refusal Document) :
    Session Unit :=
  handle.edit fun doc id => return ((), ← change doc id)

end Handle

namespace Session

/-- The handle of a node, if it is part of the document and can have one. -/
def handle (document : Nat) (id : NodeId) : Session Handle := do
  let doc ← tree document
  if doc.contains id && doc.isAttached id && (doc.kind id).hasHandle then return ⟨document, id⟩
  else throw .gone

/-- The handle of the root element. -/
def root (document : Nat) : Session Handle := do
  match (← tree document).rootElement? with
  | some id => return ⟨document, id⟩
  | none => throw .gone

end Session
end Markup
