import Markup.Document.Edit
import Markup.Html.Token

/-!
# Documents from tokens

The elements that every document has, `html`, `head` and `body`, are made where they are missing,
and tags of these elements only add attributes to them. A start tag ends the open elements that the
content model ends before it. An end tag closes the nearest open element of its name with all that
is open inside it.
-/

namespace Markup.Html

/-- How a text is to be read as HTML. -/
structure ParseOptions where
  /-- Drop text that holds nothing but blanks. -/
  noBlanks : Bool := false
  /-- Make no element that is not written. -/
  noImplied : Bool := false
  /-- Report nothing. -/
  noWarnings : Bool := false
  /-- The greatest number of elements open at the same time. -/
  maxDepth : Nat := 256
  deriving Repr, DecidableEq

/-- A document under construction. -/
structure Builder where
  doc : Document
  /-- The open elements with their tags, innermost first. -/
  opened : List (NodeId × String)
  /-- What was reported, latest first. -/
  reports : List Diagnostic

namespace Builder

/-- A document of which nothing is there yet. -/
def empty : Builder := ⟨.empty, [], []⟩

/-- Report a problem. -/
def report (b : Builder) (position : Position) (problem : Problem) : Builder :=
  { b with reports := ⟨.warning, problem, position⟩ :: b.reports }

/-- Whether an element of a tag is open. -/
def isOpen (b : Builder) (tag : String) : Bool := b.opened.any (·.2 == tag)

/-- The node that new nodes are placed below. -/
def current (b : Builder) : NodeId := (b.opened.head?.map (·.1)).getD Document.root

/-- Open an element. -/
def push (b : Builder) (id : NodeId) (tag : String) : Builder :=
  { b with opened := (id, tag) :: b.opened }

/-- Create a node as the last child of another one. -/
def append (b : Builder) (parent : NodeId) (kind : NodeKind) : NodeId × Builder :=
  let (id, doc) := b.doc.create kind
  (id, { b with doc := doc.appendChild parent id })

/-- Create a node where new nodes are placed. -/
def add (b : Builder) (kind : NodeKind) : Builder := (b.append b.current kind).2

/-! ## Structure -/

/-- The first child that is an element of a local name. -/
def childNamed? (b : Builder) (parent : NodeId) (localName : String) : Option NodeId :=
  (b.doc.children parent).find? fun id =>
    let kind := b.doc.kind id
    kind.isElement && kind.localName? == some localName

/-- The `html` element, which is made if it is missing. It is then the outermost open element. -/
def html (b : Builder) : NodeId × Builder :=
  match b.childNamed? Document.root "html" with
  | some id => (id, b)
  | none =>
    let (id, b) := b.append Document.root (.plainElement "html")
    (id, { b with opened := b.opened ++ [(id, "html")] })

/-- The `head` element, which is made before the body if it is missing. -/
def head (b : Builder) : NodeId × Builder :=
  let (html, b) := b.html
  match b.childNamed? html "head" with
  | some id => (id, b)
  | none =>
    match b.childNamed? html "body" with
    | some body =>
      let (id, doc) := b.doc.create (.plainElement "head")
      (id, { b with doc := doc.insertBefore body id })
    | none => b.append html (.plainElement "head")

/-- The `head` element, opened unless it is open. -/
def openHead (b : Builder) : NodeId × Builder :=
  let (id, b) := b.head
  (id, if b.isOpen "head" then b else b.push id "head")

/-- Close the head with all that is open inside it. -/
def closeHead (b : Builder) : Builder :=
  { b with opened := (b.opened.reverse.takeWhile (·.2 != "head")).reverse }

/-- The `body` element, which is made and opened if it is missing. -/
def body (b : Builder) : NodeId × Builder :=
  let (html, b) := b.html
  match b.childNamed? html "body" with
  | some id => (id, b)
  | none =>
    let (id, b) := b.append html (.plainElement "body")
    (id, b.closeHead.push id "body")

/-- Give an element those attributes of a tag whose local names it does not have. -/
def addMissing (doc : Document) (id : NodeId) (attributes : List Attribute) : Document :=
  attributes.foldl (fun doc attr =>
    if (doc.attributes id).any (·.isNamed attr.name.localName none) then doc
    else doc.setAttribute id attr) doc

/-- Add the attributes of a tag to an element of the structure. -/
def merge (attributes : List Attribute) (found : NodeId × Builder) : Builder :=
  { found.2 with doc := addMissing found.2.doc found.1 attributes }

/-! ## Tokens -/

/-- Place the start tag of an element that is part of the structure. -/
def placeStructural (b : Builder) (position : Position) (tag : String)
    (attributes : List Attribute) : Builder :=
  if tag == "html" then merge attributes b.html
  else if tag == "body" then merge attributes b.body
  else if b.isOpen "body" then b.report position .headInsideBody
  else merge attributes b.openHead

/-- Close the open elements that a start tag ends. -/
def closeEnded (b : Builder) (tag : String) : Builder :=
  { b with opened := b.opened.dropWhile fun entry => ends tag entry.2 }

/-- Make the part of the structure that an element goes into. -/
def prepare (b : Builder) (tag : String) : Builder :=
  if belongsToHead tag && !b.isOpen "body" then b.openHead.2 else b.body.2

/-- Place the start tag of an element that is not part of the structure. -/
def placeElement (options : ParseOptions) (b : Builder) (position : Position) (tag : String)
    (attributes : List Attribute) (closed : Bool) (rawText : String) :
    Except ParseFailure Builder :=
  let b := b.closeEnded tag
  let b := if options.noImplied then b else b.prepare tag
  if options.maxDepth ≤ b.opened.length then
    .error ⟨.tooDeep options.maxDepth, some position, []⟩
  else
    let (id, b) := b.append b.current (.element (Cursor.splitName tag) none attributes)
    if isVoid tag || closed then .ok b
    else if holdsRawText tag then
      .ok (if rawText.isEmpty then b else (b.append id (.text rawText)).2)
    else .ok (b.push id tag)

/-- Place an end tag. -/
def placeEnd (options : ParseOptions) (b : Builder) (position : Position) (tag : String) :
    Builder :=
  if tag.isEmpty || isVoid tag then b.report position (.endTagIgnored tag)
  else if !options.noImplied && (tag == "html" || tag == "body") then b
  else
    match b.opened.span (·.2 != tag) with
    | (_, []) => b.report position (.strayEndTag tag)
    | (inner, _ :: outer) =>
      inner.reverse.foldl (fun b entry => b.report position (.implicitClose entry.2 tag))
        { b with opened := outer }

/-- Place text. Blank text is kept only inside the body. -/
def placeText (options : ParseOptions) (b : Builder) (content : String) : Builder :=
  let blank := Text.isAllBlank content
  if content.isEmpty || (blank && options.noBlanks) then b
  else if b.opened.isEmpty then
    if blank then b
    else if options.noImplied then b.add (.text content)
    else b.body.2.add (.text content)
  else if blank && !b.isOpen "body" && !options.noImplied then b
  else b.add (.text content)

/-- Place a token. -/
def place (options : ParseOptions) (b : Builder) (lexeme : Lexeme) :
    Except ParseFailure Builder :=
  let b := { b with reports := lexeme.reports.reverse ++ b.reports }
  match lexeme.token with
  | .doctype name publicId systemId =>
    .ok (b.append Document.root (.doctype name publicId systemId)).2
  | .start tag attributes closed rawText =>
    if !options.noImplied && isStructural tag then
      .ok (b.placeStructural lexeme.position tag attributes)
    else placeElement options b lexeme.position tag attributes closed rawText
  | .finish tag => .ok (placeEnd options b lexeme.position tag)
  | .text content => .ok (placeText options b content)
  | .comment content => .ok (b.add (.comment content))
  | .skipped => .ok b

/-- Close what is open at the end of the text. -/
def closeAll (b : Builder) (position : Position) : Builder :=
  b.opened.foldl (fun b entry =>
    if isStructural entry.2 then b else b.report position (.unclosedElement entry.2))
    { b with opened := [] }

/-- The finished document, at the end of the text. -/
def finish (options : ParseOptions) (b : Builder) (position : Position) :
    Except ParseFailure Document :=
  let b := b.closeAll position
  let reports := if options.noWarnings then [] else b.reports.reverse
  if b.doc.rootElement?.isSome then .ok { b.doc with diagnostics := reports }
  else if options.noImplied then .error ⟨.noRootElement, some position, []⟩
  else .ok { b.body.2.doc with diagnostics := reports }

end Builder
end Markup.Html
