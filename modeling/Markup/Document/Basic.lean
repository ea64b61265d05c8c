import Markup.Tree
import Markup.Problem

/-!
# Documents as stores of nodes

A document keeps its nodes in numbered slots. A node is named by the number of its slot and by the
generation of the slot, which goes up each time the slot is used again, so that the name of a
removed node is never mistaken for a later one. Nodes hang together by links: parent, first and
last child, next and previous sibling. A node that is not reached from the document node is
detached.

Reading by the name of a removed node is not checked: it shows what the slot holds now.
-/

namespace Markup

/-- The name of a node of a document. -/
structure NodeId where
  /-- The number of the slot; the first is one. -/
  index : Nat
  /-- How often the slot had been used before. -/
  generation : UInt32
  deriving Repr, DecidableEq, Hashable, Inhabited

namespace NodeId

/-- A name as one number: the generation above the lower 32 bits, which hold the slot. -/
def toRaw (id : NodeId) : Nat := id.generation.toNat * Nat.pow 2 32 + id.index

/-- The name that a number stands for, unless its lower 32 bits are zero. -/
def ofRaw? (raw : Nat) : Option NodeId :=
  let index := raw % Nat.pow 2 32
  if index = 0 then none else some ⟨index, .ofNat (raw / Nat.pow 2 32)⟩

end NodeId

/-- What a slot holds: a node and its links. -/
structure Slot where
  kind : NodeKind
  generation : UInt32 := 0
  parent : Option NodeId := none
  firstChild : Option NodeId := none
  lastChild : Option NodeId := none
  nextSibling : Option NodeId := none
  prevSibling : Option NodeId := none
  /-- Whether the node was removed and the slot waits to be used again. -/
  removed : Bool := false
  deriving Repr, DecidableEq, Inhabited

/-- A document: its nodes and what is known about the text it came from. -/
structure Document where
  /-- The slots; the one numbered zero is never used. -/
  slots : Array Slot
  /-- The slots to be used again, the next one first. -/
  free : List Nat
  version : Option String
  encoding : Option String
  standalone : Option Bool
  diagnostics : List Diagnostic
  deriving Repr, DecidableEq

namespace Document

/-- The name of the document node. -/
def root : NodeId := ⟨1, 0⟩

/-- A document without content. -/
def empty : Document where
  slots := #[{ kind := .document }, { kind := .document }]
  free := []
  version := none
  encoding := none
  standalone := none
  diagnostics := []

instance : Inhabited Document := ⟨empty⟩

/-- What a slot holds now. -/
def slot (doc : Document) (id : NodeId) : Slot :=
  doc.slots.getD id.index { kind := .document }

/-- The number of slots, those waiting to be used again included. -/
def nodeCount (doc : Document) : Nat := doc.slots.size - 1

/-- Whether a name is that of the present use of a slot. -/
def contains (doc : Document) (id : NodeId) : Bool :=
  (doc.slots[id.index]?).any (·.generation == id.generation)

/-- What a node is and holds. -/
def kind (doc : Document) (id : NodeId) : NodeKind := (doc.slot id).kind

/-- The attributes of an element. -/
def attributes (doc : Document) (id : NodeId) : List Attribute := (doc.kind id).attributes

/-- The value of the first attribute of a local name that is no declaration. -/
def attribute? (doc : Document) (id : NodeId) (localName : String) : Option String :=
  ((doc.attributes id).find? (·.isNamed localName none)).map (·.value)

/-- The value of the first attribute of a local name and a namespace. -/
def attributeIn? (doc : Document) (id : NodeId) (localName uri : String) : Option String :=
  ((doc.attributes id).find? fun attr =>
    attr.name.localName == localName && attr.uri == some uri).map (·.value)

/-- The node that a node hangs below. -/
def parent (doc : Document) (id : NodeId) : Option NodeId := (doc.slot id).parent

/-- The first node below a node. -/
def firstChild (doc : Document) (id : NodeId) : Option NodeId := (doc.slot id).firstChild

/-- The last node below a node. -/
def lastChild (doc : Document) (id : NodeId) : Option NodeId := (doc.slot id).lastChild

/-- The node after a node below the same parent. -/
def nextSibling (doc : Document) (id : NodeId) : Option NodeId := (doc.slot id).nextSibling

/-- The node before a node below the same parent. -/
def prevSibling (doc : Document) (id : NodeId) : Option NodeId := (doc.slot id).prevSibling

/-- Whether a node was removed and its slot is not yet used again. -/
def isRemoved (doc : Document) (id : NodeId) : Bool := (doc.slot id).removed

/-! ## Walks along links -/

/-- The nodes on a walk of at most so many steps. -/
def walk (next : NodeId → Option NodeId) : Nat → Option NodeId → List NodeId
  | 0, _ => []
  | _, none => []
  | steps + 1, some id => id :: walk next steps (next id)

/-- The nodes on a walk along one kind of link. Without a cycle it meets no slot twice, so the
number of slots bounds its steps. -/
def along (doc : Document) (next : NodeId → Option NodeId) (start : Option NodeId) :
    List NodeId :=
  walk next doc.slots.size start

/-- The children of a node in order. -/
def children (doc : Document) (id : NodeId) : List NodeId :=
  doc.along doc.nextSibling (doc.firstChild id)

/-- The children of a node in reverse order. -/
def childrenBackwards (doc : Document) (id : NodeId) : List NodeId :=
  doc.along doc.prevSibling (doc.lastChild id)

/-- A node and everything above it, innermost first. -/
def ancestors (doc : Document) (id : NodeId) : List NodeId :=
  doc.along doc.parent (some id)

/-- The node after `current` in document order among those below `top`: its first child, or else
the sibling after the nearest ancestor that has one. -/
def nextWithin (doc : Document) (top current : NodeId) : Option NodeId :=
  doc.firstChild current <|>
    ((doc.ancestors current).takeWhile (· != top)).findSome? doc.nextSibling

/-- Everything below a node in document order. -/
def descendants (doc : Document) (id : NodeId) : List NodeId :=
  doc.along (doc.nextWithin id) (doc.firstChild id)

/-- The document node and everything below it, in document order. -/
def order (doc : Document) : List NodeId := root :: doc.descendants root

/-- Whether a node is part of the tree below the document node. -/
def isAttached (doc : Document) (id : NodeId) : Bool :=
  doc.contains id && !doc.isRemoved id && (doc.ancestors id).getLast? == some root

/-- Whether a node is another node or stands above it. -/
def isAncestorOrSelf (doc : Document) (ancestor id : NodeId) : Bool :=
  (doc.ancestors id).contains ancestor

/-- The first element at the top level. -/
def rootElement? (doc : Document) : Option NodeId :=
  (doc.children root).find? fun id => (doc.kind id).isElement

/-! ## The tree of a node -/

/-- The tree below a node, down to a depth. -/
def treeTo (doc : Document) : Nat → NodeId → Tree
  | 0, id => .leaf (doc.kind id)
  | depth + 1, id => .node (doc.kind id) ((doc.children id).map (doc.treeTo depth))

/-- A node with everything below it. Without a cycle the number of slots bounds the depth. -/
def tree (doc : Document) (id : NodeId) : Tree := doc.treeTo doc.slots.size id

/-- The text of all text and CDATA nodes of the tree of a node, in order. -/
def textContent (doc : Document) (id : NodeId) : String := (doc.tree id).textContent

end Document
end Markup
