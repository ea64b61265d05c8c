import Markup.Number.Reading
import Markup.Workspace.Basic
import Markup.Workspace.Change

/-!
# Operations on handles

Reading and changing the node that a handle stands for. Every operation is refused if the node is no
longer part of its document.
-/

namespace Markup

/-- The kinds of node that a handle can stand for. -/
inductive HandleType where
  | element | text | cdata | comment | instruction
  deriving Repr, DecidableEq

/-- The kind of handle for a node. -/
def HandleType.of? : NodeKind → Option HandleType
  | .element .. => some element
  | .text _ => some text
  | .cdata _ => some cdata
  | .comment _ => some comment
  | .instruction .. => some instruction
  | .document | .doctype .. => none

namespace Handle

/-! ## Reading -/

/-- The kind of the node. -/
def type (handle : Handle) : Session HandleType :=
  handle.read fun doc id =>
    match HandleType.of? (doc.kind id) with
    | some found => .ok found
    | none => .error .gone

/-- The local name of an element, empty for other nodes. -/
def tag (handle : Handle) : Session String :=
  handle.readOff fun doc id =>
    match doc.kind id with
    | .element name _ _ => name.localName
    | _ => ""

/-- The namespace of an element. -/
def uri (handle : Handle) : Session (Option String) :=
  handle.readOff fun doc id => (doc.kind id).uri?

/-- The prefix of an element. -/
def nsPrefix (handle : Handle) : Session (Option String) :=
  handle.readOff fun doc id => (doc.kind id).nsPrefix?

/-- The element that the node hangs below. -/
def parent (handle : Handle) : Session (Option Handle) :=
  handle.readOff fun doc id =>
    ((doc.parent id).filter fun parent => (doc.kind parent).isElement).map handle.sibling

/-- The nearest node after this one, below the same parent, that can have a handle. -/
def nextSibling (handle : Handle) : Session (Option Handle) :=
  handle.readOff fun doc id =>
    ((doc.along doc.nextSibling (doc.nextSibling id)).find? fun other =>
      (doc.kind other).hasHandle).map handle.sibling

/-- The nearest node before this one, below the same parent, that can have a handle. -/
def prevSibling (handle : Handle) : Session (Option Handle) :=
  handle.readOff fun doc id =>
    ((doc.along doc.prevSibling (doc.prevSibling id)).find? fun other =>
      (doc.kind other).hasHandle).map handle.sibling

/-- The children that are elements of a local name, where an asterisk stands for every name, and of
a namespace, given by itself or by a prefix. -/
def children (handle : Handle) (localName given : Option String) : Session (List Handle) :=
  handle.readOff fun doc id =>
    (doc.elementsNamed id localName (given.map (doc.namespaceMeant id))).map handle.sibling

/-- The first element on each level of local names joined by points. -/
def child (handle : Handle) (path : String) (given : Option String) : Session (Option Handle) :=
  handle.readOff fun doc id =>
    let names := (path.toList.splitOn '.').map String.ofList
    (doc.firstAlong (given.map (doc.namespaceMeant id)) id names).map handle.sibling

/-- The value of an attribute. -/
def attribute? (handle : Handle) (name : String) (given : Option String) :
    Session (Option String) :=
  handle.readOff fun doc id => (doc.attributeNamed? id name given).map (·.value)

/-- The integer that an attribute begins with, or zero. -/
def integerAttribute (handle : Handle) (name : String) (given : Option String) : Session Int := do
  return ((← handle.attribute? name given).map Number.leadingInteger).getD 0

/-- The decimal number that an attribute begins with, or zero. -/
def numberAttribute (handle : Handle) (name : String) (given : Option String) :
    Session Float := do
  return ((← handle.attribute? name given).map Number.leadingNumber).getD 0

/-- The names of the attributes as they are written, without declarations. -/
def attributeNames (handle : Handle) : Session (List String) :=
  handle.readOff fun doc id =>
    ((doc.attributes id).filter fun attr => !attr.isDeclaration).map (·.name.toText)

/-- The text of an element, or what another node holds. -/
def text (handle : Handle) : Session String :=
  handle.readOff Document.ownText

/-- The integer that the text begins with, or zero. -/
def integerText (handle : Handle) : Session Int := do
  return Number.leadingInteger (← handle.text)

/-- The decimal number that the text begins with, or zero. -/
def numberText (handle : Handle) : Session Float := do
  return Number.leadingNumber (← handle.text)

/-- The node as it is written on its own. -/
def markup (handle : Handle) : Session String :=
  handle.readOff fun doc id => doc.writeNode {} id

/-- The children as they are written on their own. -/
def innerMarkup (handle : Handle) : Session String :=
  handle.readOff fun doc id => doc.writeChildren {} id

/-! ## Changing -/

/-- Give an element another name. -/
def setTag (handle : Handle) (written : String) : Session Unit :=
  handle.editOnly fun doc id => doc.retag id written

/-- Set an attribute. -/
def setAttribute (handle : Handle) (written : String) (given : Option String) (value : String) :
    Session Unit :=
  handle.editOnly fun doc id => doc.assign id written given value

/-- Remove attributes by their name as it is written. -/
def removeAttribute (handle : Handle) (written : String) : Session Unit :=
  handle.editOnly fun doc id => .ok (doc.unassign id written)

/-- Remove attributes by their local name and namespace. -/
def removeAttributeIn (handle : Handle) (localName given : String) : Session Unit :=
  handle.editOnly fun doc id => .ok (doc.unassignIn id localName given)

/-- Replace what the node holds by a text. -/
def setText (handle : Handle) (value : String) : Session Unit :=
  handle.editOnly fun doc id => doc.replaceText id value

/-- Remove all children. -/
def empty (handle : Handle) : Session Unit :=
  handle.editOnly fun doc id => .ok (doc.removeChildren id).2

/-- Remove the node. -/
def remove (handle : Handle) : Session Unit :=
  handle.editOnly fun doc id => .ok (doc.remove id).2

/-- Remove the children that are elements of a local name and of a namespace. -/
def removeChildren (handle : Handle) (localName given : Option String) : Session Unit :=
  handle.editOnly fun doc id =>
    let gone := doc.elementsNamed id localName (given.map (doc.namespaceMeant id))
    .ok (doc.removeAll gone).2

/-- Put a new element at the end. -/
def addElement (handle : Handle) (written : String) : Session Handle := do
  return handle.sibling (← handle.edit fun doc id => doc.extendElement id written)

/-- Put a new text at the end. -/
def addText (handle : Handle) (value : String) : Session Handle := do
  return handle.sibling (← handle.edit fun doc id => doc.extendText id value)

/-- Put a node in a place: move it within its document, or copy it into another one. -/
def insert (handle : Handle) (node : Handle) (placement : Document.Placement) :
    Session Handle := do
  if handle.document = node.document then
    handle.editOnly fun doc target => doc.move target node.node placement
    return node
  else
    let (tree, needed) ← node.readOff fun doc id => (doc.tree id, doc.inheritedBindings id)
    return handle.sibling
      (← handle.edit fun doc target => doc.copyIn target tree needed placement)

end Handle
end Markup
