import Markup.Document.Edit
import Markup.Document.Writer
import Markup.Text.Search
import Markup.Workspace.Lookup
import Markup.Workspace.Refusal

/-!
# Changes that keep a document well-formed

Each change is checked before anything is done, so that a document that a change was refused on is
the document it was. A node that is moved or copied takes along the declarations that it relies on
and that do not hold at its new place.
-/

namespace Markup.Document

/-- Require a condition. -/
def demand (condition : Bool) (otherwise : Refusal) : Except Refusal Unit :=
  if condition then .ok () else .error otherwise

/-- Require that a text can be written. -/
def demandWritable (text : String) : Except Refusal Unit :=
  demand (text.toList.all isDocumentChar) (.misuse .unwritableChar)

/-- Require a qualified name. -/
def demandName (written : String) : Except Refusal QName := do
  demand (isQualifiedName written) (.invalidName written)
  return .ofText written

/-- The namespace that a prefix has to stand for at a node. -/
def demandNamespace (doc : Document) (id : NodeId) (nsPrefix : String) :
    Except Refusal String :=
  match doc.namespaceOf? id (some nsPrefix) with
  | some uri => .ok uri
  | none => .error (.unknownNamespace nsPrefix)

/-- Require an element. -/
def demandElement (doc : Document) (id : NodeId) : Except Refusal Unit :=
  demand (doc.kind id).isElement (.misuse .noChildren)

/-! ## Names and attributes -/

/-- Give an element another name. A name without a prefix takes on the prefix and the namespace
that the element has. -/
def retag (doc : Document) (id : NodeId) (written : String) : Except Refusal Document :=
  match doc.kind id with
  | .element current uri _ => do
    let name ← demandName written
    match name.nsPrefix with
    | some nsPrefix =>
      return doc.rename id name (some (← doc.demandNamespace id nsPrefix))
    | none => return doc.rename id ⟨current.nsPrefix, name.localName⟩ uri
  | _ => .error (.misuse .noTag)

/-- The prefix and the local name that an attribute gets: those of a qualified name, or a prefix for
a namespace and a plain name. -/
def attributeName (doc : Document) (id : NodeId) (written : String) (given : Option String) :
    Except Refusal QName :=
  match given with
  | some given => do
    demand (isPlainName written) (.invalidName written)
    match doc.binding? id given with
    | some (nsPrefix, _) => return ⟨some nsPrefix, written⟩
    | none => throw (.unknownNamespace given)
  | none => demandName written

/-- Set an attribute of an element. Declarations cannot be set this way. -/
def assign (doc : Document) (id : NodeId) (written : String) (given : Option String)
    (value : String) : Except Refusal Document := do
  demand (doc.kind id).isElement (.misuse .attributeOfOther)
  demandWritable value
  let name ← doc.attributeName id written given
  demand (!(Attribute.mk name none value).isDeclaration) (.invalidName written)
  match name.nsPrefix with
  | some nsPrefix =>
    return doc.setAttribute id ⟨name, some (← doc.demandNamespace id nsPrefix), value⟩
  | none => return doc.setAttribute id ⟨name, none, value⟩

/-- Remove the attributes of a name as it is written: those in the namespace of its prefix or,
without a prefix, all of that local name. -/
def unassign (doc : Document) (id : NodeId) (written : String) : Document :=
  match QName.ofText written with
  | ⟨none, localName⟩ => (doc.removeAttribute id localName none).2
  | ⟨some nsPrefix, localName⟩ =>
    match doc.namespaceOf? id (some nsPrefix) with
    | some uri => (doc.removeAttribute id localName (some uri)).2
    | none => doc

/-- Remove the attributes of a local name in a namespace. -/
def unassignIn (doc : Document) (id : NodeId) (localName given : String) : Document :=
  (doc.removeAttribute id localName (some (doc.namespaceMeant id given))).2

/-! ## Text -/

/-- Whether a text can stand in a comment. -/
def fitsComment (text : String) : Bool :=
  !Text.contains ['-', '-'] text.toList && text.toList.getLast? != some '-'

/-- Replace all children of an element by a text, or what another node holds by it. -/
def replaceText (doc : Document) (id : NodeId) (value : String) : Except Refusal Document := do
  demandWritable value
  match doc.kind id with
  | .element .. =>
    let doc := (doc.removeChildren id).2
    if value.isEmpty then return doc
    else
      let (text, doc) := doc.create (.text value)
      return doc.appendChild id text
  | .text _ | .cdata _ => return doc.setContent id value
  | .comment _ =>
    demand (fitsComment value) (.misuse .commentText)
    return doc.setContent id value
  | _ => throw (.misuse .noText)

/-! ## New nodes -/

/-- Put a new node at the end of an element. -/
def extend (doc : Document) (id : NodeId) (kind : NodeKind) : NodeId × Document :=
  let (child, doc) := doc.create kind
  (child, doc.appendChild id child)

/-- Put a new element at the end of an element. Without a prefix it is in the default
namespace. -/
def extendElement (doc : Document) (id : NodeId) (written : String) :
    Except Refusal (NodeId × Document) := do
  doc.demandElement id
  let name ← demandName written
  match name.nsPrefix with
  | some nsPrefix =>
    return doc.extend id (.element name (some (← doc.demandNamespace id nsPrefix)) [])
  | none => return doc.extend id (.element name (doc.namespaceOf? id none) [])

/-- Put a new text at the end of an element. -/
def extendText (doc : Document) (id : NodeId) (value : String) :
    Except Refusal (NodeId × Document) := do
  doc.demandElement id
  demandWritable value
  return doc.extend id (.text value)

/-! ## Moving and copying -/

/-- Where a node goes: to the end of an element, or beside a node. -/
inductive Placement where
  | lastChild | after | before
  deriving Repr, DecidableEq

/-- Require that a node can be placed. -/
def demandPlace (doc : Document) (target : NodeId) : Placement → Except Refusal Unit
  | .lastChild => doc.demandElement target
  | .after | .before =>
    demand ((doc.parent target).any fun parent => (doc.kind parent).isElement)
      (.misuse .noParent)

/-- Place a detached node. -/
def place (doc : Document) (target node : NodeId) : Placement → Document
  | .lastChild => doc.appendChild target node
  | .after => doc.insertAfter target node
  | .before => doc.insertBefore target node

/-- The declarations that an element needs at its place to keep the bindings it relies on. An
element in no namespace also has to be kept out of a default namespace. -/
def missingDeclarations (doc : Document) (id : NodeId) (needed : List (Option String × String)) :
    List Attribute :=
  let lost := needed.filter fun (nsPrefix, uri) => doc.namespaceOf? id nsPrefix != some uri
  let isBare := (doc.kind id).nsPrefix?.isNone && (doc.kind id).uri?.isNone
  (lost.map fun (nsPrefix, uri) => Attribute.declaration nsPrefix uri) ++
    if isBare && (doc.namespaceOf? id none).isSome then [.declaration none ""] else []

/-- Declare at a node what it relies on, before its own attributes. -/
def settle (doc : Document) (id : NodeId) (needed : List (Option String × String)) : Document :=
  doc.modifyAttributes id fun attributes => doc.missingDeclarations id needed ++ attributes

/-- Move a node of the document. -/
def move (doc : Document) (target node : NodeId) (placement : Placement) :
    Except Refusal Document := do
  demand (doc.isAttached node) .gone
  doc.demandPlace target placement
  demand (!doc.isAncestorOrSelf node target) (.misuse .ownSubtree)
  let needed := doc.inheritedBindings node
  return ((doc.detach node).place target node placement).settle node needed

/-- Copy in a tree that relies on bindings. -/
def copyIn (doc : Document) (target : NodeId) (tree : Tree)
    (needed : List (Option String × String)) (placement : Placement) :
    Except Refusal (NodeId × Document) := do
  doc.demandPlace target placement
  let (copy, doc) := doc.graft tree
  return (copy, (doc.place target copy placement).settle copy needed)

end Markup.Document
