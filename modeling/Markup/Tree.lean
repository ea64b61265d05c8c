import Markup.Name

/-!
# Trees of markup

A document is a tree of nodes. Namespace declarations are kept among the attributes of the element
that makes them: a declaration of the default namespace has the local name `xmlns` and no prefix, a
declaration of a prefix has that prefix as its local name and `xmlns` as its own prefix.
-/

namespace Markup

/-- The namespace that the prefix `xml` is bound to in every document. -/
def xmlNamespace : String := "http://www.w3.org/XML/1998/namespace"

/-- An attribute of an element. -/
structure Attribute where
  name : QName
  /-- The namespace that the prefix stands for, if the attribute has one. -/
  uri : Option String
  value : String
  deriving Repr, DecidableEq, Inhabited

namespace Attribute

/-- An attribute without a prefix. -/
def plain (localName value : String) : Attribute := ⟨⟨none, localName⟩, none, value⟩

/-- The declaration that binds a prefix, or the default namespace, to a namespace. -/
def declaration (nsPrefix : Option String) (uri : String) : Attribute :=
  match nsPrefix with
  | none => plain "xmlns" uri
  | some name => ⟨⟨some "xmlns", name⟩, none, uri⟩

/-- Whether the attribute declares a namespace. -/
def isDeclaration (attr : Attribute) : Bool :=
  match attr.name.nsPrefix with
  | none => attr.name.localName == "xmlns"
  | some nsPrefix => nsPrefix == "xmlns"

/-- What a declaration binds: a prefix, or `none` for the default namespace. -/
def declared? (attr : Attribute) : Option (Option String) :=
  if attr.isDeclaration then
    some (attr.name.nsPrefix.map fun _ => attr.name.localName)
  else none

/-- Whether two attributes may not stand on one element: equal local name and namespace, and both
or neither a declaration. -/
def sameIdentity (left right : Attribute) : Bool :=
  left.name.localName == right.name.localName && left.uri == right.uri &&
    left.isDeclaration == right.isDeclaration

/-- Put an attribute in the place of the first that may not stand beside it, or at the end. -/
def putIn (attr : Attribute) : List Attribute → List Attribute
  | [] => [attr]
  | first :: rest => if first.sameIdentity attr then attr :: rest else first :: attr.putIn rest

/-- Whether an attribute that is no declaration has a local name and, if one is given, a
namespace. -/
def isNamed (attr : Attribute) (localName : String)
    (uri : Option String) : Bool :=
  !attr.isDeclaration && attr.name.localName == localName &&
    uri.all fun uri => attr.uri == some uri

end Attribute

/-- What a node is and holds, its children apart. -/
inductive NodeKind where
  | document
  | element (name : QName) (uri : Option String) (attributes : List Attribute)
  | text (content : String)
  | cdata (content : String)
  | comment (content : String)
  | instruction (target : String) (data : Option String)
  | doctype (name : String) (publicId systemId : Option String)
  deriving Repr, DecidableEq, Inhabited

namespace NodeKind

/-- An element without a namespace and without attributes. -/
def plainElement (localName : String) : NodeKind := element ⟨none, localName⟩ none []

/-- Whether the node is an element. -/
def isElement : NodeKind → Bool
  | element .. => true
  | _ => false

/-- The attributes of an element; other nodes have none. -/
def attributes : NodeKind → List Attribute
  | element _ _ attributes => attributes
  | _ => []

/-- The local name of an element or the target of an instruction. -/
def localName? : NodeKind → Option String
  | element name _ _ => some name.localName
  | instruction target _ => some target
  | _ => none

/-- The written name of an element or the target of an instruction. -/
def qualifiedName? : NodeKind → Option String
  | element name _ _ => some name.toText
  | instruction target _ => some target
  | _ => none

/-- The prefix of an element. -/
def nsPrefix? : NodeKind → Option String
  | element name _ _ => name.nsPrefix
  | _ => none

/-- The namespace of an element. -/
def uri? : NodeKind → Option String
  | element _ uri _ => uri
  | _ => none

/-- The text that the node itself holds. -/
def content? : NodeKind → Option String
  | text content | cdata content | comment content => some content
  | instruction _ data => data
  | _ => none

end NodeKind

/-- A node with everything below it. -/
inductive Tree where
  | node (kind : NodeKind) (children : List Tree)
  deriving Repr, Inhabited

namespace Tree

/-- A node without children. -/
def leaf (kind : NodeKind) : Tree := node kind []

/-- What the topmost node is. -/
def kind : Tree → NodeKind
  | node kind _ => kind

/-- The trees right below the topmost node. -/
def children : Tree → List Tree
  | node _ children => children

mutual

/-- What holds of a tree if it holds of the trees below it holds of every tree. -/
@[elab_as_elim]
theorem induction {motive : Tree → Prop} (node : ∀ kind children,
    (∀ child ∈ children, motive child) → motive (.node kind children)) : (tree : Tree) → motive tree
  | .node kind children => node kind children (inductionAll node children)

theorem inductionAll {motive : Tree → Prop} (node : ∀ kind children,
    (∀ child ∈ children, motive child) → motive (.node kind children)) :
    (trees : List Tree) → ∀ tree ∈ trees, motive tree
  | [] => nofun
  | tree :: rest => List.forall_mem_cons.mpr ⟨induction node tree, inductionAll node rest⟩

end

mutual

/-- The text of all text and CDATA nodes of a tree, in order. -/
def textContent : Tree → String
  | node (.text content) _ => content
  | node (.cdata content) _ => content
  | node .document children => textContentAll children
  | node (.element ..) children => textContentAll children
  | node _ _ => ""

/-- The text of all text and CDATA nodes of several trees, in order. -/
def textContentAll : List Tree → String
  | [] => ""
  | tree :: rest => textContent tree ++ textContentAll rest

end

mutual

/-- The number of nodes of a tree. -/
def size : Tree → Nat
  | node _ children => 1 + sizeAll children

/-- The number of nodes of several trees. -/
def sizeAll : List Tree → Nat
  | [] => 0
  | tree :: rest => size tree + sizeAll rest

end

mutual

/-- The nodes of a tree in document order, each with its depth below the place where the tree
stands. -/
def outline (depth : Nat) : Tree → List (Nat × NodeKind)
  | node kind children => (depth, kind) :: outlineAll (depth + 1) children

/-- The nodes of several trees in document order, each with its depth. -/
def outlineAll (depth : Nat) : List Tree → List (Nat × NodeKind)
  | [] => []
  | tree :: rest => outline depth tree ++ outlineAll depth rest

end

end Tree
end Markup
