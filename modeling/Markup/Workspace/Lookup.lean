import Markup.Document.Scope

/-!
# Children and attributes by name

A namespace is given by a prefix that is bound at the node or else by the namespace itself.
-/

namespace Markup.Document

/-- The namespace that is meant at a node: what a prefix stands for, or the given one itself. -/
def namespaceMeant (doc : Document) (id : NodeId) (given : String) : String :=
  (doc.namespaceOf? id (some given)).getD given

/-- A prefix for a namespace, given by itself or by a prefix, and the namespace. -/
def binding? (doc : Document) (id : NodeId) (given : String) : Option (String × String) :=
  match doc.namespaceOf? id (some given) with
  | some uri => some (given, uri)
  | none =>
    if given == xmlNamespace then some ("xml", given)
    else (doc.namespaces id).findSome? fun (nsPrefix, uri) =>
      if uri == given then nsPrefix.map fun nsPrefix => (nsPrefix, uri) else none

/-- Whether a node is an element of a local name, where an asterisk stands for every name, and of a
namespace. What is not given is not compared. -/
def isElementOf (doc : Document) (localName uri : Option String) (id : NodeId) : Bool :=
  match doc.kind id with
  | .element name found _ =>
    localName.all (fun wanted => wanted == "*" || wanted == name.localName) &&
      uri.all (fun wanted => found == some wanted)
  | _ => false

/-- The children that are elements of a local name and of a namespace. -/
def elementsNamed (doc : Document) (id : NodeId) (localName uri : Option String) : List NodeId :=
  (doc.children id).filter (doc.isElementOf localName uri)

/-- The first element on each level, from the children down, of the local names in turn. -/
def firstAlong (doc : Document) (uri : Option String) : NodeId → List String → Option NodeId
  | id, [] => some id
  | id, localName :: rest => do
    firstAlong doc uri (← (doc.elementsNamed id (some localName) uri).head?) rest

/-- The attribute of a name that is no declaration. In a namespace the name is a local name;
otherwise it is a name as it is written or, if there is none, a local name. -/
def attributeNamed? (doc : Document) (id : NodeId) (name : String) (given : Option String) :
    Option Attribute :=
  let proper := (doc.attributes id).filter fun attr => !attr.isDeclaration
  match given with
  | some given =>
    let uri := doc.namespaceMeant id given
    proper.find? fun attr => attr.uri == some uri && attr.name.localName == name
  | none =>
    (proper.find? fun attr => attr.name.toText == name) <|>
      proper.find? fun attr => attr.name.localName == name

/-- The text of an element, or what another node holds. -/
def ownText (doc : Document) (id : NodeId) : String :=
  match doc.kind id with
  | .element .. => doc.textContent id
  | other => other.content?.getD ""

end Markup.Document
