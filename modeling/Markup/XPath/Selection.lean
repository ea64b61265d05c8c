import Markup.XPath.Value

/-!
# Selecting nodes

An axis leads from a node to others, nearest first on the axes that go against the order of the
document. An attribute lies on no axis but its own, itself, and the way up from it; what follows an
attribute begins with what is below its element. A document type is selected by no test.
-/

namespace Markup.XPath

/-- The siblings after a node, in order. -/
def siblingsAfter (doc : Document) (id : NodeId) : List NodeId :=
  doc.along doc.nextSibling (doc.nextSibling id)

/-- The siblings before a node, the nearest first. -/
def siblingsBefore (doc : Document) (id : NodeId) : List NodeId :=
  doc.along doc.prevSibling (doc.prevSibling id)

/-- A node and everything below it, in document order. -/
def subtree (doc : Document) (id : NodeId) : List NodeId :=
  id :: doc.descendants id

/-- What comes after a node and is not below it, in document order. -/
def following (doc : Document) (id : NodeId) : List NodeId :=
  (doc.ancestors id).flatMap fun ancestor =>
    (siblingsAfter doc ancestor).flatMap (subtree doc)

/-- What comes before a node and is not above it, the nearest first. -/
def preceding (doc : Document) (id : NodeId) : List NodeId :=
  (doc.ancestors id).flatMap fun ancestor =>
    (siblingsBefore doc ancestor).flatMap fun sibling => (subtree doc sibling).reverse

/-- The attributes of an element that declare no namespace. -/
def properAttributes (doc : Document) (id : NodeId) : List Node :=
  (doc.attributes id).zipIdx.filterMap fun (attr, index) =>
    if attr.isDeclaration then none else some (.attr id index)

/-- The nodes on an axis, in the order of the axis. -/
def Axis.nodes (doc : Document) (axis : Axis) : Node → List Node
  | .tree id =>
    match axis with
    | .child => (doc.children id).map .tree
    | .descendant => (doc.descendants id).map .tree
    | .parent => (doc.parent id).toList.map .tree
    | .ancestor => (doc.ancestors id).tail.map .tree
    | .followingSibling => (siblingsAfter doc id).map .tree
    | .precedingSibling => (siblingsBefore doc id).map .tree
    | .following => (XPath.following doc id).map .tree
    | .preceding => (XPath.preceding doc id).map .tree
    | .attributes => properAttributes doc id
    | .namespaces => []
    | .self => [.tree id]
    | .descendantOrSelf => (subtree doc id).map .tree
    | .ancestorOrSelf => (doc.ancestors id).map .tree
  | .attr owner index =>
    match axis with
    | .self => [.attr owner index]
    | .parent => [.tree owner]
    | .ancestor => (doc.ancestors owner).map .tree
    | .ancestorOrSelf => .attr owner index :: (doc.ancestors owner).map .tree
    | .following => (doc.descendants owner ++ XPath.following doc owner).map .tree
    | .preceding => (XPath.preceding doc owner).map .tree
    | _ => []

/-- Whether an attribute satisfies a test. Off its own axis only the test for any node takes it. -/
def NodeTest.acceptsAttribute (test : NodeTest) (axis : Axis) (attr : Attribute) : Bool :=
  match test with
  | .anyNode => true
  | .anyName => axis == .attributes
  | .named uri localName =>
    axis == .attributes && attr.name.localName == localName && attr.uri == uri
  | .anyNameIn uri => axis == .attributes && attr.uri == some uri
  | _ => false

/-- Whether a node of the tree satisfies a test. -/
def NodeTest.acceptsKind (test : NodeTest) (axis : Axis) : NodeKind → Bool
  | .doctype .. => false
  | .document => test == .anyNode
  | .element name uri _ =>
    match test with
    | .anyNode => true
    | .anyName => axis != .attributes
    | .named wanted localName => name.localName == localName && uri == wanted
    | .anyNameIn wanted => uri == some wanted
    | _ => false
  | .text _ | .cdata _ => test == .anyNode || test == .text
  | .comment _ => test == .anyNode || test == .comment
  | .instruction target _ =>
    match test with
    | .anyNode => true
    | .instruction wanted => wanted.all (· == target)
    | _ => false

/-- Whether a node satisfies a test on an axis. -/
def NodeTest.accepts (doc : Document) (test : NodeTest) (axis : Axis) : Node → Bool
  | .tree id => test.acceptsKind axis (doc.kind id)
  | .attr owner index =>
    ((doc.attributes owner)[index]?).any (test.acceptsAttribute axis)

/-- The nodes on an axis that satisfy a test, in the order of the axis. -/
def candidates (doc : Document) (axis : Axis) (test : NodeTest) (node : Node) : List Node :=
  (axis.nodes doc node).filter (test.accepts doc axis)

end Markup.XPath
