import Std.Data.HashMap
import Markup.XPath.Value

/-!
# Document order

Nodes of the tree are ordered as they stand in the document. The attributes of an element come
after it and before what is below it, in the order of its list.
-/

namespace Markup.XPath

/-- The place of each node of the tree in document order. -/
structure Ranks where
  places : Std.HashMap NodeId Nat

namespace Ranks

/-- The places of the nodes of a document. -/
def ofDocument (doc : Document) : Ranks :=
  ⟨doc.order.zipIdx.foldl (fun places (id, place) => places.insert id place) ∅⟩

/-- The place of a node of the tree; a node outside of the tree comes after all others. -/
def place (ranks : Ranks) (id : NodeId) : Nat :=
  (ranks.places[id]?).getD ranks.places.size

/-- Where a node stands: the place of its owner, and its own place among what belongs to the
owner. -/
def key (ranks : Ranks) : Node → Nat × Nat
  | .tree id => (ranks.place id, 0)
  | .attr owner index => (ranks.place owner, index + 1)

/-- Whether a node does not come after another. -/
def before (ranks : Ranks) (left right : Node) : Bool :=
  let (leftPlace, leftIndex) := ranks.key left
  let (rightPlace, rightIndex) := ranks.key right
  leftPlace < rightPlace || (leftPlace == rightPlace && leftIndex ≤ rightIndex)

end Ranks

/-- Nodes without those that repeat the node right before them. -/
def withoutRepeats : List Node → List Node
  | [] => []
  | [node] => [node]
  | first :: second :: rest =>
    if first = second then withoutRepeats (second :: rest)
    else first :: withoutRepeats (second :: rest)

/-- Nodes in document order, each once. -/
def Ranks.arrange (ranks : Ranks) (nodes : List Node) : List Node :=
  withoutRepeats (nodes.mergeSort ranks.before)

end Markup.XPath
