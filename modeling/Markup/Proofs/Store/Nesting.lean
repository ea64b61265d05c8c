import Markup.Proofs.Store.Grow

/-!
# Elements among nodes

Which children of a node are elements, and how many elements stand on the way up from a node. A
document that grows keeps both for the nodes that it has, and what is deepest in it is told by the
height of its tree.
-/

namespace Markup

namespace Tree

mutual

/-- The greatest number of elements that stand one inside the other. -/
def height : Tree → Nat
  | node kind children => (if kind.isElement then 1 else 0) + heightAll children

/-- The greatest height of some trees. -/
def heightAll : List Tree → Nat
  | [] => 0
  | tree :: rest => max (height tree) (heightAll rest)

end

theorem heightAll_le_iff {trees : List Tree} {limit : Nat} :
    heightAll trees ≤ limit ↔ ∀ tree ∈ trees, tree.height ≤ limit := by
  induction trees with
  | nil => simp [heightAll]
  | cons tree rest ih => rw [heightAll, Nat.max_le, ih, List.forall_mem_cons]

/-- The highest of some trees decides whether they fit below a number of elements. -/
theorem add_heightAll_le_iff {trees : List Tree} {above limit : Nat} :
    (0 < heightAll trees → above + heightAll trees ≤ limit) ↔
      ∀ tree ∈ trees, 0 < tree.height → above + tree.height ≤ limit := by
  induction trees with
  | nil => simp [heightAll]
  | cons tree rest ih =>
    rw [List.forall_mem_cons, ← ih, heightAll]
    omega

theorem heightAll_append (left right : List Tree) :
    heightAll (left ++ right) = max (heightAll left) (heightAll right) := by
  induction left with
  | nil => exact (Nat.zero_max _).symm
  | cons tree rest ih => rw [List.cons_append, heightAll, heightAll, ih, Nat.max_assoc]

end Tree

namespace Document

variable {doc doc' : Document} {id parent other : NodeId} {kind : NodeKind} {limit : Nat}

/-- The children of a node that are elements. -/
def elements (doc : Document) (parent : NodeId) : List NodeId :=
  (doc.children parent).filter fun id => (doc.kind id).isElement

/-- How deep a node is nested: the elements on the way up from it, the node itself included. -/
def nesting (doc : Document) (id : NodeId) : Nat :=
  (doc.ancestors id).countP fun id => (doc.kind id).isElement

/-- No element of a document is nested more deeply than so much. -/
def NestsWithin (doc : Document) (limit : Nat) : Prop :=
  ∀ id, doc.isAttached id = true → (doc.kind id).isElement = true → doc.nesting id ≤ limit

theorem rootElement?_eq_head? : doc.rootElement? = (doc.elements root).head? :=
  (List.head?_filter ..).symm

/-! ## Growth -/

namespace Extended

variable (more : Extended doc doc' parent id kind) (linked : doc.WellLinked)
include more linked

theorem elements_parent (live : doc.IsLive parent) :
    doc'.elements parent = doc.elements parent ++ if kind.isElement then [id] else [] := by
  have kept : (doc.children parent).filter (fun id => (doc'.kind id).isElement) =
      doc.elements parent := List.filter_congr fun child member => by
    rw [more.kind_kept child (linked.live_of_mem_children live member)]
  rw [elements, more.children_parent, List.filter_append, kept, List.filter_singleton,
    more.kind_new]
  cases kind.isElement <;> rfl

theorem elements_kept (live : doc.IsLive other) (apart : other ≠ parent) :
    doc'.elements other = doc.elements other := by
  rw [elements, more.children_kept other live apart]
  exact List.filter_congr fun child member => by
    rw [more.kind_kept child (linked.live_of_mem_children live member)]

theorem nesting_kept (live : doc.IsLive other) : doc'.nesting other = doc.nesting other := by
  rw [nesting, more.ancestors_kept linked live]
  exact List.countP_congr fun above member => by
    rw [more.kind_kept above (HasShape.live_of_mem_ancestors linked live above member)]

theorem nesting_new (live : doc.IsLive parent) :
    doc'.nesting id = doc.nesting parent + if kind.isElement then 1 else 0 := by
  have kept := more.nesting_kept linked live
  rw [nesting, more.ancestors_kept linked live] at kept
  rw [nesting, more.ancestors_new linked live, List.countP_cons, kept, more.kind_new]

end Extended

/-- A change of links and kinds that leaves elements elements leaves them where they are. -/
theorem SameLinks.nesting_eq (same : SameLinks doc doc')
    (kinds : ∀ id, (doc'.kind id).isElement = (doc.kind id).isElement) :
    doc'.nesting id = doc.nesting id := by
  rw [nesting, nesting, same.ancestors_eq]
  exact List.countP_congr fun above _ => by rw [kinds]

theorem SameLinks.elements_eq (same : SameLinks doc doc')
    (kinds : ∀ id, (doc'.kind id).isElement = (doc.kind id).isElement) :
    doc'.elements id = doc.elements id := by
  rw [elements, elements, same.children_eq]
  exact List.filter_congr fun child _ => kinds child

/-! ## Heights -/

/-- How deep elements are nested below a node is told by the height of its tree. -/
theorem nesting_preorder_le_iff (linked : doc.WellLinked) (live : doc.IsLive id) :
    (∀ other ∈ doc.preorder id, (doc.kind other).isElement = true → doc.nesting other ≤ limit) ↔
      (0 < (doc.tree id).height →
        (doc.ancestors id).tail.countP (fun id => (doc.kind id).isElement) +
          (doc.tree id).height ≤ limit) := by
  refine linked.induction (motive := fun id => (∀ other ∈ doc.preorder id,
    (doc.kind other).isElement = true → doc.nesting other ≤ limit) ↔
      (0 < (doc.tree id).height →
        (doc.ancestors id).tail.countP (fun id => (doc.kind id).isElement) +
          (doc.tree id).height ≤ limit)) ?_ id live
  intro id live ih
  have own : doc.nesting id = (doc.ancestors id).tail.countP
      (fun id => (doc.kind id).isElement) + if (doc.kind id).isElement then 1 else 0 := by
    rw [nesting, HasShape.ancestors_eq_cons linked live, List.countP_cons, List.tail_cons]
  have below : (∀ other ∈ (doc.children id).flatMap doc.preorder,
      (doc.kind other).isElement = true → doc.nesting other ≤ limit) ↔
      (0 < Tree.heightAll ((doc.children id).map doc.tree) →
        doc.nesting id + Tree.heightAll ((doc.children id).map doc.tree) ≤ limit) := by
    rw [Tree.add_heightAll_le_iff, List.forall_mem_flatMap, List.forall_mem_map]
    refine forall₂_congr fun child member => ?_
    -- The elements above a child are its parent, if that is one, and those above that.
    rw [ih child member, linked.ancestors_child live member, List.tail_cons, ← nesting]
  rw [linked.preorder_eq live, List.forall_mem_cons, below, linked.tree_eq live, Tree.height, own]
  cases (doc.kind id).isElement <;> simp
  omega

/-- How deep elements are nested in a document is told by the height of its tree. -/
theorem WellLinked.nestsWithin_iff (linked : doc.WellLinked) :
    doc.NestsWithin limit ↔ (doc.tree root).height ≤ limit := by
  have top : (doc.ancestors root).tail = [] := by
    rw [HasShape.ancestors_of_top linked linked.root_live linked.root_top]
    rfl
  have heights : (∀ other ∈ doc.preorder root, (doc.kind other).isElement = true →
      doc.nesting other ≤ limit) ↔ _ := nesting_preorder_le_iff linked linked.root_live
  rw [top, List.countP_nil, Nat.zero_add, ← linked.order_eq] at heights
  have attached : doc.NestsWithin limit ↔
      ∀ other ∈ doc.order, (doc.kind other).isElement = true → doc.nesting other ≤ limit :=
    forall_congr' fun other => by rw [linked.mem_order_iff]
  rw [attached, heights]
  refine ⟨fun fits => ?_, fun fits _ => fits⟩
  rcases Nat.eq_zero_or_pos (doc.tree root).height with flat | high
  · rw [flat]
    exact Nat.zero_le _
  · exact fits high

end Document
end Markup
