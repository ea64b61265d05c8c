import Markup.Proofs.Store.Preorder
import Markup.XPath.Selection
import Mathlib.Data.List.Nodup

/-!
# Document order on the axes

What an axis leads to comes out in document order, or against it on the axes that lead back. Both
follow from one cut of the document at a node: what comes before it, the node with everything below
it, and what follows.
-/

namespace Markup.XPath

open Document

variable {doc : Document} {id parent : NodeId} {nodes : List Node}

/-! ## Nodes in document order -/

/-- Where a node stands: the place of its owner in document order, and its own place among what
belongs to the owner. -/
def Node.rank (doc : Document) : Node → Nat × Nat
  | .tree id => (doc.order.idxOf id, 0)
  | .attr owner index => (doc.order.idxOf owner, index + 1)

/-- Whether a node comes before another one: nodes of the tree in document order, and an attribute
after its owner and its earlier attributes, but before what is below the owner. -/
def Node.Precedes (doc : Document) (left right : Node) : Prop :=
  (left.rank doc).1 < (right.rank doc).1 ∨
    (left.rank doc).1 = (right.rank doc).1 ∧ (left.rank doc).2 < (right.rank doc).2

/-- Whether a node is part of the document: a node of the tree, or an attribute of one. -/
def Node.IsPresent (doc : Document) : Node → Prop
  | .tree id => doc.isAttached id = true
  | .attr owner index => doc.isAttached owner = true ∧ index < (doc.attributes owner).length

/-- Nodes that are part of the document, strictly increasing in document order. -/
structure InOrder (doc : Document) (nodes : List Node) : Prop where
  present : ∀ node ∈ nodes, node.IsPresent doc
  increasing : nodes.Pairwise (Node.Precedes doc)

namespace InOrder

theorem nil : InOrder doc [] := ⟨by simp, .nil⟩

theorem singleton {node : Node} (present : node.IsPresent doc) : InOrder doc [node] :=
  ⟨by simpa using present, List.pairwise_singleton _ _⟩

theorem sublist {found : List Node} (ordered : InOrder doc nodes) (part : found.Sublist nodes) :
    InOrder doc found :=
  ⟨fun node member => ordered.present node (part.mem member), ordered.increasing.sublist part⟩

theorem nodup (ordered : InOrder doc nodes) : nodes.Nodup := by
  refine ordered.increasing.imp fun precedes same => ?_
  subst same
  rcases precedes with place | index
  · exact Nat.lt_irrefl _ place
  · exact Nat.lt_irrefl _ index.2

end InOrder

/-- Nodes of the tree are in order if they are picked from the document order. -/
theorem inOrder_tree (linked : doc.WellLinked) {ids : List NodeId} (part : ids.Sublist doc.order) :
    InOrder doc (ids.map .tree) := by
  have single : doc.order.Nodup := linked.order_eq ▸ linked.preorder_nodup linked.root_live
  have increasing : doc.order.Pairwise fun left right =>
      doc.order.idxOf left < doc.order.idxOf right := by
    apply List.pairwise_iff_getElem.mpr
    intro i j insideI insideJ less
    rwa [single.idxOf_getElem, single.idxOf_getElem]
  constructor
  · intro node member
    obtain ⟨id, listed, rfl⟩ := List.mem_map.mp member
    exact linked.mem_order_iff.mp (part.mem listed)
  · refine List.pairwise_map.mpr ((increasing.sublist part).imp fun less => .inl less)

/-! ## Cutting the document at a node -/

theorem siblingsAfter_eq (linked : doc.WellLinked) (live : doc.IsLive parent)
    {before after : List NodeId} (split : doc.children parent = before ++ id :: after) :
    siblingsAfter doc id = after := by
  have walk := linked.forward live
  rw [split] at walk
  apply HasShape.along_eq linked walk.drop.2
  intro sibling member
  exact linked.live_of_mem_children live (by simp [split, member])

theorem siblingsBefore_eq (linked : doc.WellLinked) (live : doc.IsLive parent)
    {before after : List NodeId} (split : doc.children parent = before ++ id :: after) :
    siblingsBefore doc id = before.reverse := by
  have walk := linked.backward live
  rw [split, List.reverse_append, List.reverse_cons, List.append_assoc] at walk
  apply HasShape.along_eq linked (Leads.drop walk).2
  intro sibling member
  exact linked.live_of_mem_children live (by simp [split, List.mem_reverse.mp member])

theorem siblingsAfter_of_top (linked : doc.WellLinked) (live : doc.IsLive id)
    (top : doc.parent id = none) : siblingsAfter doc id = [] := by
  rw [siblingsAfter, (linked.alone live top).1]
  exact HasShape.along_eq linked rfl (by simp)

theorem siblingsBefore_of_top (linked : doc.WellLinked) (live : doc.IsLive id)
    (top : doc.parent id = none) : siblingsBefore doc id = [] := by
  rw [siblingsBefore, (linked.alone live top).2]
  exact HasShape.along_eq linked rfl (by simp)

theorem subtree_eq (linked : doc.WellLinked) (live : doc.IsLive id) :
    subtree doc id = doc.preorder id := (linked.preorder_eq_cons live).symm

/-- The cut of the document at a node. -/
structure Cut (doc : Document) (id : NodeId) (before : List NodeId) : Prop where
  order_eq : doc.order = before ++ (doc.preorder id ++ following doc id)
  preceding : (preceding doc id).reverse.Sublist before
  above : (doc.ancestors id).tail.reverse.Sublist before

theorem cut_root (linked : doc.WellLinked) : Cut doc root [] := by
  have path := HasShape.ancestors_of_top linked linked.root_live linked.root_top
  have noneAfter := siblingsAfter_of_top linked linked.root_live linked.root_top
  have noneBefore := siblingsBefore_of_top linked linked.root_live linked.root_top
  exact {
    order_eq := by simp [following, path, noneAfter, linked.order_eq]
    preceding := by simp [XPath.preceding, path, noneBefore]
    above := by simp [path] }

section Child

variable (linked : doc.WellLinked) (live : doc.IsLive parent) {before after : List NodeId}
  (split : doc.children parent = before ++ id :: after)
include linked live split

/-- What follows a child is its later siblings with what is below them, and what follows its
parent. -/
theorem following_child :
    following doc id = after.flatMap doc.preorder ++ following doc parent := by
  have trees : after.flatMap (subtree doc) = after.flatMap doc.preorder :=
    List.flatMap_congr fun sibling member =>
      subtree_eq linked (linked.live_of_mem_children live (by simp [split, member]))
  rw [following, linked.ancestors_child live (by simp [split]), List.flatMap_cons,
    siblingsAfter_eq linked live split, trees, following]

/-- What precedes a child is its earlier siblings with what is below them, and what precedes its
parent. -/
theorem preceding_child :
    preceding doc id = (before.flatMap doc.preorder).reverse ++ preceding doc parent := by
  have trees : before.flatMap (subtree doc) = before.flatMap doc.preorder :=
    List.flatMap_congr fun sibling member =>
      subtree_eq linked (linked.live_of_mem_children live (by simp [split, member]))
  rw [preceding, linked.ancestors_child live (by simp [split]), List.flatMap_cons,
    siblingsBefore_eq linked live split, preceding, ← trees, List.reverse_flatMap]
  rfl

end Child

theorem Cut.child (linked : doc.WellLinked) (live : doc.IsLive parent) {outer : List NodeId}
    (cut : Cut doc parent outer) {before after : List NodeId}
    (split : doc.children parent = before ++ id :: after) :
    Cut doc id (outer ++ parent :: before.flatMap doc.preorder) := by
  have path := linked.ancestors_child live (show id ∈ doc.children parent by simp [split])
  exact {
    order_eq := by
      rw [cut.order_eq, linked.preorder_eq live, split, following_child linked live split]
      simp
    preceding := by
      rw [preceding_child linked live split, List.reverse_append, List.reverse_reverse]
      exact cut.preceding.append (List.sublist_cons_self _ _)
    above := by
      rw [path, List.tail_cons]
      rw [HasShape.ancestors_eq_cons linked live, List.reverse_cons]
      exact cut.above.append (by simp) }

/-- The document can be cut at every node of the tree. -/
theorem exists_cut (linked : doc.WellLinked) (attached : doc.isAttached id = true) :
    ∃ before, Cut doc id before := by
  have met := linked.mem_order_iff.mpr attached
  rw [linked.order_eq, linked.mem_preorder_iff linked.root_live] at met
  obtain ⟨live, above⟩ := met
  refine linked.ascent (motive := fun id =>
    root ∈ doc.ancestors id → ∃ before, Cut doc id before) ?_ ?_ id live above
  · intro id live top above
    rw [HasShape.ancestors_of_top linked live top] at above
    obtain rfl := List.mem_singleton.mp above
    exact ⟨[], cut_root linked⟩
  · intro id parent live liveP hung ih above
    rw [HasShape.ancestors_of_parent linked live hung] at above
    rcases List.mem_cons.mp above with rfl | above
    · exact ⟨[], cut_root linked⟩
    · obtain ⟨outer, cut⟩ := ih above
      obtain ⟨before, after, split⟩ := List.append_of_mem (linked.listed live hung).2
      exact ⟨_, cut.child linked liveP split⟩

/-! ## The axes -/

/-- Nodes are picked from the subtrees that they are part of. -/
theorem sublist_flatMap {ids : List NodeId} {trees : NodeId → List NodeId}
    (part : ∀ id ∈ ids, id ∈ trees id) : ids.Sublist (ids.flatMap trees) := by
  induction ids with
  | nil => exact List.nil_sublist _
  | cons id rest ih =>
    rw [List.flatMap_cons, ← List.singleton_append]
    refine (List.singleton_sublist.mpr (part id (by simp))).append (ih fun other member => ?_)
    exact part other (List.mem_cons_of_mem _ member)

section Axes

variable (linked : doc.WellLinked) (attached : doc.isAttached id = true)
include linked attached

theorem preorder_sublist : (doc.preorder id).Sublist doc.order := by
  obtain ⟨before, cut⟩ := exists_cut linked attached
  rw [cut.order_eq]
  exact (List.sublist_append_left _ _).trans (List.sublist_append_right _ _)

theorem subtree_sublist : (subtree doc id).Sublist doc.order := by
  rw [subtree_eq linked (linked.live_of_isAttached attached)]
  exact preorder_sublist linked attached

theorem descendants_sublist : (doc.descendants id).Sublist doc.order :=
  (List.sublist_cons_self _ _).trans (subtree_sublist linked attached)

/-- Each child comes before what is below it and before its later siblings. -/
theorem children_sublist : (doc.children id).Sublist doc.order := by
  have live := linked.live_of_isAttached attached
  refine List.Sublist.trans ?_ (descendants_sublist linked attached)
  rw [linked.descendants_eq live]
  apply sublist_flatMap
  intro child member
  rw [linked.preorder_eq (linked.live_of_mem_children live member)]
  exact List.mem_cons_self

theorem following_sublist : (following doc id).Sublist doc.order := by
  obtain ⟨before, cut⟩ := exists_cut linked attached
  rw [cut.order_eq]
  exact (List.sublist_append_right _ _).trans (List.sublist_append_right _ _)

theorem siblingsAfter_sublist : (siblingsAfter doc id).Sublist doc.order := by
  refine List.Sublist.trans ?_ (following_sublist linked attached)
  rw [following, HasShape.ancestors_eq_cons linked (linked.live_of_isAttached attached),
    List.flatMap_cons]
  refine (sublist_flatMap fun sibling _ => ?_).trans (List.sublist_append_left _ _)
  exact List.mem_cons_self

theorem preceding_sublist : (preceding doc id).reverse.Sublist doc.order := by
  obtain ⟨before, cut⟩ := exists_cut linked attached
  rw [cut.order_eq]
  exact cut.preceding.trans (List.sublist_append_left _ _)

theorem siblingsBefore_sublist : (siblingsBefore doc id).reverse.Sublist doc.order := by
  refine List.Sublist.trans (List.Sublist.reverse ?_) (preceding_sublist linked attached)
  rw [preceding, HasShape.ancestors_eq_cons linked (linked.live_of_isAttached attached),
    List.flatMap_cons]
  refine (sublist_flatMap fun sibling _ => ?_).trans (List.sublist_append_left _ _)
  exact List.mem_reverse.mpr List.mem_cons_self

theorem ancestors_sublist : (doc.ancestors id).reverse.Sublist doc.order := by
  have live := linked.live_of_isAttached attached
  obtain ⟨before, cut⟩ := exists_cut linked attached
  rw [cut.order_eq, HasShape.ancestors_eq_cons linked live, List.reverse_cons,
    linked.preorder_eq_cons live]
  exact cut.above.append (by simp)

theorem parent_sublist : (doc.parent id).toList.Sublist doc.order := by
  cases above : doc.parent id with
  | none => exact List.nil_sublist _
  | some parent =>
    have live := linked.live_of_isAttached attached
    refine List.singleton_sublist.mpr ((ancestors_sublist linked attached).mem ?_)
    rw [HasShape.ancestors_of_parent linked live above]
    simp [HasShape.mem_ancestors_self linked (linked.listed live above).1]

omit linked in
/-- The attributes of an element are in the order of its list. -/
theorem inOrder_properAttributes : InOrder doc (properAttributes doc id) := by
  have increasing : (doc.attributes id).zipIdx.Pairwise fun left right => left.2 < right.2 := by
    rw [← List.pairwise_map (f := Prod.snd) (R := (· < ·)), List.zipIdx_map_snd]
    exact List.pairwise_lt_range'
  constructor
  · intro node member
    obtain ⟨⟨attr, index⟩, listed, taken⟩ := List.mem_filterMap.mp member
    have inside := List.snd_lt_of_mem_zipIdx listed
    by_cases declares : attr.isDeclaration = true
    · simp [declares] at taken
    · simp only [declares, Bool.false_eq_true, if_false, Option.some.injEq] at taken
      exact taken ▸ ⟨attached, by simpa using inside⟩
  · apply increasing.filterMap _
    rintro ⟨attr, index⟩ ⟨attr', index'⟩ less node taken node' taken'
    by_cases declares : attr.isDeclaration = true
    · simp [declares] at taken
    · by_cases declares' : attr'.isDeclaration = true
      · simp [declares'] at taken'
      · simp only [declares, declares', Bool.false_eq_true, if_false, Option.some.injEq]
          at taken taken'
        subst taken taken'
        exact .inr ⟨rfl, Nat.succ_lt_succ less⟩

/-- What follows an attribute begins with what is below its owner. -/
theorem behind_sublist : (doc.descendants id ++ following doc id).Sublist doc.order := by
  obtain ⟨before, cut⟩ := exists_cut linked attached
  rw [cut.order_eq, linked.preorder_eq_cons (linked.live_of_isAttached attached)]
  exact (List.sublist_cons_self _ _).trans (List.sublist_append_right _ _)

/-- An attribute comes after its owner and all that is above it. -/
theorem inOrder_above {index : Nat} (inside : index < (doc.attributes id).length) :
    InOrder doc ((doc.ancestors id).reverse.map .tree ++ [.attr id index]) := by
  have ordered := inOrder_tree linked (ancestors_sublist linked attached)
  have live := linked.live_of_isAttached attached
  refine ⟨fun node member => ?_, List.pairwise_append.mpr
    ⟨ordered.increasing, List.pairwise_singleton _ _, fun node member other single => ?_⟩⟩
  · rcases List.mem_append.mp member with listed | single
    · exact ordered.present node listed
    · exact List.mem_singleton.mp single ▸ ⟨attached, inside⟩
  · rw [List.mem_singleton.mp single]
    have increasing := ordered.increasing
    rw [HasShape.ancestors_eq_cons linked live, List.reverse_cons, List.map_append,
      List.map_singleton] at increasing member
    rcases List.mem_append.mp member with above | self
    · rcases (List.pairwise_append.mp increasing).2.2 node above (.tree id) List.mem_cons_self
        with less | same
      · exact .inl less
      · exact absurd same.2 (Nat.not_lt_zero _)
    · exact List.mem_singleton.mp self ▸ .inr ⟨rfl, Nat.succ_pos index⟩

end Axes

/-- The nodes on an axis are in document order, or against it where the axis leads back. -/
theorem inOrder_axis (linked : doc.WellLinked) (axis : Axis) {node : Node}
    (present : node.IsPresent doc) :
    InOrder doc (if axis.isReverse then (axis.nodes doc node).reverse else axis.nodes doc node) := by
  cases node with
  | tree id =>
    have attached : doc.isAttached id = true := present
    cases axis with
    | child => exact inOrder_tree linked (children_sublist linked attached)
    | descendant => exact inOrder_tree linked (descendants_sublist linked attached)
    | parent => exact inOrder_tree linked (parent_sublist linked attached)
    | ancestor =>
      simp only [Axis.isReverse, Axis.nodes, if_true, ← List.map_reverse]
      refine inOrder_tree linked (List.Sublist.trans ?_ (ancestors_sublist linked attached))
      exact (List.tail_sublist _).reverse
    | followingSibling => exact inOrder_tree linked (siblingsAfter_sublist linked attached)
    | precedingSibling =>
      simp only [Axis.isReverse, Axis.nodes, if_true, ← List.map_reverse]
      exact inOrder_tree linked (siblingsBefore_sublist linked attached)
    | following => exact inOrder_tree linked (following_sublist linked attached)
    | preceding =>
      simp only [Axis.isReverse, Axis.nodes, if_true, ← List.map_reverse]
      exact inOrder_tree linked (preceding_sublist linked attached)
    | attributes => exact inOrder_properAttributes attached
    | namespaces => exact .nil
    | self => exact .singleton present
    | descendantOrSelf => exact inOrder_tree linked (subtree_sublist linked attached)
    | ancestorOrSelf =>
      simp only [Axis.isReverse, Axis.nodes, if_true, ← List.map_reverse]
      exact inOrder_tree linked (ancestors_sublist linked attached)
  | attr owner index =>
    have attached : doc.isAttached owner = true := present.1
    have live := linked.live_of_isAttached attached
    cases axis with
    | self => exact .singleton present
    | parent => exact .singleton attached
    | ancestor =>
      simp only [Axis.isReverse, Axis.nodes, if_true, ← List.map_reverse]
      exact inOrder_tree linked (ancestors_sublist linked attached)
    | ancestorOrSelf =>
      simp only [Axis.isReverse, Axis.nodes, if_true, List.reverse_cons, ← List.map_reverse]
      exact inOrder_above linked attached present.2
    | following => exact inOrder_tree linked (behind_sublist linked attached)
    | preceding =>
      simp only [Axis.isReverse, Axis.nodes, if_true, ← List.map_reverse]
      exact inOrder_tree linked (preceding_sublist linked attached)
    | _ => exact .nil

end Markup.XPath
