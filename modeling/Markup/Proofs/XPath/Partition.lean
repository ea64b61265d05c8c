import Markup.Proofs.Store.Grow
import Markup.Proofs.XPath.Axes
import Mathlib

/-!
# How the axes share out a document

Seen from a node of the tree, every other one is above it, below it, behind it or ahead of it. Going
down from a node to one of its children moves nodes from one of these parts to another: the node
itself to those above, and what is below it to the three others. So the parts always make up the
whole tree, each node once.
-/

namespace Markup.XPath

open Document

variable {doc : Document} {id parent : NodeId} {node : Node} {axes : List Axis}

/-! ## The parts of the tree -/

/-- What precedes a node, what is above it, the node with what is below it and what follows it make
up the tree. -/
theorem parts_perm_order (linked : doc.WellLinked) (attached : doc.isAttached id = true) :
    (preceding doc id ++ (doc.ancestors id).tail ++ doc.preorder id ++ following doc id).Perm
      doc.order := by
  have atRoot : (preceding doc root ++ (doc.ancestors root).tail ++ doc.preorder root ++
      following doc root).Perm doc.order := by
    have path := HasShape.ancestors_of_top linked linked.root_live linked.root_top
    simp [preceding, following, path, linked.order_eq,
      siblingsBefore_of_top linked linked.root_live linked.root_top,
      siblingsAfter_of_top linked linked.root_live linked.root_top]
  refine linked.ascent (motive := fun id => root ∈ doc.ancestors id →
    (preceding doc id ++ (doc.ancestors id).tail ++ doc.preorder id ++ following doc id).Perm
      doc.order) ?_ ?_ id (linked.live_of_isAttached attached) (linked.isAttached_iff.mp attached).2
  · intro id live top above
    rw [HasShape.ancestors_of_top linked live top] at above
    obtain rfl := List.mem_singleton.mp above
    exact atRoot
  · intro id parent live liveP hung ih above
    rw [HasShape.ancestors_of_parent linked live hung] at above
    rcases List.mem_cons.mp above with rfl | above
    · exact atRoot
    · obtain ⟨before, after, split⟩ := List.append_of_mem (linked.listed live hung).2
      refine List.Perm.trans (List.perm_iff_count.mpr fun other => ?_) (ih above)
      rw [following_child linked liveP split, preceding_child linked liveP split,
        HasShape.ancestors_of_parent linked live hung, List.tail_cons,
        HasShape.ancestors_eq_cons linked liveP, List.tail_cons, linked.preorder_eq liveP, split]
      simp only [List.count_append, List.count_reverse, List.count_cons, List.flatMap_append,
        List.flatMap_cons]
      omega

/-! ## Sharing out -/

/-- Whether axes share out the nodes of the tree: no node is on two of them, and what is on one of
them is just the nodes of the tree. -/
structure SharesOut (doc : Document) (node : Node) (axes : List Axis) : Prop where
  disjoint : axes.Pairwise fun axis other => (axis.nodes doc node).Disjoint (other.nodes doc node)
  covers : ∀ found, (∃ axis ∈ axes, found ∈ axis.nodes doc node) ↔
    ∃ id, found = .tree id ∧ doc.isAttached id = true

theorem sharesOut_of_perm (linked : doc.WellLinked)
    (perm : (axes.flatMap (·.nodes doc node)).Perm (doc.order.map .tree)) :
    SharesOut doc node axes where
  disjoint := by
    have single : doc.order.Nodup := linked.order_eq ▸ linked.preorder_nodup linked.root_live
    have mapped : (doc.order.map Node.tree).Nodup := single.map fun _ _ => Node.tree.inj
    exact (List.nodup_flatMap.mp (perm.nodup_iff.mpr mapped)).2
  covers := by
    intro found
    rw [← List.mem_flatMap, perm.mem_iff, List.mem_map]
    constructor
    · rintro ⟨id, met, rfl⟩
      exact ⟨id, rfl, linked.mem_order_iff.mp met⟩
    · rintro ⟨id, rfl, attached⟩
      exact ⟨id, linked.mem_order_iff.mpr attached, rfl⟩

theorem sharesOut_tree (linked : doc.WellLinked) (attached : doc.isAttached id = true) :
    SharesOut doc (.tree id) [.self, .ancestor, .descendant, .following, .preceding] := by
  refine sharesOut_of_perm linked (List.Perm.trans ?_ ((parts_perm_order linked attached).map _))
  rw [linked.preorder_eq_cons (linked.live_of_isAttached attached)]
  refine List.perm_iff_count.mpr fun other => ?_
  simp only [List.flatMap_cons, List.flatMap_nil, Axis.nodes, List.map_append, List.map_cons,
    List.count_append, List.count_cons, List.count_nil]
  omega

/-- On the way up from an attribute its owner comes first, so that no axis but this leads to it. -/
theorem sharesOut_attr (linked : doc.WellLinked) (attached : doc.isAttached id = true)
    (index : Nat) : SharesOut doc (.attr id index) [.ancestor, .preceding, .following] := by
  have live := linked.live_of_isAttached attached
  obtain ⟨above, path⟩ : ∃ above, doc.ancestors id = id :: above :=
    ⟨_, HasShape.ancestors_eq_cons linked live⟩
  refine sharesOut_of_perm linked (List.Perm.trans ?_ ((parts_perm_order linked attached).map _))
  refine List.perm_iff_count.mpr fun other => ?_
  simp only [linked.preorder_eq_cons live, path, List.tail_cons, List.flatMap_cons,
    List.flatMap_nil, Axis.nodes, List.map_append, List.map_cons, List.count_append,
    List.count_cons, List.count_nil]
  omega

/-! ## Order -/

/-- Where an axis leads on its nodes increase in document order, and where it leads back they
decrease. -/
theorem pairwise_nodes (linked : doc.WellLinked) (axis : Axis) (present : node.IsPresent doc) :
    (axis.nodes doc node).Pairwise fun left right =>
      if axis.isReverse then right.Precedes doc left else left.Precedes doc right := by
  have ordered := (inOrder_axis linked axis present).increasing
  cases leads : axis.isReverse with
  | true =>
    rw [leads, if_pos rfl] at ordered
    simpa using List.pairwise_reverse.mp ordered
  | false =>
    rw [leads, if_neg Bool.false_ne_true] at ordered
    simpa using ordered

/-- From a node of the tree, the node itself, what is above and below it and what follows and
precedes it share out the tree. From an attribute the way up, which begins with its owner, shares it
out with what follows and what precedes. From both the axes that lead on increase strictly in
document order, and those that lead back decrease. -/
theorem axes_partition (linked : doc.WellLinked) :
    (∀ id, doc.isAttached id = true →
      SharesOut doc (.tree id) [.self, .ancestor, .descendant, .following, .preceding]) ∧
    (∀ owner index, doc.isAttached owner = true → index < (doc.attributes owner).length →
      SharesOut doc (.attr owner index) [.ancestor, .preceding, .following] ∧
      ((Axis.ancestor.nodes doc (.attr owner index)).head? = some (.tree owner))) ∧
    ∀ node : Node, node.IsPresent doc →
      (∀ axis ∈ [Axis.child, .descendant, .followingSibling, .following],
        (axis.nodes doc node).Pairwise (Node.Precedes doc)) ∧
      ∀ axis ∈ [Axis.ancestor, .precedingSibling, .preceding],
        (axis.nodes doc node).Pairwise fun left right => right.Precedes doc left := by
  refine ⟨fun id attached => sharesOut_tree linked attached, fun owner index attached _ =>
    ⟨sharesOut_attr linked attached index, ?_⟩, fun node present => ⟨fun axis member => ?_,
      fun axis member => ?_⟩⟩
  · have live := linked.live_of_isAttached attached
    rw [Axis.nodes, HasShape.ancestors_eq_cons linked live]
    rfl
  · have leads : axis.isReverse = false := by
      revert axis
      decide
    simpa [leads] using pairwise_nodes linked axis present
  · have leads : axis.isReverse = true := by
      revert axis
      decide
    simpa [leads] using pairwise_nodes linked axis present

/-- An element with an attribute and two elements in it. -/
def branchedSample : Document :=
  ((Document.empty.grow root (.element ⟨none, "a"⟩ none [.plain "x" "1"])).grow ⟨2, 0⟩
    (.plainElement "b")).grow ⟨2, 0⟩ (.plainElement "c")

/-- The first inner element precedes the second one, and both follow the attribute. -/
theorem axes_partition_branched :
    SharesOut branchedSample (.tree ⟨4, 0⟩) [.self, .ancestor, .descendant, .following, .preceding] ∧
    Axis.ancestor.nodes branchedSample (.tree ⟨4, 0⟩) = [.tree ⟨2, 0⟩, .tree root] ∧
    Axis.preceding.nodes branchedSample (.tree ⟨4, 0⟩) = [.tree ⟨3, 0⟩] ∧
    SharesOut branchedSample (.attr ⟨2, 0⟩ 0) [.ancestor, .preceding, .following] ∧
    Axis.following.nodes branchedSample (.attr ⟨2, 0⟩ 0) = [.tree ⟨3, 0⟩, .tree ⟨4, 0⟩] := by
  have linked : branchedSample.WellLinked := by
    have outer := extended_grow wellLinked_empty wellLinked_empty.root_live
      (.element ⟨none, "a"⟩ none [.plain "x" "1"])
    have live := (outer.live_iff _).mpr (.inl rfl)
    have first := extended_grow outer.linked live (.plainElement "b")
    exact (extended_grow first.linked ((first.live_iff _).mpr (.inr live)) _).linked
  obtain ⟨trees, attributes, -⟩ := axes_partition linked
  exact ⟨trees ⟨4, 0⟩ (by decide), by decide, by decide,
    (attributes ⟨2, 0⟩ 0 (by decide) (by decide)).1, by decide⟩

end Markup.XPath
