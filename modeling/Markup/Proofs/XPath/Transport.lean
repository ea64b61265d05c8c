import Markup.Proofs.Store.Isomorphism
import Markup.Proofs.XPath.Arrange
import Markup.XPath.Function

/-!
# Nodes of isomorphic trees

Where two documents hold the same tree, each axis leads from a renamed node to the renamed nodes, in
the same order, and what is read of a node is the same.
-/

namespace Markup.XPath

open Document

variable {doc doc' : Document} {rename : NodeId → NodeId} {id : NodeId} {node : Node}
  {nodes : List Node}

/-! ## Renamed nodes -/

/-- A node under another name of its owner. -/
def Node.image (rename : NodeId → NodeId) : Node → Node
  | .tree id => .tree (rename id)
  | .attr owner index => .attr (rename owner) index

/-- Whether a node is one of the tree or belongs to one. -/
def Node.IsOwned (doc : Document) (node : Node) : Prop := doc.isAttached node.owner = true

@[simp] theorem owner_image : (node.image rename).owner = rename node.owner := by
  cases node <;> rfl

theorem isOwned_of_isPresent (present : node.IsPresent doc) : node.IsOwned doc := by
  cases node with
  | tree id => exact present
  | attr owner index => exact present.1

section Isomorphic

variable (iso : Isomorphism doc doc' rename)
include iso

theorem image_inj {left right : Node} (owned : left.IsOwned doc) (owned' : right.IsOwned doc)
    (same : left.image rename = right.image rename) : left = right := by
  cases left with
  | tree id =>
    cases right with
    | tree id' => exact congrArg _ (iso.eq_of_rename_eq owned owned' (Node.tree.inj same))
    | attr owner index => cases same
  | attr owner index =>
    cases right with
    | tree id' => cases same
    | attr owner' index' =>
      obtain ⟨owners, numbers⟩ := Node.attr.inj same
      exact congr (congrArg _ (iso.eq_of_rename_eq owned owned' owners)) numbers

/-! ## Walks -/

/-- What stands beside a node stands in the same order beside the renamed node. -/
theorem siblings_image (attached : doc.isAttached id = true) :
    siblingsAfter doc' (rename id) = (siblingsAfter doc id).map rename ∧
      siblingsBefore doc' (rename id) = (siblingsBefore doc id).map rename := by
  have linked := iso.linked
  have live := linked.live_of_isAttached attached
  cases hung : doc.parent id with
  | none =>
    have hung' : doc'.parent (rename id) = none := by rw [iso.parent_eq attached, hung]; rfl
    rw [siblingsAfter_of_top linked live hung, siblingsBefore_of_top linked live hung,
      siblingsAfter_of_top iso.linked' (iso.live' attached) hung',
      siblingsBefore_of_top iso.linked' (iso.live' attached) hung']
    exact ⟨rfl, rfl⟩
  | some parent =>
    obtain ⟨liveP, member⟩ := linked.listed live hung
    have attachedP := linked.isAttached_parent attached hung
    obtain ⟨before, after, split⟩ := List.append_of_mem member
    have split' : doc'.children (rename parent) =
        before.map rename ++ rename id :: after.map rename := by
      rw [iso.children_eq attachedP, split, List.map_append, List.map_cons]
    rw [siblingsAfter_eq linked liveP split, siblingsBefore_eq linked liveP split,
      siblingsAfter_eq iso.linked' (iso.live' attachedP) split',
      siblingsBefore_eq iso.linked' (iso.live' attachedP) split', List.map_reverse]
    exact ⟨rfl, rfl⟩

theorem subtree_image (attached : doc.isAttached id = true) :
    subtree doc' (rename id) = (subtree doc id).map rename := by
  rw [subtree, subtree, iso.descendants_eq attached, List.map_cons]

theorem isAttached_sibling (attached : doc.isAttached id = true) {sibling : NodeId}
    (beside : sibling ∈ siblingsAfter doc id ∨ sibling ∈ siblingsBefore doc id) :
    doc.isAttached sibling = true := by
  apply iso.linked.mem_order_iff.mp
  rcases beside with later | earlier
  · exact (siblingsAfter_sublist iso.linked attached).mem later
  · exact (siblingsBefore_sublist iso.linked attached).mem (List.mem_reverse.mpr earlier)

theorem following_image (attached : doc.isAttached id = true) :
    following doc' (rename id) = (following doc id).map rename := by
  rw [following, following, iso.ancestors_eq attached, List.flatMap_map, List.map_flatMap]
  refine List.flatMap_congr fun ancestor above => ?_
  have attachedA := iso.linked.isAttached_above attached above
  rw [(siblings_image iso attachedA).1, List.flatMap_map, List.map_flatMap]
  exact List.flatMap_congr fun sibling beside =>
    subtree_image iso (isAttached_sibling iso attachedA (.inl beside))

theorem preceding_image (attached : doc.isAttached id = true) :
    preceding doc' (rename id) = (preceding doc id).map rename := by
  rw [preceding, preceding, iso.ancestors_eq attached, List.flatMap_map, List.map_flatMap]
  refine List.flatMap_congr fun ancestor above => ?_
  have attachedA := iso.linked.isAttached_above attached above
  rw [(siblings_image iso attachedA).2, List.flatMap_map, List.map_flatMap]
  refine List.flatMap_congr fun sibling beside => ?_
  rw [subtree_image iso (isAttached_sibling iso attachedA (.inr beside)), List.map_reverse]

/-! ## What is read of a node -/

theorem attributes_image (attached : doc.isAttached id = true) :
    doc'.attributes (rename id) = doc.attributes id := by
  rw [Document.attributes, iso.kind_eq attached, ← Document.attributes]

theorem properAttributes_image (attached : doc.isAttached id = true) :
    properAttributes doc' (rename id) = (properAttributes doc id).map (Node.image rename) := by
  rw [properAttributes, attributes_image iso attached, properAttributes, List.map_filterMap]
  congr 1
  funext ⟨attr, index⟩
  by_cases declares : attr.isDeclaration = true
  · simp only [declares, if_true, Option.map_none]
  · simp only [declares, if_false, Option.map_some, Node.image, Bool.false_eq_true]

theorem attribute?_image (owned : node.IsOwned doc) :
    (node.image rename).attribute? doc' = node.attribute? doc := by
  cases node with
  | tree id => rfl
  | attr owner index =>
    have attached : doc.isAttached owner = true := owned
    rw [Node.image, Node.attribute?, attributes_image iso attached, Node.attribute?]

theorem text_image (owned : node.IsOwned doc) :
    (node.image rename).text doc' = node.text doc := by
  cases node with
  | tree id =>
    have attached : doc.isAttached id = true := owned
    simp only [Node.image, Node.text, iso.kind_eq attached, textContent, iso.tree_eq attached]
  | attr owner index =>
    have attached : doc.isAttached owner = true := owned
    rw [Node.image, Node.text, attributes_image iso attached, Node.text]

theorem localName_image (owned : node.IsOwned doc) :
    (node.image rename).localName doc' = node.localName doc := by
  rw [Node.localName, attribute?_image iso owned, owner_image, iso.kind_eq owned, Node.localName]

theorem name_image (owned : node.IsOwned doc) :
    (node.image rename).name doc' = node.name doc := by
  rw [Node.name, attribute?_image iso owned, owner_image, iso.kind_eq owned, Node.name]

theorem uri_image (owned : node.IsOwned doc) : (node.image rename).uri doc' = node.uri doc := by
  rw [Node.uri, attribute?_image iso owned, owner_image, iso.kind_eq owned, Node.uri]

theorem isInLanguage_image (attached : doc.isAttached id = true) (language : String) :
    isInLanguage doc' (rename id) language = isInLanguage doc id language := by
  have declared : (doc'.ancestors (rename id)).map doc'.attributes =
      (doc.ancestors id).map doc.attributes := by
    rw [iso.ancestors_eq attached, List.map_map]
    exact List.map_congr_left fun ancestor above =>
      attributes_image iso (iso.linked.isAttached_above attached above)
  have through : ∀ (doc : Document) (id : NodeId), ((doc.ancestors id).findSome? fun ancestor =>
      (doc.attributes ancestor).find? (isReserved · "lang")) =
      ((doc.ancestors id).map doc.attributes).findSome? (·.find? (isReserved · "lang")) :=
    fun doc id => List.findSome?_map.symm
  simp only [isInLanguage, through, declared]

/-! ## Axes and tests -/

/-- An axis leads from a renamed node to the renamed nodes, in the same order. -/
theorem nodes_image (axis : Axis) (owned : node.IsOwned doc) :
    axis.nodes doc' (node.image rename) = (axis.nodes doc node).map (Node.image rename) := by
  have trees : ∀ ids : List NodeId, (ids.map rename).map Node.tree =
      (ids.map Node.tree).map (Node.image rename) := by
    intro ids
    rw [List.map_map, List.map_map]
    rfl
  cases node with
  | tree id =>
    have attached : doc.isAttached id = true := owned
    cases axis with
    | attributes => exact properAttributes_image iso attached
    | namespaces | self => rfl
    | parent => 
      simp only [Node.image, Axis.nodes, iso.parent_eq attached]
      cases doc.parent id <;> rfl
    | _ =>
      simp only [Node.image, Axis.nodes, iso.children_eq attached, iso.descendants_eq attached,
        iso.ancestors_eq attached, siblings_image iso attached, following_image iso attached,
        preceding_image iso attached, subtree_image iso attached, List.map_tail, trees]
  | attr owner index =>
    have attached : doc.isAttached owner = true := owned
    cases axis with
    | ancestor | ancestorOrSelf | following | preceding =>
      simp only [Node.image, Axis.nodes, iso.ancestors_eq attached, iso.descendants_eq attached,
        following_image iso attached, preceding_image iso attached, ← List.map_append, trees,
        List.map_cons]
    | _ => rfl

theorem accepts_image (test : NodeTest) (axis : Axis) (owned : node.IsOwned doc) :
    test.accepts doc' axis (node.image rename) = test.accepts doc axis node := by
  cases node with
  | tree id =>
    have attached : doc.isAttached id = true := owned
    rw [Node.image, NodeTest.accepts, iso.kind_eq attached, NodeTest.accepts]
  | attr owner index =>
    have attached : doc.isAttached owner = true := owned
    rw [Node.image, NodeTest.accepts, attributes_image iso attached, NodeTest.accepts]

omit iso in
/-- An axis never leads out of the tree. -/
theorem isOwned_of_mem_nodes (linked : doc.WellLinked) (axis : Axis) (owned : node.IsOwned doc) :
    ∀ found ∈ axis.nodes doc node, found.IsOwned doc := by
  have tree : ∀ {axis : Axis} {id : NodeId}, doc.isAttached id = true →
      ∀ found ∈ axis.nodes doc (.tree id), found.IsOwned doc := by
    intro axis id attached found member
    have ordered := inOrder_axis linked axis (show Node.IsPresent doc (.tree id) from attached)
    refine isOwned_of_isPresent (ordered.present found ?_)
    split
    · exact List.mem_reverse.mpr member
    · exact member
  cases node with
  | tree id => exact tree owned
  | attr owner index =>
    have attached : doc.isAttached owner = true := owned
    intro found member
    cases axis with
    | self => exact List.mem_singleton.mp member ▸ owned
    | parent => exact List.mem_singleton.mp member ▸ attached
    | ancestor => exact @tree .ancestorOrSelf owner attached found member
    | ancestorOrSelf =>
      rcases List.mem_cons.mp member with rfl | above
      · exact owned
      · exact @tree .ancestorOrSelf owner attached found above
    | following =>
      obtain ⟨id, listed, rfl⟩ := List.mem_map.mp member
      exact linked.mem_order_iff.mp ((behind_sublist linked attached).mem listed)
    | preceding => exact @tree .preceding owner attached found member
    | _ => cases member

/-! ## Order -/

theorem before_image {left right : Node} (owned : left.IsOwned doc) (owned' : right.IsOwned doc) :
    (Ranks.ofDocument doc').before (left.image rename) (right.image rename) =
      (Ranks.ofDocument doc).before left right := by
  have key : ∀ {node : Node}, node.IsOwned doc →
      (Ranks.ofDocument doc').key (node.image rename) = (Ranks.ofDocument doc).key node := by
    intro node owned
    have place : (Ranks.ofDocument doc').place (rename node.owner) =
        (Ranks.ofDocument doc).place node.owner := by
      rw [place_ofDocument iso.linked' (iso.attached owned), iso.idxOf_order owned,
        place_ofDocument iso.linked owned]
    cases node with
    | tree id => exact congrArg (·, 0) place
    | attr owner index => exact congrArg (·, index + 1) place
  rw [Ranks.before, key owned, key owned', Ranks.before]

theorem withoutRepeats_image (owned : ∀ node ∈ nodes, node.IsOwned doc) :
    withoutRepeats (nodes.map (Node.image rename)) =
      (withoutRepeats nodes).map (Node.image rename) := by
  fun_induction withoutRepeats nodes with
  | case1 => rfl
  | case2 node => rfl
  | case3 second rest ih =>
    rw [← ih fun node member => owned node (List.mem_cons_of_mem _ member)]
    simp [withoutRepeats]
  | case4 first second rest other ih =>
    have other' : first.image rename ≠ second.image rename :=
      mt (image_inj iso (owned first (by simp)) (owned second (by simp))) other
    have later := ih fun node member => owned node (List.mem_cons_of_mem _ member)
    rw [List.map_cons] at later
    rw [List.map_cons, List.map_cons, withoutRepeats, if_neg other', later, List.map_cons]

/-- Arranging goes by the places of the nodes in the tree, so it commutes with renaming. -/
theorem arrange_image (owned : ∀ node ∈ nodes, node.IsOwned doc) :
    (Ranks.ofDocument doc').arrange (nodes.map (Node.image rename)) =
      ((Ranks.ofDocument doc).arrange nodes).map (Node.image rename) := by
  have sorted : (nodes.map (Node.image rename)).mergeSort (Ranks.ofDocument doc').before =
      (nodes.mergeSort (Ranks.ofDocument doc).before).map (Node.image rename) :=
    (List.map_mergeSort fun left member right member' =>
      (before_image iso (owned left member) (owned right member')).symm).symm
  rw [Ranks.arrange, sorted, Ranks.arrange, withoutRepeats_image iso fun node member =>
    owned node (List.mem_mergeSort.mp member)]

theorem identified_image (text : String) :
    identified doc' text = (identified doc text).map (Node.image rename) := by
  have attached := iso.linked.isAttached_root
  have below : doc'.descendants root = (doc.descendants root).map rename := by
    rw [← iso.descendants_eq attached, iso.rename_root]
  unfold identified
  dsimp only
  split
  · rfl
  · rw [below, List.filter_map, List.map_map, List.map_map]
    congr 1
    refine List.filter_congr fun id met => ?_
    have attached' : doc.isAttached id = true := by
      apply iso.linked.mem_order_iff.mp
      rw [order]
      exact List.mem_cons_of_mem _ met
    rw [Function.comp, attributes_image iso attached']

end Isomorphic
end Markup.XPath
