import Markup.Proofs.Workspace.Carried
import Markup.Proofs.Workspace.Runs

/-!
# Documents whose nodes can be taken elsewhere

A document is portable if it is whole and if every node that can have a handle, also one beside the
root element, can be written where it stands and has something below it only if it is an element. A
tree that is taken out of a portable document can then be written below the declarations that hold
at its parent.
-/

namespace Markup

namespace NodeKind

variable {kind : NodeKind}

theorem IsSound.hasHandle {bound : Option String → Option String} (sound : kind.IsSound bound) :
    kind.hasHandle = true := by
  cases kind with
  | document => exact sound.elim
  | doctype => exact sound.elim
  | _ => rfl

theorem isElement_of_not_hasHandle (unhandled : kind.hasHandle = false) :
    kind.isElement = false := by
  cases kind with
  | element => cases unhandled
  | _ => rfl

end NodeKind

namespace Document

variable {doc doc' : Document} {top id other parent : NodeId} {kind : NodeKind}
  {gone : List NodeId}

/-- Whether a node can be written where it stands, declares nothing that is reserved and has nothing
below it unless it is an element. -/
structure Stands (doc : Document) (id : NodeId) : Prop where
  sound : (doc.kind id).IsSound (doc.namespaceOf? id)
  reserved : (doc.kind id).KeepsReserved
  childless : (doc.kind id).isElement = false → doc.children id = []

/-- A tree can be written below the declarations above it exactly if all its nodes can be written
where they stand. -/
theorem WellLinked.stands_iff (linked : doc.WellLinked) : ∀ id, doc.IsLive id → ∀ outer,
    doc.declarations id = Attribute.bindings (doc.attributes id) ++ outer →
      ((doc.tree id).StandsIn outer ↔ ∀ other ∈ doc.preorder id, doc.Stands other) := by
  refine linked.induction ?_
  intro id live ih outer scope
  have here : doc.namespaceOf? id =
      boundIn (Attribute.bindings (doc.kind id).attributes ++ outer) := by
    rw [namespaceOf?_eq_boundIn, scope]
    rfl
  have below : (∀ tree ∈ (doc.children id).map doc.tree,
        tree.StandsIn (Attribute.bindings (doc.kind id).attributes ++ outer)) ↔
      ∀ other ∈ (doc.children id).flatMap doc.preorder, doc.Stands other := by
    have each : ∀ child ∈ doc.children id,
        ((doc.tree child).StandsIn (Attribute.bindings (doc.kind id).attributes ++ outer) ↔
          ∀ other ∈ doc.preorder child, doc.Stands other) := by
      intro child member
      obtain ⟨liveC, above⟩ := linked.child live member
      refine ih child member _ ?_
      rw [declarations_child linked liveC above, scope]
      rfl
    simp only [List.forall_mem_map, List.mem_flatMap, forall_exists_index, and_imp]
    exact ⟨fun all other child member => (each child member).mp (all child member) other,
      fun all child member => (each child member).mpr fun other => all other child member⟩
  rw [linked.tree_eq live, linked.preorder_eq live, Tree.StandsIn, Tree.standAllIn_iff, below,
    List.forall_mem_cons, ← here, List.map_eq_nil_iff]
  constructor
  · rintro ⟨sound, reserved, childless, inside⟩
    exact ⟨⟨sound, reserved, childless⟩, inside⟩
  · rintro ⟨⟨sound, reserved, childless⟩, inside⟩
    exact ⟨sound, reserved, childless, inside⟩

/-- A document in which each node that can have a handle can be taken elsewhere. -/
structure Portable (top : NodeId) (doc : Document) : Prop extends Whole top doc where
  apex : (doc.kind root).hasHandle = false
  stands : ∀ {id}, doc.isAttached id = true → (doc.kind id).hasHandle = true → doc.Stands id
  bare : ∀ {id}, doc.isAttached id = true → id ≠ root → (doc.kind id).hasHandle = false →
    doc.children id = []

namespace Portable

/-- Only elements and the document node have anything below them. -/
theorem childless (portable : doc.Portable top) (attached : doc.isAttached id = true)
    (distinct : id ≠ root) (other : (doc.kind id).isElement = false) : doc.children id = [] := by
  cases handled : (doc.kind id).hasHandle with
  | false => exact portable.bare attached distinct handled
  | true => exact (portable.stands attached handled).childless other

/-- What can have a handle has only such nodes below it. -/
theorem stands_below (portable : doc.Portable top) (attached : doc.isAttached id = true)
    (handled : (doc.kind id).hasHandle = true) : ∀ other ∈ doc.preorder id, doc.Stands other := by
  have linked := portable.linked
  have live := portable.live attached
  intro other member
  by_cases isElement : (doc.kind id).isElement = true
  · obtain ⟨liveO, below⟩ := (linked.mem_preorder_iff live).mp member
    have above := linked.ancestors_subset liveO below (portable.within attached isElement).2
    have attachedO := linked.isAttached_below liveO below attached
    exact portable.stands attachedO (NodeKind.IsSound.hasHandle (portable.sound other ⟨liveO, above⟩))
  · have plain := Bool.eq_false_iff.mpr isElement
    rw [linked.preorder_eq live, (portable.stands attached handled).childless plain] at member
    obtain rfl := List.mem_singleton.mp member
    exact portable.stands attached handled

/-- A node that can have a handle hangs somewhere, and its tree can be written below the declarations
there. -/
theorem exists_parent (portable : doc.Portable top) (attached : doc.isAttached id = true)
    (handled : (doc.kind id).hasHandle = true) : ∃ parent, doc.parent id = some parent ∧
      doc.isAttached parent = true ∧ (parent = root ∨ (doc.kind parent).isElement = true) ∧
        (doc.tree id).StandsIn (doc.declarations parent) := by
  have linked := portable.linked
  obtain ⟨live, reached⟩ := linked.isAttached_iff.mp attached
  have distinct : id ≠ root := by
    rintro rfl
    rw [portable.apex] at handled
    cases handled
  cases above : doc.parent id with
  | none =>
    rw [HasShape.ancestors_of_top linked live above] at reached
    exact absurd (List.mem_singleton.mp reached).symm distinct
  | some parent =>
    have attachedP := linked.isAttached_parent attached above
    refine ⟨parent, rfl, attachedP, ?_, ?_⟩
    · by_contra neither
      obtain ⟨distinctP, plain⟩ := not_or.mp neither
      have listed := (linked.listed live above).2
      rw [portable.childless attachedP distinctP (Bool.eq_false_iff.mpr plain)] at listed
      cases listed
    · exact (linked.stands_iff id live _ (declarations_child linked live above)).mpr
        (portable.stands_below attached handled)

end Portable

/-! ## Changes -/

/-- A node of the tree that is to others what it was in another document, and can still be
written. -/
structure Stays (doc doc' : Document) (id : NodeId) : Prop where
  attached : doc.isAttached id = true
  like : IsLike (doc.kind id) (doc'.kind id)
  childless : (doc.kind id).isElement = false → doc.children id = [] → doc'.children id = []
  sound : (doc.kind id).IsSound (doc.namespaceOf? id) → (doc'.kind id).IsSound (doc'.namespaceOf? id)

theorem Stays.stands (stays : Stays doc doc' id) (stands : doc.Stands id) : doc'.Stands id where
  sound := stays.sound stands.sound
  reserved := by
    rw [NodeKind.KeepsReserved, stays.like.bindings]
    exact stands.reserved
  childless plain := by
    rw [stays.like.isElement] at plain
    exact stays.childless plain (stands.childless plain)

namespace Portable

/-- A whole document is portable if each node of its tree can be written where it stands or stayed
from a portable document. -/
theorem of_stays (portable : doc.Portable top) (whole : doc'.Whole top)
    (apex : (doc'.kind root).hasHandle = false) (each : ∀ other, doc'.isAttached other = true →
      doc'.Stands other ∨ Stays doc doc' other) : doc'.Portable top where
  toWhole := whole
  apex := apex
  stands {other} attached handled := by
    rcases each other attached with stands | stays
    · exact stands
    · rw [stays.like.hasHandle] at handled
      exact stays.stands (portable.stands stays.attached handled)
  bare {other} attached distinct unhandled := by
    rcases each other attached with stands | stays
    · rw [stands.sound.hasHandle] at unhandled
      cases unhandled
    · rw [stays.like.hasHandle] at unhandled
      exact stays.childless (NodeKind.isElement_of_not_hasHandle unhandled)
        (portable.bare stays.attached distinct unhandled)

theorem modifyKind (portable : doc.Portable top) (attached : doc.isAttached id = true)
    {change : NodeKind → NodeKind} (like : ∀ kind, IsLike kind (change kind))
    (sound : (doc.kind id).IsSound (doc.namespaceOf? id) →
      (change (doc.kind id)).IsSound (doc.namespaceOf? id)) :
    (doc.modifyKind id change).Portable top := by
  have live := portable.live attached
  have links := SameLinks.modifyKind live change
  have alike : ∀ other, IsLike (doc.kind other) ((doc.modifyKind id change).kind other) := by
    intro other
    rw [kind_modifyKind]
    split
    · exact like _
    · exact ⟨rfl, rfl, rfl⟩
  refine portable.of_stays (portable.toWhole.revised attached (.rekinded like sound)) ?_
    fun other attached' => .inr ?_
  · rw [(alike root).hasHandle]
    exact portable.apex
  · rw [links.isAttached_eq] at attached'
    have namespaces : (doc.modifyKind id change).namespaceOf? other = doc.namespaceOf? other :=
      namespaceOf?_congr (by rw [links.ancestors_eq]) fun above _ => (alike above).bindings
    refine ⟨attached', alike other, fun _ childless => by rw [links.children_eq, childless], ?_⟩
    rw [namespaces, kind_modifyKind]
    split
    · rename_i same
      obtain rfl := (portable.live attached').eq_of_index live same.1
      exact sound
    · exact fun sound => sound

theorem pruned (portable : doc.Portable top) (pruned : Pruned doc doc' gone) :
    doc'.Portable top := by
  have linked := portable.linked
  refine portable.of_stays (portable.toWhole.pruned pruned) ?_ fun other attached => .inr ?_
  · rw [pruned.kind_eq root pruned.linked.root_live]
    exact portable.apex
  · obtain ⟨live', reached⟩ := pruned.linked.isAttached_iff.mp attached
    have kinds := pruned.kind_eq other live'
    rw [pruned.ancestors_eq linked live'] at reached
    refine ⟨linked.isAttached_iff.mpr ⟨pruned.live live', reached⟩, ?_, fun _ childless => ?_, ?_⟩
    · rw [kinds]
      exact ⟨rfl, rfl, rfl⟩
    · by_contra some
      obtain ⟨child, member⟩ := List.exists_mem_of_ne_nil _ some
      obtain ⟨liveC, above⟩ := pruned.linked.child live' member
      rw [pruned.parent_eq child liveC] at above
      have listed := (linked.listed (pruned.live liveC) above).2
      rw [childless] at listed
      cases listed
    · rw [kinds, pruned.namespaceOf?_eq linked live']
      exact fun sound => sound

theorem grow (portable : doc.Portable top) (attached : doc.isAttached parent = true)
    (isElement : (doc.kind parent).isElement = true) (bare : kind.attributes = [])
    (sound : kind.IsSound (doc.namespaceOf? parent)) : (doc.grow parent kind).Portable top := by
  have linked := portable.linked
  have whole := portable.toWhole.grow attached isElement bare sound
  have liveP := portable.live attached
  have more := extended_grow linked liveP kind
  generalize doc.grow parent kind = doc' at *
  generalize (doc.create kind).1 = fresh at more
  refine portable.of_stays whole ?_ fun other attached' => ?_
  · rw [more.kind_kept root linked.root_live]
    exact portable.apex
  · obtain ⟨live', reached⟩ := more.linked.isAttached_iff.mp attached'
    rcases (more.live_iff other).mp live' with rfl | live
    · refine .inl ⟨?_, ?_, fun _ => more.children_new⟩
      · rw [more.kind_new, more.namespaceOf?_new linked liveP bare]
        exact sound
      · rw [NodeKind.KeepsReserved, more.kind_new, bare]
        nofun
    · have kinds := more.kind_kept other live
      rw [more.ancestors_kept linked live] at reached
      refine .inr ⟨linked.isAttached_iff.mpr ⟨live, reached⟩, ?_, fun plain childless => ?_, ?_⟩
      · rw [kinds]
        exact ⟨rfl, rfl, rfl⟩
      · rw [more.children_kept other live, childless]
        rintro rfl
        rw [isElement] at plain
        cases plain
      · rw [kinds, more.namespaceOf?_kept linked live]
        exact fun sound => sound

theorem revised (portable : doc.Portable top) (attached : doc.isAttached id = true)
    (revised : Revised doc id doc') : doc'.Portable top := by
  cases revised with
  | rekinded like sound => exact portable.modifyKind attached like sound
  | pruned pruned => exact portable.pruned pruned
  | @grown middle gone kind pruned live' isElement bare sound =>
    have linked := portable.linked
    have reached := (linked.isAttached_iff.mp attached).2
    have attached' : middle.isAttached id = true := by
      rw [pruned.linked.isAttached_iff, pruned.ancestors_eq linked live']
      exact ⟨live', reached⟩
    rw [← pruned.kind_eq id live'] at isElement
    rw [← pruned.namespaceOf?_eq linked live'] at sound
    exact (portable.pruned pruned).grow attached' isElement bare sound

/-! ## Calls -/

/-- A call leaves a document portable, or without anything if it removes the document node. -/
theorem change (portable : doc.Portable top) (attached : doc.isAttached id = true)
    {mutation : Mutation} (changed : mutation.change doc id = .ok doc') :
    doc'.Portable top ∨ ∀ other, doc'.isAttached other = false := by
  refine (Mutation.revised portable.linked attached ?_ changed).imp_left (portable.revised attached)
  exact fun isElement _ _ => portable.isPlainName_of_bound (portable.within attached isElement)

end Portable
end Document
end Markup
