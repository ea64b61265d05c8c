import Markup.Proofs.Store.Graft
import Markup.Proofs.Store.Prune

/-!
# What may have something below it

Only elements and the document node are made to hold other nodes. The store itself leaves it to its
callers where they place a node, so this is kept step by step: a node that is created holds nothing,
removals only take away, and what grows must be a container.
-/

namespace Markup

/-- Whether a node may have others below it. -/
def NodeKind.isContainer : NodeKind → Bool
  | document => true
  | element .. => true
  | _ => false

theorem NodeKind.isContainer_of_isElement {kind : NodeKind} (isElement : kind.isElement = true) :
    kind.isContainer = true := by
  cases kind with
  | element => rfl
  | _ => cases isElement

/-- Whether only containers have anything below them in a tree. -/
inductive Tree.IsContained : Tree → Prop
  | node {kind : NodeKind} {children : List Tree}
      (own : kind.isContainer = false → children = [])
      (below : ∀ child ∈ children, child.IsContained) : IsContained (.node kind children)

theorem Tree.isContained_iff {kind : NodeKind} {children : List Tree} :
    (Tree.node kind children).IsContained ↔
      (kind.isContainer = false → children = []) ∧ ∀ child ∈ children, child.IsContained :=
  ⟨fun | .node own below => ⟨own, below⟩, fun ⟨own, below⟩ => .node own below⟩

namespace Document

variable {doc doc' : Document} {id other parent : NodeId} {kind : NodeKind} {gone : List NodeId}

/-- Whether a node is there and may have others below it. -/
structure CanHold (doc : Document) (id : NodeId) : Prop where
  live : doc.IsLive id
  container : (doc.kind id).isContainer = true

/-- Whether a node has anything below it only if it may. -/
def Fits (doc : Document) (id : NodeId) : Prop :=
  (doc.kind id).isContainer = false → doc.children id = []

/-- Whether only containers have anything below them in the tree of a document. -/
def OnlyContainersHold (doc : Document) : Prop := ∀ id, doc.isAttached id = true → doc.Fits id

/-- Whether nothing stands below the document types of a document. -/
def TypesAreLeaves (doc : Document) : Prop :=
  ∀ id name publicId systemId, doc.isAttached id = true →
    doc.kind id = .doctype name publicId systemId → doc.children id = []

theorem OnlyContainersHold.typesAreLeaves (only : doc.OnlyContainersHold) : doc.TypesAreLeaves :=
  fun id _ _ _ attached kind => only id attached (by rw [kind]; rfl)

/-- It is enough that whatever hangs anywhere hangs below a container. -/
theorem onlyContainersHold_of_hung (linked : doc.WellLinked)
    (hung : ∀ id parent, doc.IsLive id → doc.parent id = some parent →
      (doc.kind parent).isContainer = true) : doc.OnlyContainersHold := by
  intro id attached other
  by_contra some
  obtain ⟨child, member⟩ := List.exists_mem_of_ne_nil _ some
  obtain ⟨live, above⟩ := linked.child (linked.live_of_isAttached attached) member
  rw [hung child id live above] at other
  cases other

theorem onlyContainersHold_empty : Document.empty.OnlyContainersHold := by
  refine onlyContainersHold_of_hung wellLinked_empty fun _ parent _ _ => ?_
  rw [kind_empty]
  rfl

theorem fits_of_container (container : (doc.kind id).isContainer = true) : doc.Fits id :=
  fun other => absurd (container.symm.trans other) nofun

/-! ## Trees -/

/-- Only containers hold anything in a tree exactly if this is so where the tree stands. -/
theorem WellLinked.isContained_iff (linked : doc.WellLinked) : ∀ id, doc.IsLive id →
    ((doc.tree id).IsContained ↔ ∀ other ∈ doc.preorder id, doc.Fits other) := by
  refine linked.induction ?_
  intro id live ih
  have below : (∀ tree ∈ (doc.children id).map doc.tree, tree.IsContained) ↔
      ∀ other ∈ (doc.children id).flatMap doc.preorder, doc.Fits other := by
    have each : ∀ child ∈ doc.children id,
        ((doc.tree child).IsContained ↔ ∀ other ∈ doc.preorder child, doc.Fits other) := ih
    simp only [List.forall_mem_map, List.mem_flatMap, forall_exists_index, and_imp]
    exact ⟨fun all other child member => (each child member).mp (all child member) other,
      fun all child member => (each child member).mpr fun other => all other child member⟩
  rw [linked.tree_eq live, linked.preorder_eq live, Tree.isContained_iff, below,
    List.forall_mem_cons, List.map_eq_nil_iff]
  rfl

theorem OnlyContainersHold.tree (only : doc.OnlyContainersHold) (linked : doc.WellLinked)
    (attached : doc.isAttached id = true) : (doc.tree id).IsContained := by
  have live := linked.live_of_isAttached attached
  refine (linked.isContained_iff id live).mpr fun other inner => only other ?_
  obtain ⟨liveO, above⟩ := (linked.mem_preorder_iff live).mp inner
  exact linked.isAttached_below liveO above attached

theorem onlyContainersHold_of_tree (linked : doc.WellLinked)
    (contained : (doc.tree root).IsContained) : doc.OnlyContainersHold := by
  intro id attached
  refine (linked.isContained_iff root linked.root_live).mp contained id ?_
  exact (linked.mem_preorder_iff linked.root_live).mpr (linked.isAttached_iff.mp attached)

/-- A document that is made of drafts holds what the drafts hold. -/
theorem onlyContainersHold_ofDraft {draft : Xml.DocumentDraft}
    (contained : ∀ tree ∈ Xml.Draft.toTrees draft.nodes, tree.IsContained) :
    (ofDraft draft).OnlyContainersHold := by
  refine onlyContainersHold_of_tree (wellLinked_ofDraft draft) ?_
  rw [tree_ofDraft]
  exact .node nofun contained

/-! ## Steps -/

theorem SameLinks.fits (same : SameLinks doc doc')
    (kinds : (doc'.kind id).isContainer = (doc.kind id).isContainer) (fits : doc.Fits id) :
    doc'.Fits id := by
  rw [Fits, kinds, same.children_eq]
  exact fits

theorem isContainer_modifyAttributes (change : List Attribute → List Attribute) (other : NodeId) :
    ((doc.modifyAttributes id change).kind other).isContainer = (doc.kind other).isContainer := by
  rw [Document.modifyAttributes, kind_modifyKind]
  split
  · cases doc.kind other <;> rfl
  · rfl

theorem Pruned.fits (pruned : Pruned doc doc' gone) (linked : doc.WellLinked)
    (live' : doc'.IsLive id) (fits : doc.Fits id) : doc'.Fits id := by
  intro other
  rw [pruned.kind_eq id live'] at other
  have childless := fits other
  by_contra some
  obtain ⟨child, member⟩ := List.exists_mem_of_ne_nil _ some
  obtain ⟨liveC, above⟩ := pruned.linked.child live' member
  rw [pruned.parent_eq child liveC] at above
  have listed := (linked.listed (pruned.live liveC) above).2
  rw [childless] at listed
  cases listed

theorem Extended.fits (extended : Extended doc doc' parent id kind)
    (container : (doc.kind parent).isContainer = true) (live : doc.IsLive other)
    (fits : doc.Fits other) : doc'.Fits other := by
  by_cases same : other = parent
  · subst same
    exact fits_of_container (by rw [extended.kind_kept _ live, container])
  · rw [Fits, extended.kind_kept other live, extended.children_kept other live same]
    exact fits

namespace OnlyContainersHold

variable (only : doc.OnlyContainersHold)
include only

theorem of_sameLinks (same : SameLinks doc doc')
    (kinds : ∀ id, (doc'.kind id).isContainer = (doc.kind id).isContainer) :
    doc'.OnlyContainersHold := by
  intro other attached
  rw [same.isAttached_eq] at attached
  exact same.fits (kinds other) (only other attached)

theorem modifyKind (live : doc.IsLive id) {change : NodeKind → NodeKind}
    (keeps : ∀ kind, (change kind).isContainer = kind.isContainer) :
    (doc.modifyKind id change).OnlyContainersHold := by
  refine only.of_sameLinks (.modifyKind live change) fun other => ?_
  rw [kind_modifyKind]
  split
  · exact keeps _
  · rfl

theorem modifyAttributes (live : doc.IsLive id) (change : List Attribute → List Attribute) :
    (doc.modifyAttributes id change).OnlyContainersHold :=
  only.of_sameLinks (.modifyAttributes live change) (isContainer_modifyAttributes change)

theorem rename (live : doc.IsLive id) (name : QName) (uri : Option String) :
    (doc.rename id name uri).OnlyContainersHold := by
  unfold Document.rename
  exact only.modifyKind live fun kind => by cases kind <;> rfl

theorem setContent (live : doc.IsLive id) (content : String) :
    (doc.setContent id content).OnlyContainersHold := by
  unfold Document.setContent
  exact only.modifyKind live fun kind => by cases kind <;> rfl

theorem pruned (pruned : Pruned doc doc' gone) (linked : doc.WellLinked) :
    doc'.OnlyContainersHold := by
  intro other attached
  obtain ⟨live', reached⟩ := pruned.linked.isAttached_iff.mp attached
  rw [pruned.ancestors_eq linked live'] at reached
  exact pruned.fits linked live'
    (only other (linked.isAttached_iff.mpr ⟨pruned.live live', reached⟩))

theorem grow (linked : doc.WellLinked) (live : doc.IsLive parent)
    (container : (doc.kind parent).isContainer = true) (kind : NodeKind) :
    (doc.grow parent kind).OnlyContainersHold := by
  have more := extended_grow linked live kind
  generalize doc.grow parent kind = doc' at *
  generalize (doc.create kind).1 = fresh at more
  intro other attached
  obtain ⟨live', reached⟩ := more.linked.isAttached_iff.mp attached
  rcases (more.live_iff other).mp live' with rfl | liveO
  · exact fun _ => more.children_new
  · rw [more.ancestors_kept linked liveO] at reached
    exact more.fits container liveO (only other (linked.isAttached_iff.mpr ⟨liveO, reached⟩))

end OnlyContainersHold
end Document
end Markup
