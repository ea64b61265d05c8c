import Markup.Proofs.Workspace.Arrive
import Markup.Proofs.Workspace.Assign
import Markup.Proofs.Workspace.Kept
import Markup.Proofs.Xml.Resolved

/-!
# Documents in which only containers hold anything

Every document that is parsed, strictly or leniently, has nodes only below elements and the document
node, and whatever is called on handles, it stays so.
-/

namespace Markup

namespace Document

variable {doc doc' : Document} {id host node : NodeId} {tree : Tree}

/-! ## Parsing -/

/-- Whatever is read and however a parser recovers from problems, only elements get children. -/
theorem keptByParse_isContained : Xml.KeptByParse fun _ tree => tree.IsContained where
  node {scope kind children} resolved leaf below := by
    refine .node (fun other => leaf (Bool.eq_false_iff.mpr fun isElement => ?_)) below
    exact Bool.eq_false_iff.mp other (NodeKind.isContainer_of_isElement isElement)

theorem onlyContainersHold_ofXml {options : Xml.ParseOptions} {text : String}
    (parsed : ofXml options text = .ok doc) : doc.OnlyContainersHold := by
  obtain ⟨draft, read, rfl⟩ := map_eq_ok.mp parsed
  exact onlyContainersHold_ofDraft (Xml.kept_of_parse keptByParse_isContained read).trees

/-! ## Changes through handles -/

namespace OnlyContainersHold

variable (only : doc.OnlyContainersHold) (linked : doc.WellLinked) (live : doc.IsLive id)
include only live

theorem retag {written : String} (changed : doc.retag id written = .ok doc') :
    doc'.OnlyContainersHold := by
  unfold Document.retag at changed
  split at changed
  · obtain ⟨name, -, changed⟩ := bind_eq_ok.mp changed
    split at changed
    · obtain ⟨found, -, changed⟩ := bind_eq_ok.mp changed
      cases changed
      exact only.rename live _ _
    · cases changed
      exact only.rename live _ _
  · cases changed

theorem unassign (written : String) : (doc.unassign id written).OnlyContainersHold := by
  unfold Document.unassign
  split
  · exact only.modifyAttributes live _
  · split
    · exact only.modifyAttributes live _
    · exact only

include linked

theorem removeAll {ids : List NodeId} (below : ids ⊆ doc.children id) :
    (doc.removeAll ids).2.OnlyContainersHold :=
  only.pruned (linked.pruned_all (linked.removable_of_children live below)) linked

theorem extend (isElement : (doc.kind id).isElement = true) (kind : NodeKind) :
    (doc.extend id kind).2.OnlyContainersHold :=
  only.grow linked live (NodeKind.isContainer_of_isElement isElement) kind

theorem replaceText {value : String} (changed : doc.replaceText id value = .ok doc') :
    doc'.OnlyContainersHold := by
  obtain ⟨passed, -, changed⟩ := bind_eq_ok.mp changed
  split at changed
  · rename_i kind
    have pruned : Pruned doc (doc.removeChildren id).2 (doc.children id) :=
      linked.pruned_all (linked.removable_of_children live (List.Subset.refl _))
    have emptied : (doc.removeChildren id).2.OnlyContainersHold := only.pruned pruned linked
    split at changed
    · cases changed
      exact emptied
    · cases changed
      have kept : (doc.removeChildren id).2.IsLive id :=
        (pruned.live_iff id).mpr ⟨live, fun child member above =>
          linked.ne_of_above live member above rfl⟩
      refine emptied.grow pruned.linked kept ?_ (.text value)
      rw [pruned.kind_eq id kept, kind]
      rfl
  · cases changed
    exact only.setContent live value
  · cases changed
    exact only.setContent live value
  · obtain ⟨passed', -, changed⟩ := bind_eq_ok.mp changed
    cases changed
    exact only.setContent live value
  · cases changed

omit live in
/-- A call leaves all nodes below containers. -/
theorem change (attached : doc.isAttached id = true) {mutation : Mutation}
    (changed : mutation.change doc id = .ok doc') : doc'.OnlyContainersHold := by
  have live := linked.live_of_isAttached attached
  cases mutation with
  | setTag written => exact only.retag live changed
  | setAttribute written given value =>
    obtain ⟨attr, -, -, rfl⟩ := exists_of_assign changed
    exact only.modifyAttributes live _
  | removeAttribute written =>
    cases changed
    exact only.unassign live written
  | removeAttributeIn localName given =>
    cases changed
    exact only.modifyAttributes live _
  | setText value => exact only.replaceText linked live changed
  | addText value =>
    obtain ⟨result, extended, rfl⟩ := map_eq_ok.mp changed
    obtain ⟨passed, isElement, extended⟩ := bind_eq_ok.mp extended
    obtain ⟨passed', -, extended⟩ := bind_eq_ok.mp extended
    cases extended
    exact only.extend linked live (of_demand isElement) _
  | addElement written =>
    obtain ⟨result, extended, rfl⟩ := map_eq_ok.mp changed
    obtain ⟨passed, isElement, extended⟩ := bind_eq_ok.mp extended
    obtain ⟨name, -, extended⟩ := bind_eq_ok.mp extended
    split at extended
    · obtain ⟨found, -, extended⟩ := bind_eq_ok.mp extended
      cases extended
      exact only.extend linked live (of_demand isElement) _
    · cases extended
      exact only.extend linked live (of_demand isElement) _
  | empty =>
    cases changed
    exact only.removeAll linked live (List.Subset.refl _)
  | removeChildren localName given =>
    cases changed
    exact only.removeAll linked live fun _ => List.mem_of_mem_filter
  | remove =>
    cases changed
    by_cases isRoot : id = root
    · subst isRoot
      intro other attached
      rw [linked.not_isAttached_remove_root other] at attached
      cases attached
    · exact only.pruned (linked.pruned_remove live isRoot) linked

end OnlyContainersHold

/-- What arrives below an element leaves all nodes below containers. -/
theorem Arrived.onlyContainersHold (arrived : Arrived doc doc' host node tree)
    (only : doc.OnlyContainersHold) (contained : tree.IsContained)
    (isElement : (doc.kind host).isElement = true) : doc'.OnlyContainersHold := by
  intro other attached
  by_cases inside : node ∈ doc'.ancestors other
  · have live := arrived.linked.live_of_isAttached arrived.attached
    refine (arrived.linked.isContained_iff node live).mp (arrived.tree_eq ▸ contained) other ?_
    exact (arrived.linked.mem_preorder_iff live).mpr
      ⟨arrived.linked.live_of_isAttached attached, inside⟩
  · by_cases same : other = host
    · subst same
      refine fits_of_container (NodeKind.isContainer_of_isElement ?_)
      rw [arrived.kind_eq other attached inside, isElement]
    · intro plain
      rw [arrived.kind_eq other attached inside] at plain
      have childless := only other (arrived.attached_before other attached inside) plain
      exact List.subset_nil.mp (childless ▸ arrived.fewer other attached inside same)

/-- Whether the links of a document are in step and only containers hold anything in it, unless the
document node was removed and there is nothing in it at all. -/
inductive IsContained (doc : Document) : Prop
  | whole (linked : doc.WellLinked) (only : doc.OnlyContainersHold)
  | gone (nothing : ∀ id, doc.isAttached id = false)

namespace IsContained

theorem onlyContainersHold (contained : doc.IsContained) : doc.OnlyContainersHold := by
  cases contained with
  | whole _ only => exact only
  | gone nothing => exact fun id attached => absurd ((nothing id).symm.trans attached) nofun

theorem linked (contained : doc.IsContained) (attached : doc.isAttached id = true) :
    doc.WellLinked := by
  cases contained with
  | whole linked _ => exact linked
  | gone nothing => exact absurd ((nothing id).symm.trans attached) nofun

end IsContained

/-- What arrived below an element may be given declarations. -/
theorem Arrived.isContained_settle (arrived : Arrived doc doc' host node tree)
    (only : doc.OnlyContainersHold) (contained : tree.IsContained)
    (isElement : (doc.kind host).isElement = true) (needed : List (Option String × String)) :
    (doc'.settle node needed).IsContained := by
  have live := arrived.linked.live_of_isAttached arrived.attached
  have links : SameLinks doc' (doc'.settle node needed) := .modifyAttributes live _
  exact .whole (links.wellLinked arrived.linked)
    ((arrived.onlyContainersHold only contained isElement).modifyAttributes live _)

theorem keptByHandles_isContained : KeptByHandles IsContained where
  change {doc doc' id mutation} contained attached changed := by
    have linked := contained.linked attached
    by_cases erases : mutation = .remove ∧ id = root
    · obtain ⟨rfl, rfl⟩ := erases
      cases changed
      exact .gone linked.not_isAttached_remove_root
    · have performs := Mutation.performs linked (linked.live_of_isAttached attached)
        (fun removal isRoot => erases ⟨removal, isRoot⟩)
      rw [changed] at performs
      exact .whole performs.linked (contained.onlyContainersHold.change linked attached changed)
  move contained attached moved := by
    have linked := contained.linked attached
    have only := contained.onlyContainersHold
    obtain ⟨host, middle, attachedN, -, isElement, arrived, rfl⟩ :=
      exists_arrived_of_move linked attached moved
    exact arrived.isContained_settle only (only.tree linked attachedN) isElement _
  copyIn {doc source target node needed placement result} contained contained' attached attachedN
      copied := by
    have linked := contained.linked attached
    have taken := contained'.onlyContainersHold.tree (contained'.linked attachedN) attachedN
    obtain ⟨copy, changed⟩ := result
    obtain ⟨host, middle, -, isElement, arrived, rfl⟩ :=
      exists_arrived_of_copyIn linked attached copied
    exact arrived.isContained_settle contained.onlyContainersHold taken isElement _

end Document

/-- Only containers hold anything in the document that a run begins with. -/
theorem IsBeginning.isContained {doc : Document} (beginning : IsBeginning doc) :
    doc.IsContained := by
  refine .whole beginning.sound.1 (beginning.of_parsed Document.onlyContainersHold_empty
    Document.onlyContainersHold_ofXml Html.onlyContainersHold_parse fun only slots free => ?_)
  exact only.of_sameLinks (.of_slots slots free) fun id => by
    rw [Document.kind, Document.kind, Document.slot, Document.slot, slots]

/-- Whatever is done through handles to documents that were parsed, nodes stand only below elements
and the document node. -/
theorem Workspace.onlyContainersHold_afterDeeds {workspace : Workspace}
    (beginning : ∀ number < workspace.documents.size, IsBeginning (workspace.tree number))
    {deeds : List Deed} (handled : ∀ deed ∈ deeds, deed.IsThroughHandles) (number : Nat) :
    ((workspace.afterDeeds deeds).tree number).OnlyContainersHold :=
  (all_afterDeeds Document.keptByHandles_isContained
    (all_of_beginnings IsBeginning.isContained beginning) handled number).onlyContainersHold

end Markup
