import Markup.Proofs.Workspace.Assign
import Markup.Proofs.Workspace.Kept
import Markup.Proofs.Xml.Resolved

/-!
# Attributes without a prefix

An attribute without a prefix is in no namespace. This is so in every document that is parsed,
strictly or leniently, and whatever is called on handles, it stays so.
-/

namespace Markup

open Document

/-! ## All attributes of a document -/

namespace Document

variable {doc doc' : Document} {sort : Attribute → Prop} {id parent child : NodeId}

/-- Whether all attributes that a document holds are of some sort. -/
def HasOnly (doc : Document) (sort : Attribute → Prop) : Prop :=
  ∀ id, ∀ attr ∈ doc.attributes id, sort attr

namespace HasOnly

theorem of_kinds (only : doc.HasOnly sort) (same : ∀ id, doc'.kind id = doc.kind id) :
    doc'.HasOnly sort := by
  intro id
  rw [attributes, same]
  exact only id

theorem create (only : doc.HasOnly sort) {kind : NodeKind}
    (own : ∀ attr ∈ kind.attributes, sort attr) : (doc.create kind).2.HasOnly sort := by
  have shown : ∀ id, (doc.create kind).2.kind id = kind ∨
      (doc.create kind).2.kind id = doc.kind id := by
    intro id
    cases freed : doc.free with
    | nil =>
      by_cases new : id.index = doc.slots.size
      · exact .inl (by simp [Document.create, freed, Document.kind, slot, new])
      · exact .inr (by
          simp [Document.create, freed, Document.kind, slot, Array.getD_eq_getD_getElem?,
            Array.getElem?_push, new])
    | cons index rest =>
      by_cases same : id.index = index
      · by_cases inside : index < doc.slots.size
        · exact .inl (by simp [Document.create, freed, Document.kind, slot, same, inside])
        · exact .inr (by simp [Document.create, freed, Document.kind, slot, same, inside])
      · exact .inr (by simp [Document.create, freed, Document.kind, slot, Ne.symm same])
  intro id
  rw [attributes]
  rcases shown id with new | old
  · rw [new]
    exact own
  · rw [old]
    exact only id

theorem modifyKind (only : doc.HasOnly sort) {change : NodeKind → NodeKind}
    (keeps : ∀ kind, (∀ attr ∈ kind.attributes, sort attr) →
      ∀ attr ∈ (change kind).attributes, sort attr) : (doc.modifyKind id change).HasOnly sort := by
  intro other
  rw [attributes, kind_modifyKind]
  split
  · exact keeps _ (only other)
  · exact only other

theorem modifyAttributes (only : doc.HasOnly sort) {change : List Attribute → List Attribute}
    (keeps : ∀ attributes, (∀ attr ∈ attributes, sort attr) →
      ∀ attr ∈ change attributes, sort attr) : (doc.modifyAttributes id change).HasOnly sort := by
  unfold Document.modifyAttributes
  refine only.modifyKind fun kind own => ?_
  cases kind with
  | element name uri attributes => exact keeps attributes own
  | _ => exact own

theorem rename (only : doc.HasOnly sort) (name : QName) (uri : Option String) :
    (doc.rename id name uri).HasOnly sort := by
  unfold Document.rename
  exact only.modifyKind fun kind own => by cases kind <;> exact own

theorem setContent (only : doc.HasOnly sort) (content : String) :
    (doc.setContent id content).HasOnly sort := by
  unfold Document.setContent
  exact only.modifyKind fun kind own => by cases kind <;> exact own

theorem removeAttribute (only : doc.HasOnly sort) (localName : String) (uri : Option String) :
    (doc.removeAttribute id localName uri).2.HasOnly sort :=
  only.modifyAttributes fun _ own attr member => own attr (List.mem_of_mem_filter member)

theorem setAttribute (only : doc.HasOnly sort) {attr : Attribute} (fits : sort attr) :
    (doc.setAttribute id attr).HasOnly sort := by
  refine only.modifyAttributes fun attributes own other member => ?_
  rcases Attribute.mem_putIn member with rfl | listed
  · exact fits
  · exact own other listed

/-- Nothing else comes in while a document grows. -/
theorem isKept : IsKept sort (HasOnly · sort) where
  create only own := only.create own
  appendChild _ _ only := only.of_kinds fun _ => kind_appendChild
  insertBefore _ _ only := only.of_kinds fun _ => kind_insertBefore
  setAttribute _ _ only fits := only.setAttribute fits

theorem place (only : doc.HasOnly sort) (target node : NodeId) (placement : Placement) :
    (doc.place target node placement).HasOnly sort := by
  cases placement with
  | lastChild => exact isKept.appendChild target node only
  | before => exact isKept.insertBefore target node only
  | after =>
    rw [Document.place, insertAfter]
    split
    · exact isKept.insertBefore _ node only
    · split
      · exact isKept.appendChild _ node only
      · exact only

/-- A slot that is freed holds nothing any more. -/
theorem remove (only : doc.HasOnly sort) (id : NodeId) : (doc.remove id).2.HasOnly sort := by
  unfold Document.remove
  split
  · exact only
  · have detached : (doc.detach id).HasOnly sort := only.of_kinds fun _ => kind_detach
    intro other
    rw [attributes, Document.kind, slot_releaseAll]
    split
    · exact List.forall_mem_nil _
    · exact detached other

theorem removeAll (only : doc.HasOnly sort) (ids : List NodeId) :
    (doc.removeAll ids).2.HasOnly sort := by
  rw [Document.removeAll]
  generalize 0 = count
  induction ids generalizing doc count with
  | nil => exact only
  | cons id rest ih => exact ih (only.remove id) _

theorem tree (only : doc.HasOnly sort) (id : NodeId) : (doc.tree id).HasOnly sort := by
  have each : ∀ depth id, (doc.treeTo depth id).HasOnly sort := by
    intro depth
    induction depth with
    | zero => exact fun id => .node (only id) (List.forall_mem_nil _)
    | succ depth ih =>
      refine fun id => .node (only id) fun child member => ?_
      obtain ⟨below, -, rfl⟩ := List.mem_map.mp member
      exact ih below
  exact each _ id

end HasOnly

theorem hasOnly_empty : empty.HasOnly sort := by
  intro id
  rw [attributes, kind_empty]
  exact List.forall_mem_nil _

theorem hasOnly_ofDraft {draft : Xml.DocumentDraft}
    (only : ∀ node ∈ draft.nodes, node.toTree.HasOnly sort) : (ofDraft draft).HasOnly sort :=
  HasOnly.isKept.addDrafts draft.nodes (hasOnly_empty.of_kinds fun _ => rfl) only

end Document

/-! ## Parsing -/

theorem Xml.Resolved.needsPrefix {scope : Scope} {tree : Tree} (resolved : Resolved scope tree) :
    tree.HasOnly Attribute.NeedsPrefix := by
  induction tree using Tree.induction generalizing scope with
  | node kind children ih =>
    obtain ⟨own, below⟩ := resolved
    refine .node ?_ fun child member => ih child member (resolvedAll_iff.mp below child member)
    cases kind with
    | element name uri attributes =>
      intro attr listed bare
      rw [own.listed attr listed, Scope.uriOf, bare]
      cases attr.isDeclaration <;> rfl
    | _ => exact List.forall_mem_nil _

namespace Document

variable {doc doc' : Document} {id : NodeId}

theorem needsPrefix_ofXml {options : Xml.ParseOptions} {text : String}
    (parsed : ofXml options text = .ok doc) : doc.HasOnly Attribute.NeedsPrefix := by
  obtain ⟨draft, read, rfl⟩ := map_eq_ok.mp parsed
  exact hasOnly_ofDraft fun node listed => (Xml.resolved_of_parse read node listed).needsPrefix

theorem needsPrefix_ofHtml {options : Html.ParseOptions} {text : String}
    (parsed : Html.parse options text = .ok doc) : doc.HasOnly Attribute.NeedsPrefix := by
  have kept : IsKept Attribute.NeedsPrefix (HasOnly · Attribute.NeedsPrefix) := HasOnly.isKept
  obtain ⟨built, only, same⟩ :=
    Html.kept_parse kept (fun _ bare _ => bare) hasOnly_empty parsed
  refine only.of_kinds fun id => ?_
  rw [same]
  rfl

end Document

/-- A document begins with no other attributes, however it was parsed. -/
theorem IsBeginning.needsPrefix {doc : Document} (beginning : IsBeginning doc) :
    doc.HasOnly Attribute.NeedsPrefix :=
  beginning.of_parsed hasOnly_empty needsPrefix_ofXml needsPrefix_ofHtml
    fun only slots _ => only.of_kinds fun id => by rw [Document.kind, slot, slots]; rfl

/-! ## Changes through handles -/

namespace Document

variable {doc doc' : Document} {id : NodeId}

namespace HasOnly

variable (only : doc.HasOnly Attribute.NeedsPrefix)
include only

theorem retag {written : String} (changed : doc.retag id written = .ok doc') :
    doc'.HasOnly Attribute.NeedsPrefix := by
  unfold Document.retag at changed
  split at changed
  · obtain ⟨name, -, changed⟩ := bind_eq_ok.mp changed
    split at changed
    · obtain ⟨found, -, changed⟩ := bind_eq_ok.mp changed
      cases changed
      exact only.rename _ _
    · cases changed
      exact only.rename _ _
  · cases changed

/-- An attribute that is set is in the namespace of its prefix, if it has one. -/
theorem assign {written value : String} {given : Option String}
    (changed : doc.assign id written given value = .ok doc') :
    doc'.HasOnly Attribute.NeedsPrefix := by
  obtain ⟨attr, sets, -, rfl⟩ := exists_of_assign changed
  refine only.setAttribute fun bare => ?_
  rw [sets.bound, bare]
  rfl

theorem unassign (written : String) : (doc.unassign id written).HasOnly Attribute.NeedsPrefix := by
  unfold Document.unassign
  split
  · exact only.removeAttribute _ _
  · split
    · exact only.removeAttribute _ _
    · exact only

theorem extend {kind : NodeKind} (bare : kind.attributes = []) :
    (doc.extend id kind).2.HasOnly Attribute.NeedsPrefix :=
  isKept.grow only (bare ▸ nofun)

theorem replaceText {value : String} (changed : doc.replaceText id value = .ok doc') :
    doc'.HasOnly Attribute.NeedsPrefix := by
  obtain ⟨passed, -, changed⟩ := bind_eq_ok.mp changed
  have emptied : (doc.removeChildren id).2.HasOnly Attribute.NeedsPrefix := only.removeAll _
  split at changed
  · split at changed
    · cases changed
      exact emptied
    · cases changed
      exact isKept.grow emptied nofun
  · cases changed
    exact only.setContent value
  · cases changed
    exact only.setContent value
  · obtain ⟨passed', -, changed⟩ := bind_eq_ok.mp changed
    cases changed
    exact only.setContent value
  · cases changed

theorem change {mutation : Mutation} (changed : mutation.change doc id = .ok doc') :
    doc'.HasOnly Attribute.NeedsPrefix := by
  cases mutation with
  | setTag written => exact only.retag changed
  | setAttribute written given value => exact only.assign changed
  | removeAttribute written =>
    cases changed
    exact only.unassign written
  | removeAttributeIn localName given =>
    cases changed
    exact only.removeAttribute _ _
  | setText value => exact only.replaceText changed
  | addText value =>
    obtain ⟨result, extended, rfl⟩ := map_eq_ok.mp changed
    obtain ⟨passed, -, extended⟩ := bind_eq_ok.mp extended
    obtain ⟨passed', -, extended⟩ := bind_eq_ok.mp extended
    cases extended
    exact only.extend rfl
  | addElement written =>
    obtain ⟨result, extended, rfl⟩ := map_eq_ok.mp changed
    obtain ⟨passed, -, extended⟩ := bind_eq_ok.mp extended
    obtain ⟨name, -, extended⟩ := bind_eq_ok.mp extended
    split at extended
    · obtain ⟨found, -, extended⟩ := bind_eq_ok.mp extended
      cases extended
      exact only.extend rfl
    · cases extended
      exact only.extend rfl
  | empty =>
    cases changed
    exact only.removeAll _
  | removeChildren localName given =>
    cases changed
    exact only.removeAll _
  | remove =>
    cases changed
    exact only.remove id

/-- What is declared at a node has no namespace of its own. -/
theorem settle (needed : List (Option String × String)) :
    (doc.settle id needed).HasOnly Attribute.NeedsPrefix := by
  have declared : ∀ nsPrefix uri, (Attribute.declaration nsPrefix uri).NeedsPrefix := by
    rintro (_ | nsPrefix) uri _ <;> rfl
  refine only.modifyAttributes fun attributes own attr member => ?_
  rcases List.mem_append.mp member with missing | listed
  · rcases List.mem_append.mp missing with lost | blank
    · obtain ⟨binding, -, rfl⟩ := List.mem_map.mp lost
      exact declared _ _
    · split at blank
      · obtain rfl := List.mem_singleton.mp blank
        exact declared _ _
      · cases blank
  · exact own attr listed

theorem move {target node : NodeId} {placement : Placement}
    (moved : doc.move target node placement = .ok doc') : doc'.HasOnly Attribute.NeedsPrefix := by
  obtain ⟨passed, -, moved⟩ := bind_eq_ok.mp moved
  obtain ⟨passed', -, moved⟩ := bind_eq_ok.mp moved
  obtain ⟨passed'', -, moved⟩ := bind_eq_ok.mp moved
  cases moved
  have detached : (doc.detach node).HasOnly Attribute.NeedsPrefix :=
    only.of_kinds fun _ => kind_detach
  exact (detached.place target node placement).settle _

theorem copyIn {target : NodeId} {tree : Tree} {needed : List (Option String × String)}
    {placement : Placement} {result : NodeId × Document}
    (whole : tree.HasOnly Attribute.NeedsPrefix)
    (copied : doc.copyIn target tree needed placement = .ok result) :
    result.2.HasOnly Attribute.NeedsPrefix := by
  obtain ⟨passed, -, copied⟩ := bind_eq_ok.mp copied
  cases copied
  exact ((isKept.graft only whole).place target _ placement).settle _

end HasOnly
end Document

theorem Document.keptByHandles_needsPrefix :
    KeptByHandles (HasOnly · Attribute.NeedsPrefix) where
  change only _ changed := only.change changed
  move only _ moved := only.move moved
  copyIn only only' _ _ copied := only.copyIn (only'.tree _) copied

/-! ## Deeds -/

namespace Workspace

variable {workspace : Workspace}

/-- Whether all attributes without a prefix are in no namespace, in all open documents. -/
def NeedsPrefixes (workspace : Workspace) : Prop :=
  ∀ number, (workspace.tree number).HasOnly Attribute.NeedsPrefix

/-- Whatever is done through handles, an attribute without a prefix is in no namespace. -/
theorem NeedsPrefixes.afterDeeds (only : workspace.NeedsPrefixes) {deeds : List Deed}
    (handled : ∀ deed ∈ deeds, deed.IsThroughHandles) :
    (workspace.afterDeeds deeds).NeedsPrefixes :=
  all_afterDeeds keptByHandles_needsPrefix only handled

theorem needsPrefixes_of_beginnings
    (beginning : ∀ number < workspace.documents.size, IsBeginning (workspace.tree number)) :
    workspace.NeedsPrefixes :=
  all_of_beginnings IsBeginning.needsPrefix beginning

end Workspace
end Markup
