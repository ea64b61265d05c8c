import Markup.Proofs.Workspace.Arrive
import Markup.Proofs.Workspace.Portable
import Markup.Proofs.Workspace.Settle

/-!
# Insertions into portable documents

What is taken out of a portable document brings along the bindings that it needs. A portable
document that receives it stays portable, unless a default namespace reaches what is in none. When an
element with a prefix arrives below a default namespace, this captures each element in no namespace
that it exposes, since only a topmost element in no namespace is kept out of a default namespace.
-/

namespace Markup.Document

open Attribute

variable {doc doc' middle : Document} {top id host node other parent : NodeId} {tree : Tree}
  {outer needed : List (Option String × String)}

/-! ## What is taken along -/

/-- The bindings that an element takes along are those that its tree relies on and that are declared
above it. -/
theorem WellLinked.needed_inheritedBindings (linked : doc.WellLinked)
    (plain : (doc.kind root).isElement = false) (isElement : (doc.kind id).isElement = true)
    (above : doc.parent id = some parent)
    (proper : parent = root ∨ (doc.kind parent).isElement = true) :
    Needed (doc.declarations parent) (doc.tree id) (doc.inheritedBindings id) := by
  by_cases inner : (doc.kind parent).isElement = true
  · have unfolded : doc.inheritedBindings id = (doc.namespaces parent).filter fun pair =>
        (doc.tree id).used.contains pair.1 &&
          !((doc.attributes id).filterMap declared?).contains pair.1 && pair.2 != xmlNamespace := by
      rw [inheritedBindings, above, Option.filter_some_pos (by exact inner), isElement]
      rfl
    have keys : (doc.attributes id).filterMap declared? =
        (bindings (doc.tree id).kind.attributes).map (·.1) := by
      rw [kind_tree, bindings, List.map_filterMap, attributes]
      refine List.filterMap_congr fun attr _ => ?_
      cases declares : attr.declared? <;> simp [Attribute.binding?, declares]
    refine ⟨fun {nsPrefix uri} => ?_, ?_⟩
    · rw [unfolded, List.mem_filter, mem_namespaces, keys]
      simp only [Bool.and_eq_true, List.contains_iff_mem, Bool.not_eq_true', bne_iff_ne]
      rw [← Bool.not_eq_true, List.contains_iff_mem, ← lookup_isSome_iff,
        Option.not_isSome_iff_eq_none]
      tauto
    · rw [unfolded]
      exact (List.filter_sublist.map _).nodup (nodup_namespaces doc parent)
  · obtain rfl := proper.resolve_right inner
    have unfolded : doc.inheritedBindings id = [] := by
      rw [inheritedBindings, above, Option.filter_some_neg (by simpa using inner)]
    rw [unfolded, declarations_root linked plain]
    exact ⟨fun {nsPrefix uri} => by simp, List.nodup_nil⟩

namespace Portable

/-- What is declared above a node of the tree can be declared anywhere. -/
theorem isDeclarable (portable : doc.Portable top) (attached : doc.isAttached id = true) :
    ∀ pair ∈ doc.declarations id, IsDeclarable pair.1 pair.2 := by
  intro pair listed
  obtain ⟨above, path, binds⟩ := List.mem_flatMap.mp listed
  obtain ⟨attr, member, declares, value⟩ := exists_of_mem_bindings binds
  have attachedA := portable.linked.isAttached_above attached path
  cases kind : doc.kind above with
  | element name uri attributes =>
    have stands := portable.stands attachedA (by rw [kind]; rfl)
    have own : doc.attributes above = attributes := by
      rw [Document.attributes, kind, NodeKind.attributes]
    have reserved := stands.reserved pair (by rw [kind, NodeKind.attributes, ← own]; exact binds)
    have sound := stands.sound
    rw [kind] at sound
    rw [own] at member
    refine ⟨fun bound => ?_, reserved.1, reserved.2⟩
    rw [← value]
    exact (sound.listed attr member).declaration declares bound
  | _ => simp [attributes, kind, NodeKind.attributes] at member

theorem needed_inheritedBindings (portable : doc.Portable top)
    (isElement : (doc.kind id).isElement = true) (above : doc.parent id = some parent)
    (proper : parent = root ∨ (doc.kind parent).isElement = true) :
    Needed (doc.declarations parent) (doc.tree id) (doc.inheritedBindings id) :=
  portable.linked.needed_inheritedBindings portable.plain isElement above proper

end Portable

/-! ## What is declared there -/

theorem missingDeclarations_eq : doc.missingDeclarations id needed =
    declarationsOf (added (doc.namespaceOf? id)
      ((doc.kind id).nsPrefix?.isNone && (doc.kind id).uri?.isNone) needed) := by
  rw [missingDeclarations, added, declarationsOf, List.map_append]
  congr 1
  split <;> rfl

/-! ## The tree with its declarations -/

/-- A node of which only the topmost one is changed. -/
theorem tree_modifyKind (linked : doc.WellLinked) (live : doc.IsLive id)
    (change : NodeKind → NodeKind) : (doc.modifyKind id change).tree id =
      .node (change (doc.kind id)) ((doc.children id).map doc.tree) := by
  have links := SameLinks.modifyKind live change
  have linked' := links.wellLinked linked
  have live' : ∀ {other}, doc.IsLive other → (doc.modifyKind id change).IsLive other :=
    links.use.live_iff.mpr
  rw [linked'.tree_eq (live' live), kind_modifyKind, if_pos ⟨rfl, live.lt_size⟩, links.children_eq]
  congr 1
  refine List.map_congr_left fun child member => ?_
  have liveC := linked.live_of_mem_children live member
  refine tree_congr linked linked' liveC fun other inner => ?_
  obtain ⟨liveO, above⟩ := (linked.mem_preorder_iff liveC).mp inner
  refine ⟨live' liveO, ?_, by rw [links.children_eq]⟩
  rw [kind_modifyKind, if_neg]
  rintro ⟨same, -⟩
  obtain rfl := liveO.eq_of_index live same
  exact linked.ne_of_above live member above rfl

/-- Declarations change no links. -/
theorem SameLinks.settle (live : doc.IsLive id) (needed : List (Option String × String)) :
    SameLinks doc (doc.settle id needed) := .modifyAttributes live _

/-- Declarations are added to one node. -/
theorem kind_settle_of_ne (live : doc.IsLive id) (live' : doc.IsLive other) (apart : other ≠ id) :
    (doc.settle id needed).kind other = doc.kind other := by
  rw [settle, modifyAttributes, kind_modifyKind, if_neg]
  rintro ⟨same, -⟩
  exact apart (live'.eq_of_index live same)

/-- What arrives can be written at its new place, with the bindings that are declared there, unless a
default namespace reaches what is in none. -/
theorem Arrived.stands_settle (arrived : Arrived doc middle host node tree)
    (stands : tree.StandsIn outer) (declarable : ∀ pair ∈ outer, IsDeclarable pair.1 pair.2)
    (needs : tree.kind.isElement = true → Needed outer tree needed)
    (safe : tree.isExposed = true → tree.kind.nsPrefix?.isSome = true →
      middle.namespaceOf? host none = none) :
    ((middle.settle node needed).tree node).StandsIn (middle.declarations host) := by
  have linked := arrived.linked
  have live := linked.live_of_isAttached arrived.attached
  have tree_eq := arrived.tree_eq
  have scope := declarations_child linked live arrived.parent_eq
  rw [linked.tree_eq live] at tree_eq
  rw [settle, modifyAttributes, tree_modifyKind linked live, missingDeclarations_eq,
    namespaceOf?_eq_boundIn, scope, attributes]
  cases kind : middle.kind node with
  | element name uri attributes =>
    rw [kind] at tree_eq
    subst tree_eq
    exact stands.settle (needs rfl) declarable safe
  | _ =>
    rw [kind] at tree_eq
    subst tree_eq
    obtain ⟨sound, reserved, childless, -⟩ := stands
    refine ⟨sound, reserved, childless, ?_⟩
    rw [childless rfl]
    trivial

/-- Declaring what is missing on what arrived changes nothing else. -/
theorem Arrived.settle (arrived : Arrived doc middle host node tree) :
    Arrived doc (middle.settle node needed) host node ((middle.settle node needed).tree node) := by
  have linked := arrived.linked
  have live := linked.live_of_isAttached arrived.attached
  have links : SameLinks middle (middle.settle node needed) := .settle live _
  refine ⟨links.wellLinked linked, ?_, links.parent ▸ arrived.parent_eq, rfl, ?_, ?_, ?_, ?_⟩
  all_goals simp only [links.isAttached_eq, links.ancestors_eq, links.children_eq]
  · exact arrived.attached
  · exact arrived.attached_before
  · intro other attached outside
    have liveO := linked.live_of_isAttached attached
    refine (kind_settle_of_ne live liveO ?_).trans (arrived.kind_eq other attached outside)
    rintro rfl
    exact outside (HasShape.mem_ancestors_self linked liveO)
  · exact arrived.ancestors_eq
  · exact arrived.fewer

/-! ## Portable documents -/

namespace Arrived

variable (arrived : Arrived doc doc' host node tree)
include arrived

/-- What does not stand below the node stays. -/
theorem stays (isElement : (doc.kind host).isElement = true)
    (attached : doc'.isAttached other = true) (outside : node ∉ doc'.ancestors other) :
    Stays doc doc' other := by
  have kinds := arrived.kind_eq other attached outside
  refine ⟨arrived.attached_before other attached outside, ?_, fun plain childless => ?_, ?_⟩
  · rw [kinds]
    exact ⟨rfl, rfl, rfl⟩
  · refine List.subset_nil.mp (childless ▸ arrived.fewer other attached outside ?_)
    rintro rfl
    rw [isElement] at plain
    cases plain
  · rw [kinds, namespaceOf?_of_declarations (arrived.declarations_eq attached outside)]
    exact fun sound => sound

/-- What stands below the node can be written if its tree can. -/
theorem stands (stands : tree.StandsIn (doc.declarations host))
    (live : doc'.IsLive other) (below : node ∈ doc'.ancestors other) : doc'.Stands other := by
  have linked := arrived.linked
  have live' := linked.live_of_isAttached arrived.attached
  have scope := declarations_child linked live' arrived.parent_eq
  rw [arrived.declarations_eq arrived.attached_host arrived.not_mem_ancestors_host] at scope
  rw [← arrived.tree_eq] at stands
  exact (linked.stands_iff node live' _ scope).mp stands other
    ((linked.mem_preorder_iff live').mpr ⟨live, below⟩)

/-- A portable document in which something arrived that can be written at its place is portable. -/
theorem portable (portable : doc.Portable top) (isElement : (doc.kind host).isElement = true)
    (stands : tree.StandsIn (doc.declarations host)) : doc'.Portable top := by
  have linked := arrived.linked
  have inHost := arrived.attached_host
  have outsideHost := arrived.not_mem_ancestors_host
  -- The new parent is an element of the tree and so stands below the root element.
  have aboveHost : top ∈ doc'.ancestors host := by
    rw [arrived.ancestors_eq host inHost outsideHost]
    exact portable.single host (arrived.attached_before host inHost outsideHost) isElement
  have attachedT := linked.isAttached_above inHost aboveHost
  have outsideT := arrived.not_mem_ancestors_above inHost outsideHost aboveHost
  have liveT := linked.live_of_isAttached attachedT
  have liveT' := portable.live (arrived.attached_before top attachedT outsideT)
  have pathT := arrived.ancestors_eq top attachedT outsideT
  have aboveNode : top ∈ doc'.ancestors node := by
    rw [HasShape.ancestors_of_parent linked (linked.live_of_isAttached arrived.attached)
      arrived.parent_eq]
    exact List.mem_cons_of_mem _ aboveHost
  have attachedR := linked.isAttached_root
  have outsideR : node ∉ doc'.ancestors root :=
    arrived.not_mem_ancestors_above inHost outsideHost (linked.isAttached_iff.mp inHost).2
  have kindR := arrived.kind_eq root attachedR outsideR
  refine portable.of_stays ⟨linked, ?_, fun _ => ?_, fun _ => ?_, ?_, ?_⟩ ?_ fun other attached => ?_
  · rw [kindR]
    exact portable.plain
  · rw [linked.parent_eq_head? liveT, pathT, ← portable.linked.parent_eq_head? liveT']
    exact portable.hung liveT'
  · rw [arrived.kind_eq top attachedT outsideT]
    exact portable.element liveT'
  · rintro id ⟨live, above⟩
    have attached := linked.isAttached_below live above attachedT
    by_cases below : node ∈ doc'.ancestors id
    · exact (arrived.stands stands live below).sound
    · have stays := arrived.stays isElement attached below
      rw [arrived.ancestors_eq id attached below] at above
      exact stays.sound (portable.sound id ⟨portable.live stays.attached, above⟩)
  · intro id attached element
    by_cases below : node ∈ doc'.ancestors id
    · exact linked.ancestors_subset (linked.live_of_isAttached attached) below aboveNode
    · rw [arrived.kind_eq id attached below] at element
      rw [arrived.ancestors_eq id attached below]
      exact portable.single id (arrived.attached_before id attached below) element
  · rw [kindR]
    exact portable.apex
  · by_cases below : node ∈ doc'.ancestors other
    · exact .inl (arrived.stands stands (linked.live_of_isAttached attached) below)
    · exact .inr (arrived.stays isElement attached below)

end Arrived

namespace Portable

/-- A portable document may receive what is taken from a portable document, unless a default
namespace reaches what is in none. -/
theorem receive {source : Document} {top' taken : NodeId} (portable : doc.Portable top)
    (giving : source.Portable top') (attached : source.isAttached taken = true)
    (handled : (source.kind taken).hasHandle = true)
    (arrived : Arrived doc middle host node (source.tree taken))
    (isElement : (doc.kind host).isElement = true)
    (safe : (source.tree taken).isExposed = true → (source.kind taken).nsPrefix?.isSome = true →
      doc.namespaceOf? host none = none) :
    (middle.settle node (source.inheritedBindings taken)).Portable top := by
  obtain ⟨parent, above, attachedP, proper, stands⟩ := giving.exists_parent attached handled
  have declared := arrived.declarations_eq arrived.attached_host arrived.not_mem_ancestors_host
  refine arrived.settle.portable portable isElement ?_
  rw [← declared]
  refine arrived.stands_settle stands (giving.isDeclarable attachedP) (fun isElement => ?_) ?_
  · rw [kind_tree] at isElement
    exact giving.needed_inheritedBindings isElement above proper
  · rw [kind_tree, namespaceOf?_of_declarations declared]
    exact safe

/-- Moving a node within a portable document. -/
theorem move {target : NodeId} {placement : Placement} (portable : doc.Portable top)
    (attached : doc.isAttached target = true) (handled : (doc.kind node).hasHandle = true)
    (safe : ∀ host, doc.host? target placement = some host → (doc.tree node).isExposed = true →
      (doc.kind node).nsPrefix?.isSome = true → doc.namespaceOf? host none = none)
    (moved : doc.move target node placement = .ok doc') : doc'.Portable top := by
  obtain ⟨host, middle, attachedN, hosted, isElement, arrived, rfl⟩ :=
    exists_arrived_of_move portable.linked attached moved
  exact portable.receive portable attachedN handled arrived isElement (safe host hosted)

/-- Copying a node of a portable document into another one. -/
theorem copyIn {source : Document} {top' taken target copy : NodeId} {placement : Placement}
    (portable : doc.Portable top) (giving : source.Portable top')
    (attached : doc.isAttached target = true) (attached' : source.isAttached taken = true)
    (handled : (source.kind taken).hasHandle = true)
    (safe : ∀ host, doc.host? target placement = some host →
      (source.tree taken).isExposed = true → (source.kind taken).nsPrefix?.isSome = true →
        doc.namespaceOf? host none = none)
    (copied : doc.copyIn target (source.tree taken) (source.inheritedBindings taken) placement =
      .ok (copy, doc')) : doc'.Portable top := by
  obtain ⟨host, middle, hosted, isElement, arrived, rfl⟩ :=
    exists_arrived_of_copyIn portable.linked attached copied
  exact portable.receive giving attached' handled arrived isElement (safe host hosted)

end Portable

/-! ## What is captured -/

/-- Whether the namespaces of all elements, and of all attributes with a prefix that declare nothing,
are those that their prefixes stand for. -/
def IsNamespaceConsistent (doc : Document) : Prop :=
  ∀ id name uri attributes, doc.isAttached id = true → doc.kind id = .element name uri attributes →
    uri = doc.namespaceOf? id name.nsPrefix ∧
      ∀ attr ∈ attributes, attr.isDeclaration = false → attr.name.nsPrefix.isSome = true →
        attr.uri = doc.namespaceOf? id attr.name.nsPrefix

theorem Portable.isNamespaceConsistent (portable : doc.Portable top) :
    doc.IsNamespaceConsistent := by
  intro id name uri attributes attached kind
  have sound := (portable.stands attached (by rw [kind]; rfl)).sound
  rw [kind] at sound
  refine ⟨sound.uri_eq, fun attr member proper prefixed => ?_⟩
  obtain ⟨nsPrefix, found⟩ := Option.isSome_iff_exists.mp prefixed
  rw [(sound.listed attr member).uri_eq, Attribute.uriIn, proper, found]

/-- There is no default namespace above an exposed tree of a consistent document. -/
theorem IsNamespaceConsistent.namespaceOf?_none (consistent : doc.IsNamespaceConsistent)
    (linked : doc.WellLinked) : ∀ id, doc.IsLive id → ∀ parent, doc.isAttached id = true →
      doc.parent id = some parent → (doc.tree id).isExposed = true →
        doc.namespaceOf? parent none = none := by
  refine linked.induction ?_
  intro id live ih parent attached above exposed
  rw [linked.tree_eq live, Tree.isExposed, Bool.and_eq_true, Bool.or_eq_true,
    Option.isNone_iff_eq_none] at exposed
  obtain ⟨hidden, reached⟩ := exposed
  have here : doc.namespaceOf? id none = doc.namespaceOf? parent none := by
    rw [namespaceOf?_eq_boundIn, namespaceOf?_eq_boundIn, declarations_child linked live above]
    exact boundIn_append_of_none hidden
  rw [← here]
  rcases reached with bare | inner
  · cases kind : doc.kind id with
    | element name uri attributes =>
      rw [kind, NodeKind.isBare, Bool.and_eq_true, Option.isNone_iff_eq_none,
        Option.isNone_iff_eq_none] at bare
      have stored := (consistent id name uri attributes attached kind).1
      rw [bare.1, bare.2] at stored
      exact stored.symm
    | _ =>
      rw [kind] at bare
      cases bare
  · obtain ⟨_, member, exposed⟩ := Tree.anyExposed_iff.mp inner
    obtain ⟨child, listed, rfl⟩ := List.mem_map.mp member
    have attachedC := linked.isAttached_child attached listed
    exact ih child listed id attachedC (linked.child live listed).2 exposed

/-- What arrives with a prefix is as exposed as it was. -/
theorem Arrived.isExposed_settle (arrived : Arrived doc middle host node tree)
    (stands : tree.StandsIn outer) (needs : Needed outer tree needed)
    (exposed : tree.isExposed = true) (prefixed : tree.kind.nsPrefix?.isSome = true) :
    ((middle.settle node needed).tree node).isExposed = true := by
  have linked := arrived.linked
  have live := linked.live_of_isAttached arrived.attached
  have tree_eq := arrived.tree_eq
  rw [linked.tree_eq live] at tree_eq
  subst tree_eq
  rw [Document.settle, modifyAttributes, tree_modifyKind linked live, missingDeclarations_eq]
  cases kind : middle.kind node with
  | element name uri attributes =>
    rw [kind] at stands needs exposed prefixed
    exact stands.isExposed_declare needs exposed prefixed
  | _ =>
    rw [kind] at prefixed
    cases prefixed

/-- A document in which an exposed element with a prefix arrived below a default namespace is not
consistent. -/
theorem Portable.captured {source : Document} {taken : NodeId} (giving : source.Portable top)
    (attached : source.isAttached taken = true)
    (arrived : Arrived doc middle host node (source.tree taken))
    (exposed : (source.tree taken).isExposed = true)
    (prefixed : (source.kind taken).nsPrefix?.isSome = true)
    (inForce : (doc.namespaceOf? host none).isSome = true) :
    ¬ (middle.settle node (source.inheritedBindings taken)).IsNamespaceConsistent := by
  intro consistent
  have isElement : (source.kind taken).isElement = true := by
    cases kind : source.kind taken with
    | element => rfl
    | _ =>
      rw [kind] at prefixed
      cases prefixed
  have handled : (source.kind taken).hasHandle = true := by
    obtain ⟨name, uri, attributes, kind⟩ := NodeKind.exists_of_isElement isElement
    rw [kind]
    rfl
  obtain ⟨parent, above, -, proper, stands⟩ := giving.exists_parent attached handled
  have needs := giving.needed_inheritedBindings isElement above proper
  have exposed' := arrived.isExposed_settle stands needs exposed (by rwa [kind_tree])
  have settled : Arrived doc (middle.settle node (source.inheritedBindings taken)) host node _ :=
    arrived.settle
  have nothing := consistent.namespaceOf?_none settled.linked node
    (settled.linked.live_of_isAttached settled.attached) host settled.attached settled.parent_eq
    exposed'
  rw [namespaceOf?_of_declarations
    (settled.declarations_eq settled.attached_host settled.not_mem_ancestors_host)] at nothing
  rw [nothing] at inForce
  cases inForce

end Markup.Document
