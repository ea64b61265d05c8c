import Markup.Proofs.Workspace.Received
import Markup.Proofs.Workspace.Reliance
import Markup.Proofs.Xml.DocumentTrip

/-!
# Fragments that stand on their own

An element that is written on its own repeats the declarations above it that its tree relies on.
Read again, it has the namespaces that it had, unless it relies on a declaration that binds another
prefix than `xml` to the namespace of `xml`: such a declaration is never repeated.
-/

namespace Markup

open Attribute

namespace Document

open Xml

variable {doc : Document} {top id parent : NodeId} {options : ParseOptions}

/-! ## Nodes of a document that was parsed -/

/-- Whether a node is read where a parser has the bindings that are declared above it. -/
def IsReadIn (options : ParseOptions) (doc : Document) (id : NodeId) : Prop :=
  ∃ (parent : NodeId) (scope : Scope) (depth : Nat), doc.parent id = some parent ∧
    (∀ nsPrefix, scope.lookup nsPrefix =
      (doc.declarations parent ++ Scope.initial).lookup nsPrefix) ∧
    Readable options depth scope (doc.tree id) ∧ Canonical (doc.tree id)

theorem IsReadIn.child (linked : doc.WellLinked) (live : doc.IsLive id)
    (isReadIn : doc.IsReadIn options id) {child : NodeId} (member : child ∈ doc.children id) :
    doc.IsReadIn options child := by
  obtain ⟨parent, scope, depth, above, agree, readable, canonical⟩ := isReadIn
  have above' := (linked.child live member).2
  have listed : doc.tree child ∈ (doc.children id).map doc.tree := List.mem_map_of_mem member
  rw [linked.tree_eq live] at readable canonical
  by_cases isElement : (doc.kind id).isElement = true
  · obtain ⟨name, uri, attributes, kind⟩ := NodeKind.exists_of_isElement isElement
    have own : doc.attributes id = attributes := by
      rw [Document.attributes, kind, NodeKind.attributes]
    rw [kind] at readable canonical
    obtain ⟨-, isTag, inside⟩ := readable
    refine ⟨id, scope.declare attributes, depth + 1, above', fun nsPrefix => ?_,
      readableAll_iff.mp inside _ listed, canonicalAll_iff.mp canonical.1 _ listed⟩
    rw [Scope.declare_eq, List.lookup_append, lookup_reverse (nodup_bindings isTag.distinct), agree,
      declarations_child linked live above, own, List.append_assoc, ← List.lookup_append]
  · rw [canonical.childless (Bool.eq_false_iff.mpr isElement)] at listed
    cases listed

/-- All nodes of a document that was parsed strictly are read so, but for the document node and what
stands beside the root element. -/
theorem isReadIn_or_isAside (strict : options.recover = false) {text : String}
    (parsed : ofXml options text = .ok doc) (attached : doc.isAttached id = true) :
    id = root ∨ doc.IsReadIn options id ∨ IsAside (doc.tree id) := by
  obtain ⟨top, member, -, aside, plain, -, readable, canonical⟩ :=
    exists_rootElement_of_ofXml strict parsed
  have linked := wellLinked_ofXml parsed
  obtain ⟨-, hung⟩ := linked.child linked.root_live member
  have first : doc.IsReadIn options top := by
    refine ⟨root, .initial, 0, hung, fun nsPrefix => ?_, readable, canonical⟩
    rw [declarations_root linked plain, List.nil_append]
  have below : ∀ id, doc.IsLive id → top ∈ doc.ancestors id → doc.IsReadIn options id :=
    linked.descent hung first fun id child live _ listed isReadIn =>
      isReadIn.child linked live listed
  refine (mem_ancestors_or_aside linked aside attached).imp_right fun place => ?_
  exact place.imp_left (below id (linked.live_of_isAttached attached))

/-- All elements of a document that was parsed strictly are read so, below the document node or
another element. -/
theorem isReadIn_of_ofXml (strict : options.recover = false) {text : String}
    (parsed : ofXml options text = .ok doc) (attached : doc.isAttached id = true)
    (isElement : (doc.kind id).isElement = true) : doc.IsReadIn options id ∧
      ∀ parent, doc.parent id = some parent →
        parent = root ∨ (doc.kind parent).isElement = true := by
  obtain ⟨_, _, _, _, plain, -⟩ := exists_rootElement_of_ofXml strict parsed
  have linked := wellLinked_ofXml parsed
  refine ⟨?_, fun parent above => ?_⟩
  · rcases isReadIn_or_isAside strict parsed attached with rfl | isReadIn | beside
    · rw [plain] at isElement
      cases isElement
    · exact isReadIn
    · rw [← kind_tree, beside.1] at isElement
      cases isElement
  · have live := linked.live_of_isAttached attached
    obtain ⟨liveP, listed⟩ := linked.listed live above
    have shown : doc.tree id ∈ (doc.children parent).map doc.tree := List.mem_map_of_mem listed
    rcases isReadIn_or_isAside strict parsed (linked.isAttached_parent attached above) with
      isRoot | ⟨_, _, _, -, -, -, canonical⟩ | beside
    · exact .inl isRoot
    · by_contra neither
      rw [linked.tree_eq liveP] at canonical
      rw [canonical.childless (Bool.eq_false_iff.mpr (not_or.mp neither).2)] at shown
      cases shown
    · have childless := beside.2.1
      rw [linked.tree_eq liveP] at childless
      rw [show (doc.children parent).map doc.tree = [] from childless] at shown
      cases shown

/-- All bindings that hold in a document that was parsed strictly were read. -/
theorem isReadBinding_of_ofXml (strict : options.recover = false) {text : String}
    (parsed : ofXml options text = .ok doc) (attached : doc.isAttached id = true) :
    ∀ pair ∈ doc.declarations id, IsReadBinding options pair := by
  have linked := wellLinked_ofXml parsed
  rintro ⟨nsPrefix, uri⟩ listed
  obtain ⟨above, path, binds⟩ := List.mem_flatMap.mp listed
  obtain ⟨attr, member, declares, value⟩ := exists_of_mem_bindings binds
  have attachedA := linked.isAttached_above attached path
  cases kind : doc.kind above with
  | element name uri attributes =>
    obtain ⟨⟨_, scope, depth, -, -, readable, -⟩, -⟩ :=
      isReadIn_of_ofXml strict parsed attachedA (by rw [kind]; rfl)
    rw [linked.tree_eq (linked.live_of_isAttached attachedA), kind] at readable
    rw [Document.attributes, kind, NodeKind.attributes] at member
    exact ⟨_, attr, readable.2.1.listed attr member, declares, value⟩
  | _ => simp [attributes, kind, NodeKind.attributes] at member

/-! ## Elements as they are written on their own -/

/-- The tree of a node with the declarations that it is written with on its own. -/
def fragment (doc : Document) (id : NodeId) : Tree :=
  (doc.tree id).declaring (Xml.declarationsOf (doc.inheritedBindings id))

/-- Whether the tree of a node relies on a declaration above it that binds another prefix than
`xml`, or the default namespace, to the namespace of `xml`. -/
def LosesBinding (doc : Document) (id : NodeId) : Prop :=
  ∃ parent nsPrefix, doc.parent id = some parent ∧ (doc.tree id).ReliesOn nsPrefix ∧
    nsPrefix ≠ some "xml" ∧ doc.namespaceOf? parent nsPrefix = some xmlNamespace

theorem writeNode_eq (doc : Document) (options : WriteOptions) (id : NodeId) :
    doc.writeNode options id = Xml.write options 0 false [] (doc.fragment id) :=
  write_declaring ..

section

variable (strict : options.recover = false) {text : String} (parsed : ofXml options text = .ok doc)
  (attached : doc.isAttached id = true) (isElement : (doc.kind id).isElement = true)

include strict parsed attached isElement

/-- In a fragment prefixes are bound to what they were bound to in the document unless a binding is
lost. -/
theorem resolved_fragment_iff : Resolved .initial (doc.fragment id) ↔ ¬ doc.LosesBinding id := by
  obtain ⟨_, _, _, _, plain, -⟩ := exists_rootElement_of_ofXml strict parsed
  have linked := wellLinked_ofXml parsed
  obtain ⟨⟨parent, scope, depth, above, agree, readable, canonical⟩, proper⟩ :=
    isReadIn_of_ofXml strict parsed attached isElement
  have needs := linked.needed_inheritedBindings plain isElement above (proper parent above)
  have bound {nsPrefix : Option String} (other : nsPrefix ≠ some "xml") :
      scope.resolve nsPrefix = doc.namespaceOf? parent nsPrefix := by
    rw [namespaceOf?_eq other, Scope.resolve, agree, List.lookup_append, Scope.lookup_initial other,
      Option.or_none]
  have free : ∀ pair ∈ doc.inheritedBindings id,
      (bindings (doc.tree id).kind.attributes).lookup pair.1 = none :=
    fun pair listed => (needs.mem_iff.mp listed).2.1
  rw [fragment, resolved_declaring_iff needs.single free (by rwa [kind_tree]),
    (readable.resolved canonical).iff]
  constructor
  · rintro all ⟨parent', nsPrefix, above', relies, other, lost⟩
    obtain rfl := Option.some.inj (above.symm.trans above')
    refine (needs.resolve_iff readable canonical relies (agree nsPrefix)).mp (all nsPrefix relies)
      other ?_
    rw [bound other, lost]
  · intro keeps nsPrefix relies
    refine (needs.resolve_iff readable canonical relies (agree nsPrefix)).mpr fun other lost => ?_
    rw [bound other] at lost
    exact keeps ⟨parent, nsPrefix, above, relies, other, lost⟩

/-- A fragment that keeps its bindings can be read on its own. -/
theorem readable_fragment (resolved : Resolved .initial (doc.fragment id)) :
    Readable options 0 .initial (doc.fragment id) ∧ Canonical (doc.fragment id) := by
  obtain ⟨_, _, _, _, plain, -⟩ := exists_rootElement_of_ofXml strict parsed
  have linked := wellLinked_ofXml parsed
  obtain ⟨⟨parent, scope, depth, above, agree, readable, canonical⟩, proper⟩ :=
    isReadIn_of_ofXml strict parsed attached isElement
  have needs := linked.needed_inheritedBindings plain isElement above (proper parent above)
  constructor
  · refine readable.declaring (fun pair listed => ?_) resolved (Nat.zero_le _)
    obtain ⟨-, -, found, -⟩ := needs.mem_iff.mp listed
    obtain ⟨before, after, split, -⟩ := List.lookup_eq_some_iff.mp found
    refine isReadBinding_of_ofXml strict parsed (linked.isAttached_parent attached above) pair ?_
    simp [split]
  · rw [fragment]
    generalize doc.tree id = tree at canonical
    obtain ⟨kind, children⟩ := tree
    cases kind <;> exact canonical

/-- The fragment of an element of a document that was parsed strictly has all namespaces of the
element, and is parsed on its own as the same tree, exactly if no binding is lost. -/
theorem fragment_iff : doc.writeNode {} id = Xml.write {} 0 false [] (doc.fragment id) ∧
    (Resolved .initial (doc.fragment id) ↔ ¬ doc.LosesBinding id) ∧
    ∀ limit, Text.byteLength (doc.writeNode {} id).toList ≤ limit →
      ((∃ again other, ofXml (options.rereading limit) (doc.writeNode {} id) = .ok again ∧
        again.rootElement? = some other ∧ again.tree other = doc.fragment id) ↔
          ¬ doc.LosesBinding id) := by
  have resolves := resolved_fragment_iff strict parsed attached isElement
  refine ⟨writeNode_eq .., resolves, fun limit fits => ⟨?_, fun keeps => ?_⟩⟩
  · rintro ⟨again, other, read, found, same⟩
    obtain ⟨other', -, found', -, -, -, readable, canonical⟩ :=
      exists_rootElement_of_ofXml rfl read
    obtain rfl := Option.some.inj (found.symm.trans found')
    rw [← resolves, ← same]
    exact readable.resolved canonical
  · obtain ⟨readable, canonical⟩ :=
      readable_fragment strict parsed attached isElement (resolves.mpr keeps)
    have isElement' : (doc.fragment id).kind.isElement = true := by
      rw [fragment]
      rw [← kind_tree] at isElement
      generalize doc.tree id = tree at isElement
      obtain ⟨kind, children⟩ := tree
      cases kind <;> exact isElement
    have spelled : (doc.writeNode {} id).toList = spell (doc.fragment id) := by
      rw [writeNode_eq, toList_write rfl]
    have depths : options.maxDepth ≤ (options.rereading limit).maxDepth := Nat.le_refl _
    have names : options.maxNameLength ≤ (options.rereading limit).maxNameLength :=
      Nat.le_max_left ..
    have wider := readable.mono depths names
    obtain ⟨again, other, read, found, same, -⟩ :=
      exists_ofXml_of_readable _ (Nat.le_max_right ..) isElement' wider spelled fits
    exact ⟨again, other, read, found, same.trans (readBack_eq_self rfl isElement' canonical)⟩

end

/-! ## A prefix that is declared above -/

/-- An element whose prefix is declared by the element around it. -/
def nested (uri : String) : Tree :=
  .node (.element ⟨none, "r"⟩ none [.declaration (some "p") uri])
    [.leaf (.element ⟨some "p", "a"⟩ (some uri) [])]

theorem readable_nested {uri : String} (solid : uri ≠ "") (legal : IsLegal uri.toList) :
    Readable {} 0 .initial (nested uri) := by
  have bound : (Scope.initial.declare [.declaration (some "p") uri]).resolve (some "p") =
      some uri := by
    show Option.filter _ (some uri) = _
    rw [Option.filter_some_pos (by simpa using solid)]
  have named : IsName {} (QName.toText ⟨some "xmlns", "p"⟩) ∧ IsName {} (QName.toText ⟨none, "r"⟩) ∧
      IsName {} (QName.toText ⟨some "p", "a"⟩) := by
    refine ⟨?_, ?_, ?_⟩
    all_goals exact ⟨by decide, List.all_eq_true.mp (by decide), by decide⟩
  have declared : IsAttribute {} (Scope.initial.declare [.declaration (some "p") uri])
      (.declaration (some "p") uri) := {
    named := named.1
    split := by
      show QName.ofText (QName.toText ⟨some "xmlns", "p"⟩) = ⟨some "xmlns", "p"⟩
      decide
    legal := legal
    uri_eq := rfl
    bound := nofun }
  have outer : IsTag {} .initial ⟨none, "r"⟩ none [.declaration (some "p") uri] := {
    named := named.2.1
    split := by decide
    uri_eq := rfl
    bound := nofun
    listed := by
      rintro _ (_ | ⟨_, ⟨⟩⟩)
      exact declared
    distinct := List.nodup_singleton _ }
  have inner : IsTag {} (Scope.initial.declare [.declaration (some "p") uri]) ⟨some "p", "a"⟩
      (some uri) [] := {
    named := named.2.2
    split := by decide
    uri_eq := bound.symm
    bound := fun _ => rfl
    listed := nofun
    distinct := List.nodup_nil }
  exact ⟨by decide, outer, ⟨by decide, inner, trivial⟩, trivial⟩

/-- An element is parsed whose prefix is declared by the element around it. -/
theorem exists_ofXml_nested {uri text : String} (solid : uri ≠ "") (legal : IsLegal uri.toList)
    (spelled : text.toList = spell (nested uri))
    (fits : Text.byteLength text.toList ≤ ({} : ParseOptions).maxTextLength) :
    ∃ doc top id, ofXml {} text = .ok doc ∧ doc.isAttached id = true ∧ doc.parent id = some top ∧
      doc.tree id = .leaf (.element ⟨some "p", "a"⟩ (some uri) []) ∧
      doc.namespaceOf? top (some "p") = some uri := by
  obtain ⟨doc, top, parsed, found, shown, -⟩ :=
    exists_ofXml_of_readable {} (by decide) rfl (readable_nested solid legal) spelled fits
  have canonical : Canonical (nested uri) := ⟨⟨⟨trivial, .nil⟩, trivial⟩, .singleton _⟩
  rw [readBack_eq_self rfl rfl canonical] at shown
  have linked := wellLinked_ofXml parsed
  obtain ⟨live, hung⟩ := linked.child linked.root_live (List.mem_of_find?_eq_some found)
  have attached := linked.isAttached_of_hung live hung
  rw [linked.tree_eq live] at shown
  obtain ⟨kind, below⟩ := Tree.node.inj shown
  obtain ⟨id, rest, children, leaf, -⟩ := List.map_eq_cons_iff.mp below
  have listed : id ∈ doc.children top := by simp [children]
  refine ⟨doc, top, id, parsed, linked.isAttached_child attached listed,
    (linked.child live listed).2, leaf, ?_⟩
  rw [namespaceOf?_eq (by decide), declarations_child linked live hung, Document.attributes, kind]
  show Option.filter _ (some uri) = _
  rw [Option.filter_some_pos (by simpa using solid)]

/-- A declaration above is repeated. -/
theorem fragment_iff_declared : ∃ doc id, ofXml {} "<r xmlns:p=\"u\"><p:a/></r>" = .ok doc ∧
    doc.isAttached id = true ∧ (doc.kind id).isElement = true ∧ ¬ doc.LosesBinding id ∧
    Resolved .initial (doc.fragment id) := by
  have legal : IsLegal "u".toList := List.all_eq_true.mp (by decide)
  have spelled : "<r xmlns:p=\"u\"><p:a/></r>".toList = spell (nested "u") := by decide
  obtain ⟨doc, top, id, parsed, attached, above, leaf, bound⟩ :=
    exists_ofXml_nested (by decide) legal spelled (by decide)
  have isElement : (doc.kind id).isElement = true := by
    rw [← kind_tree, leaf]
    rfl
  have keeps : ¬ doc.LosesBinding id := by
    rintro ⟨parent, nsPrefix, above', relies, other, lost⟩
    obtain rfl := Option.some.inj (above.symm.trans above')
    rw [leaf] at relies
    obtain ⟨-, (rfl | ⟨-, _, ⟨⟩, -⟩) | ⟨⟨⟩⟩⟩ := relies
    rw [bound] at lost
    exact absurd lost (by decide)
  exact ⟨doc, id, parsed, attached, isElement, keeps,
    (fragment_iff rfl parsed attached isElement).2.1.mpr keeps⟩

/-- A prefix that is bound to the namespace of `xml` above is not bound in the fragment. -/
theorem fragment_not_resolved :
    ∃ doc id, ofXml {} "<r xmlns:p=\"http://www.w3.org/XML/1998/namespace\"><p:a/></r>" = .ok doc ∧
      doc.isAttached id = true ∧
      doc.tree id = .leaf (.element ⟨some "p", "a"⟩ (some xmlNamespace) []) ∧
      doc.writeNode {} id = "<p:a/>" ∧ ¬ Resolved .initial (doc.fragment id) := by
  have legal : IsLegal xmlNamespace.toList := List.all_eq_true.mp (by decide)
  have spelled : "<r xmlns:p=\"http://www.w3.org/XML/1998/namespace\"><p:a/></r>".toList =
      spell (nested xmlNamespace) := by decide
  obtain ⟨doc, top, id, parsed, attached, above, leaf, bound⟩ :=
    exists_ofXml_nested (by decide) legal spelled (by decide)
  have isElement : (doc.kind id).isElement = true := by
    rw [← kind_tree, leaf]
    rfl
  refine ⟨doc, id, parsed, attached, leaf, ?_, fun resolved => ?_⟩
  · obtain ⟨_, _, _, _, plain, -⟩ := exists_rootElement_of_ofXml rfl parsed
    obtain ⟨-, proper⟩ := isReadIn_of_ofXml rfl parsed attached isElement
    have needs := (wellLinked_ofXml parsed).needed_inheritedBindings plain isElement above
      (proper top above)
    have nothing : doc.inheritedBindings id = [] := by
      refine List.eq_nil_iff_forall_not_mem.mpr fun ⟨nsPrefix, uri⟩ listed => ?_
      obtain ⟨used, -, found, -, other⟩ := needs.mem_iff.mp listed
      rw [leaf, show (Tree.leaf _).used = [some "p"] from rfl, List.mem_singleton] at used
      subst used
      rw [namespaceOf?_eq (by decide), found] at bound
      exact other (Option.some.inj (Option.filter_eq_some_iff.mp bound).1)
    rw [writeNode, leaf, nothing]
    decide
  · have keeps := (resolved_fragment_iff rfl parsed attached isElement).mp resolved
    refine keeps ⟨top, some "p", above, ?_, by decide, bound⟩
    rw [leaf]
    exact ⟨rfl, .inl (.inl rfl)⟩

end Document
end Markup
