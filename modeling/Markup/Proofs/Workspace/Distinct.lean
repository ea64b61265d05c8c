import Markup.Proofs.Workspace.Assign
import Markup.Proofs.Workspace.Fragment
import Markup.Proofs.Workspace.Resolution

/-!
# Attributes that can be told apart

Attributes are looked up, set and removed by their local names and namespaces. The parser compares
the names of a tag before it looks prefixes up, so that two attributes of one element share local
name and namespace if their prefixes differ and are bound to one namespace, and in no other case.
-/

namespace Markup

theorem QName.eq_of_parts {name other : QName} (same : name.nsPrefix = other.nsPrefix)
    (same' : name.localName = other.localName) : name = other := by
  cases name
  cases other
  rw [QName.mk.injEq]
  exact ⟨same, same'⟩

namespace Attribute

variable {attr : Attribute} {attributes : List Attribute}

/-- Attributes of an element that can be told apart: those that declare nothing by local name and
namespace, declarations by what they bind. -/
structure AreDistinct (attributes : List Attribute) : Prop where
  named : attributes.Pairwise fun left right =>
    left.isDeclaration = false → right.isDeclaration = false → left.key ≠ right.key
  declared : attributes.Pairwise fun left right =>
    left.isDeclaration = true → left.declared? ≠ right.declared?

/-- An attribute that declares nothing takes the place of the one that it could not be told from. -/
theorem AreDistinct.putIn (distinct : AreDistinct attributes)
    (proper : attr.isDeclaration = false) :
    AreDistinct (attr.putIn attributes) := by
  obtain ⟨named, declared⟩ := distinct
  have unbound : attr.declared? = none := by rw [declared?, proper]; rfl
  induction attributes with
  | nil => exact ⟨List.pairwise_singleton _ _, List.pairwise_singleton _ _⟩
  | cons first rest ih =>
    obtain ⟨apart, named⟩ := List.pairwise_cons.mp named
    obtain ⟨apart', declared⟩ := List.pairwise_cons.mp declared
    rw [Attribute.putIn]
    split
    · rename_i same
      obtain ⟨proper', same⟩ := (sameIdentity_iff_key proper).mp same
      refine ⟨List.pairwise_cons.mpr ⟨fun other member _ => ?_, named⟩,
        List.pairwise_cons.mpr ⟨fun other _ declares => ?_, declared⟩⟩
      · rw [← same]
        exact apart other member proper'
      · rw [proper] at declares
        cases declares
    · rename_i different
      rw [sameIdentity_iff_key proper] at different
      obtain ⟨named', declared'⟩ := ih named declared
      refine ⟨List.pairwise_cons.mpr ⟨fun other member proper' proper'' => ?_, named'⟩,
        List.pairwise_cons.mpr ⟨fun other member declares => ?_, declared'⟩⟩
      · rcases mem_putIn member with rfl | member
        · exact fun same => different ⟨proper', same⟩
        · exact apart other member proper' proper''
      · rcases mem_putIn member with rfl | member
        · rw [unbound, declared?, if_pos declares]
          exact Option.some_ne_none _
        · exact apart' other member declares

/-- Declarations with different names bind different prefixes. -/
theorem pairwise_declared (distinct : (attributes.map (·.name)).Nodup) :
    attributes.Pairwise fun left right =>
      left.isDeclaration = true → left.declared? ≠ right.declared? := by
  refine (List.pairwise_map.mp distinct).imp fun {left right} other declares same => other ?_
  rw [declared?, if_pos declares] at same
  obtain ⟨-, left_eq⟩ := name_of_declared (show left.declared? = some _ from if_pos declares)
  obtain ⟨-, right_eq⟩ := name_of_declared same.symm
  rw [left_eq, right_eq]
  cases left.name.nsPrefix <;> rfl

end Attribute

namespace Document

open Attribute Xml

variable {doc : Document} {id : NodeId} {left right : Attribute} {options : ParseOptions}

/-- Two attributes of an element with one local name, whose prefixes differ and stand for one
namespace. What `xml` stands for is not up to the document. -/
def AreRivals (doc : Document) (id : NodeId) (left right : Attribute) : Prop :=
  left.isDeclaration = false ∧ right.isDeclaration = false ∧
    left.name.localName = right.name.localName ∧
    ∃ nsPrefix other uri, left.name.nsPrefix = some nsPrefix ∧ right.name.nsPrefix = some other ∧
      nsPrefix ≠ other ∧ left.uri = some uri ∧ right.uri = some uri ∧
      (nsPrefix ≠ "xml" → doc.namespaceOf? id (some nsPrefix) = some uri) ∧
      (other ≠ "xml" → doc.namespaceOf? id (some other) = some uri)

/-- The tag that a strict parser read for an element. -/
theorem exists_isTag_of_ofXml (strict : options.recover = false) {text : String}
    (parsed : ofXml options text = .ok doc) (attached : doc.isAttached id = true)
    {name : QName} {uri : Option String} {attributes : List Attribute}
    (kind : doc.kind id = .element name uri attributes) :
    ∃ scope, IsTag options scope name uri attributes := by
  have isElement : (doc.kind id).isElement = true := by rw [kind]; rfl
  obtain ⟨⟨_, scope, _, _, _, readable, _⟩, -⟩ := isReadIn_of_ofXml strict parsed attached isElement
  have linked := wellLinked_ofXml parsed
  rw [linked.tree_eq (linked.live_of_isAttached attached), kind] at readable
  exact ⟨scope, readable.2.1⟩

/-- Setting an attribute puts it among those of an element, and other nodes have none. -/
theorem attributes_setAttribute (attr : Attribute) :
    (doc.setAttribute id attr).attributes id = attr.putIn (doc.attributes id) ∨
      (doc.setAttribute id attr).attributes id = doc.attributes id := by
  rw [attributes, attributes, setAttribute, modifyAttributes, kind_modifyKind]
  split
  · cases doc.kind id with
    | element => exact .inl rfl
    | _ => exact .inr rfl
  · exact .inr rfl

/-- Attributes of an element that share local name and namespace, but not the name, are rivals. -/
theorem areRivals_of_key_eq (strict : options.recover = false) {text : String}
    (parsed : ofXml options text = .ok doc) (attached : doc.isAttached id = true)
    {name : QName} {uri : Option String} {attributes : List Attribute}
    (kind : doc.kind id = .element name uri attributes) (member : left ∈ attributes)
    (member' : right ∈ attributes) (proper : left.isDeclaration = false)
    (proper' : right.isDeclaration = false) (different : left.name ≠ right.name)
    (same : left.key = right.key) : doc.AreRivals id left right := by
  obtain ⟨scope, isTag⟩ := exists_isTag_of_ofXml strict parsed attached kind
  obtain ⟨-, bound⟩ := namespaces_of_ofXml parsed attached kind
  obtain ⟨local_eq, uri_eq⟩ := Prod.mk.inj same
  have solid := (isTag.listed left member).bound proper
  have solid' := (isTag.listed right member').bound proper'
  cases before : left.name.nsPrefix with
  | none =>
    have bare := (bound left member).2 before
    cases before' : right.name.nsPrefix with
    | none => exact absurd (QName.eq_of_parts (before.trans before'.symm) local_eq) different
    | some other =>
      rw [before', ← uri_eq, bare] at solid'
      exact absurd (solid' rfl) (by decide)
  | some nsPrefix =>
    obtain ⟨uri, stored⟩ := Option.isSome_iff_exists.mp (solid (by rw [before]; rfl))
    cases before' : right.name.nsPrefix with
    | none =>
      have bare := (bound right member').2 before'
      rw [← uri_eq, stored] at bare
      cases bare
    | some other =>
      refine ⟨proper, proper', local_eq, nsPrefix, other, uri, before, before', ?_, stored,
        uri_eq ▸ stored, fun free => ?_, fun free => ?_⟩
      · rintro rfl
        exact different (QName.eq_of_parts (before.trans before'.symm) local_eq)
      · rw [← stored, (bound left member).1 nsPrefix before free proper]
      · rw [← stored, uri_eq, (bound right member').1 other before' free proper']

/-- Which attributes can be told apart. In a document that was parsed strictly no element declares a
prefix twice, and two attributes of an element share local name and namespace only if their prefixes
differ and stand for one namespace there. Setting an attribute that declares nothing keeps all
attributes apart that were so. -/
theorem attributes_distinct_iff (strict : options.recover = false) {text : String}
    (parsed : ofXml options text = .ok doc) :
    (∀ id, doc.isAttached id = true →
      ((doc.attributes id).Pairwise fun left right =>
        left.isDeclaration = true → left.declared? ≠ right.declared?) ∧
      (AreDistinct (doc.attributes id) ↔
        (doc.attributes id).Pairwise fun left right => ¬ doc.AreRivals id left right)) ∧
    ∀ (doc : Document) id attr, AreDistinct (doc.attributes id) → attr.isDeclaration = false →
      AreDistinct ((doc.setAttribute id attr).attributes id) := by
  refine ⟨fun id attached => ?_, fun doc id attr distinct proper => ?_⟩
  · by_cases isElement : (doc.kind id).isElement = true
    · obtain ⟨name, uri, attributes, kind⟩ := NodeKind.exists_of_isElement isElement
      obtain ⟨scope, isTag⟩ := exists_isTag_of_ofXml strict parsed attached kind
      have declared := pairwise_declared isTag.distinct
      rw [Document.attributes, kind, NodeKind.attributes]
      refine ⟨declared, fun distinct => ?_, fun apart => ⟨?_, declared⟩⟩
      · refine distinct.named.imp fun {left right} different rivals => ?_
        obtain ⟨proper, proper', local_eq, _, _, uri, -, -, -, uri_eq, uri_eq', -⟩ := rivals
        exact different proper proper' (by rw [key, key, local_eq, uri_eq, uri_eq'])
      · refine ((List.pairwise_map.mp isTag.distinct).and apart).imp_of_mem ?_
        rintro left right member member' ⟨different, apart⟩ proper proper' same
        exact apart (areRivals_of_key_eq strict parsed attached kind member member' proper proper'
          different same)
    · have bare : doc.attributes id = [] := by
        rw [Document.attributes]
        cases kind : doc.kind id with
        | element => exact absurd (by rw [kind]; rfl) isElement
        | _ => rfl
      rw [bare]
      exact ⟨.nil, fun _ => .nil, fun _ => ⟨.nil, .nil⟩⟩
  · rcases attributes_setAttribute attr with same | same
    · rw [same]
      exact distinct.putIn proper
    · rwa [same]

/-! ## Two prefixes for attributes of one name -/

/-- An element that binds two prefixes and has an attribute of one name with each. -/
def paired (uri : String) : Tree :=
  .leaf (.element ⟨none, "a"⟩ none [.declaration (some "p") "u", .declaration (some "q") uri,
    ⟨⟨some "p", "k"⟩, some "u", "1"⟩, ⟨⟨some "q", "k"⟩, some uri, "2"⟩])

theorem isName_of_check (name : QName) (checked : (name.toText.toList.head?.any isNameStart &&
      name.toText.toList.all isNameChar && QName.ofText name.toText == name) = true)
    (short : Text.byteLength name.toText.toList ≤ ({} : ParseOptions).maxNameLength) :
    IsName {} name.toText ∧ QName.ofText name.toText = name := by
  rw [Bool.and_eq_true, Bool.and_eq_true, beq_iff_eq] at checked
  exact ⟨⟨checked.1.1, List.all_eq_true.mp checked.1.2, short⟩, checked.2⟩

theorem readable_paired {uri : String} (solid : uri ≠ "") (legal : IsLegal uri.toList) :
    Readable {} 0 .initial (paired uri) := by
  have bound : (Scope.initial.declare (paired uri).kind.attributes).resolve (some "p") = some "u" ∧
      (Scope.initial.declare (paired uri).kind.attributes).resolve (some "q") = some uri := by
    refine ⟨rfl, ?_⟩
    show Option.filter _ (some uri) = _
    rw [Option.filter_some_pos (by simpa using solid)]
  have legals : IsLegal "1".toList ∧ IsLegal "2".toList ∧ IsLegal "u".toList :=
    ⟨List.all_eq_true.mp (by decide), List.all_eq_true.mp (by decide),
      List.all_eq_true.mp (by decide)⟩
  obtain ⟨named, split⟩ := isName_of_check ⟨none, "a"⟩ (by decide) (by decide)
  obtain ⟨namedP, splitP⟩ := isName_of_check ⟨some "xmlns", "p"⟩ (by decide) (by decide)
  obtain ⟨namedQ, splitQ⟩ := isName_of_check ⟨some "xmlns", "q"⟩ (by decide) (by decide)
  obtain ⟨namedPk, splitPk⟩ := isName_of_check ⟨some "p", "k"⟩ (by decide) (by decide)
  obtain ⟨namedQk, splitQk⟩ := isName_of_check ⟨some "q", "k"⟩ (by decide) (by decide)
  have isTag : IsTag {} .initial ⟨none, "a"⟩ none (paired uri).kind.attributes := {
    named := named
    split := split
    uri_eq := rfl
    bound := nofun
    listed := by
      rintro attr member
      rcases member with _ | ⟨_, _ | ⟨_, _ | ⟨_, _ | ⟨_, ⟨⟩⟩⟩⟩⟩
      · exact ⟨namedP, splitP, legals.2.2, rfl, nofun⟩
      · exact ⟨namedQ, splitQ, legal, rfl, nofun⟩
      · exact ⟨namedPk, splitPk, legals.1, bound.1.symm, fun _ _ => rfl⟩
      · exact ⟨namedQk, splitQk, legals.2.1, bound.2.symm, fun _ _ => rfl⟩
    distinct := by
      show [QName.mk (some "xmlns") "p", ⟨some "xmlns", "q"⟩, ⟨some "p", "k"⟩,
        ⟨some "q", "k"⟩].Nodup
      decide }
  exact ⟨by decide, isTag, trivial⟩

theorem exists_ofXml_paired {uri text : String} (solid : uri ≠ "") (legal : IsLegal uri.toList)
    (spelled : text.toList = spell (paired uri))
    (fits : Text.byteLength text.toList ≤ ({} : ParseOptions).maxTextLength) :
    ∃ doc id, ofXml {} text = .ok doc ∧ doc.isAttached id = true ∧
      doc.attributes id = (paired uri).kind.attributes := by
  obtain ⟨doc, id, parsed, found, shown, -⟩ :=
    exists_ofXml_of_readable {} (by decide) rfl (readable_paired solid legal) spelled fits
  have canonical : Canonical (paired uri) := ⟨trivial, .nil⟩
  rw [readBack_eq_self rfl rfl canonical] at shown
  have linked := wellLinked_ofXml parsed
  obtain ⟨live, hung⟩ := linked.child linked.root_live (List.mem_of_find?_eq_some found)
  exact ⟨doc, id, parsed, linked.isAttached_of_hung live hung, by
    rw [Document.attributes, ← kind_tree, shown]⟩

/-- Attributes with different namespaces can be told apart, and so they can after one of them was
set anew. -/
theorem attributes_distinct_iff_paired :
    ∃ doc id, ofXml {} "<a xmlns:p=\"u\" xmlns:q=\"v\" p:k=\"1\" q:k=\"2\"/>" = .ok doc ∧
      doc.isAttached id = true ∧ AreDistinct (doc.attributes id) ∧
      AreDistinct ((doc.setAttribute id ⟨⟨some "q", "k"⟩, some "v", "3"⟩).attributes id) := by
  have spelled : "<a xmlns:p=\"u\" xmlns:q=\"v\" p:k=\"1\" q:k=\"2\"/>".toList =
      spell (paired "v") := by decide
  obtain ⟨doc, id, parsed, attached, own⟩ :=
    exists_ofXml_paired (by decide) (List.all_eq_true.mp (by decide)) spelled (by decide)
  obtain ⟨each, kept⟩ := attributes_distinct_iff rfl parsed
  have distinct : AreDistinct (doc.attributes id) := by
    refine (each id attached).2.mpr ?_
    rw [own]
    have keys : ((paired "v").kind.attributes.map key).Nodup := by decide
    refine (List.pairwise_map.mp keys).imp fun {left right} different rivals => different ?_
    obtain ⟨-, -, local_eq, _, _, uri, -, -, -, uri_eq, uri_eq', -⟩ := rivals
    rw [key, key, local_eq, uri_eq, uri_eq']
  exact ⟨doc, id, parsed, attached, distinct, kept doc id _ distinct rfl⟩

/-- Two prefixes for one namespace bring two attributes of one local name and namespace past the
check for duplicates. -/
theorem not_areDistinct_of_ofXml :
    ∃ doc id, ofXml {} "<a xmlns:p=\"u\" xmlns:q=\"u\" p:k=\"1\" q:k=\"2\"/>" = .ok doc ∧
      doc.isAttached id = true ∧ ¬ AreDistinct (doc.attributes id) := by
  have spelled : "<a xmlns:p=\"u\" xmlns:q=\"u\" p:k=\"1\" q:k=\"2\"/>".toList =
      spell (paired "u") := by decide
  obtain ⟨doc, id, parsed, attached, own⟩ :=
    exists_ofXml_paired (by decide) (List.all_eq_true.mp (by decide)) spelled (by decide)
  refine ⟨doc, id, parsed, attached, fun distinct => ?_⟩
  have named := distinct.named
  rw [own] at named
  obtain ⟨-, named⟩ := List.pairwise_cons.mp named
  obtain ⟨-, named⟩ := List.pairwise_cons.mp named
  obtain ⟨apart, -⟩ := List.pairwise_cons.mp named
  exact apart _ List.mem_cons_self rfl rfl rfl

end Document
end Markup
