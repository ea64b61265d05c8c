import Markup.Document.Scope
import Markup.Proofs.Store.Preorder
import Markup.Proofs.Xml.Leaf
import Markup.Proofs.Xml.Tag

/-!
# Nodes that can be written where they stand

A node can be written, and what was written can be read, if its characters and names are those that
markup admits and its prefixes stand for the namespaces that go with them. Whether they do is found
out by going up from the node; a reader of markup keeps a list of bindings instead. Both agree.
-/

namespace Markup

open Xml

theorem NodeKind.exists_of_isElement {kind : NodeKind} (isElement : kind.isElement = true) :
    ∃ name uri attributes, kind = .element name uri attributes := by
  cases kind with
  | element name uri attributes => exact ⟨name, uri, attributes, rfl⟩
  | _ => cases isElement

namespace Attribute

/-- The binding that an attribute makes, if it is a declaration. -/
def binding? (attr : Attribute) : Option (Option String × String) :=
  attr.declared?.map fun nsPrefix => (nsPrefix, attr.value)

/-- The bindings that the attributes of an element make. -/
def bindings (attributes : List Attribute) : List (Option String × String) :=
  attributes.filterMap binding?

/-- The namespace that goes with an attribute where prefixes stand for the given namespaces. -/
def uriIn (bound : Option String → Option String) (attr : Attribute) : Option String :=
  match attr.isDeclaration, attr.name.nsPrefix with
  | false, some nsPrefix => bound (some nsPrefix)
  | _, _ => none

theorem sameIdentity_iff {left right : Attribute} : left.sameIdentity right = true ↔
    left.name.localName = right.name.localName ∧ left.uri = right.uri ∧
      left.isDeclaration = right.isDeclaration := by
  simp [sameIdentity, and_assoc]

theorem binding?_eq_none {attr : Attribute} (other : attr.isDeclaration = false) :
    attr.binding? = none := by
  simp [binding?, declared?, other]

/-- The name of a declaration is told by what it binds. -/
theorem name_of_declared {attr : Attribute} {nsPrefix : Option String}
    (declares : attr.declared? = some nsPrefix) : attr.isDeclaration = true ∧
      attr.name = (declaration nsPrefix attr.value).name := by
  obtain ⟨⟨before, localName⟩, uri, value⟩ := attr
  unfold declared? at declares
  split at declares
  · rename_i isDeclaration
    refine ⟨isDeclaration, ?_⟩
    cases before with
    | none =>
      obtain rfl := Option.some.inj declares
      simpa [Attribute.isDeclaration, declaration, plain] using isDeclaration
    | some before =>
      obtain rfl := Option.some.inj declares
      simpa [Attribute.isDeclaration, declaration] using isDeclaration
  · cases declares

theorem bindings_cons (first : Attribute) (rest : List Attribute) :
    bindings (first :: rest) = first.binding?.toList ++ bindings rest := by
  rw [bindings, List.filterMap_cons, ← bindings]
  cases first.binding? <;> rfl

theorem exists_of_mem_bindings {attributes : List Attribute} {nsPrefix : Option String}
    {uri : String} (listed : (nsPrefix, uri) ∈ bindings attributes) :
    ∃ attr ∈ attributes, attr.declared? = some nsPrefix ∧ attr.value = uri := by
  obtain ⟨attr, member, binds⟩ := List.mem_filterMap.mp listed
  obtain ⟨found, declares, same⟩ := Option.map_eq_some_iff.mp binds
  cases same
  exact ⟨attr, member, declares, rfl⟩

/-- Where no two attributes share a name, no two declarations bind the same prefix. -/
theorem nodup_bindings {attributes : List Attribute} (distinct : (attributes.map (·.name)).Nodup) :
    ((bindings attributes).map (·.1)).Nodup := by
  rw [List.Nodup, List.pairwise_map, bindings, List.pairwise_filterMap]
  rw [List.Nodup, List.pairwise_map] at distinct
  apply distinct.imp
  intro left right apart first binds second binds' same
  obtain ⟨prefixL, declaresL, rfl⟩ := Option.map_eq_some_iff.mp binds
  obtain ⟨prefixR, declaresR, rfl⟩ := Option.map_eq_some_iff.mp binds'
  obtain rfl : prefixL = prefixR := same
  apply apart
  rw [(name_of_declared declaresL).2, (name_of_declared declaresR).2]
  cases prefixL <;> rfl

/-- An attribute that can be written on an element and read from there. -/
structure IsSound (bound : Option String → Option String) (attr : Attribute) : Prop where
  formed : attr.name.isWellFormed = true
  legal : IsLegal attr.value.toList
  uri_eq : attr.uri = attr.uriIn bound
  resolved : attr.isDeclaration = false → attr.name.nsPrefix.isSome → attr.uri.isSome
  fixed : attr.declared? = some (some "xml") → attr.value = xmlNamespace

end Attribute

/-- An element whose tag can be written and read. -/
structure IsSoundTag (bound : Option String → Option String) (name : QName) (uri : Option String)
    (attributes : List Attribute) : Prop where
  formed : name.isWellFormed = true
  uri_eq : uri = bound name.nsPrefix
  resolved : name.nsPrefix.isSome → uri.isSome
  listed : ∀ attr ∈ attributes, attr.IsSound bound
  distinct : attributes.Pairwise fun left right => left.sameIdentity right = false

/-- Whether a node can be written below an element, where prefixes stand for the given namespaces,
and read from there. -/
def NodeKind.IsSound (bound : Option String → Option String) : NodeKind → Prop
  | .element name uri attributes => IsSoundTag bound name uri attributes
  | .text content => IsLegal content.toList
  | .cdata content => IsLegal content.toList
  | .comment content => IsComment content.toList
  | .instruction target data =>
    (∃ options, IsTarget options target) ∧ ∀ text ∈ data, IsData text.toList
  | .document => False
  | .doctype .. => False

/-! ## Declarations -/

namespace IsSoundTag

variable {bound : Option String → Option String} {name : QName} {uri : Option String}
  {attributes : List Attribute}

/-- Attributes that differ in identity differ in name. -/
theorem nodup_names (sound : IsSoundTag bound name uri attributes) :
    (attributes.map (·.name)).Nodup := by
  rw [List.Nodup, List.pairwise_map]
  apply sound.distinct.imp_of_mem
  intro left right memberL memberR apart same
  have declares : left.isDeclaration = right.isDeclaration := by
    rw [Attribute.isDeclaration, Attribute.isDeclaration, same]
  have alike : left.sameIdentity right = true := by
    rw [Attribute.sameIdentity_iff, (sound.listed left memberL).uri_eq,
      (sound.listed right memberR).uri_eq, Attribute.uriIn, Attribute.uriIn, declares, same]
    exact ⟨rfl, rfl, rfl⟩
  rw [alike] at apart
  cases apart

/-- No two declarations of an element bind the same prefix. -/
theorem nodup_bindings (sound : IsSoundTag bound name uri attributes) :
    ((Attribute.bindings attributes).map (·.1)).Nodup :=
  Attribute.nodup_bindings sound.nodup_names

theorem value_of_xml (sound : IsSoundTag bound name uri attributes) {value : String}
    (listed : (some "xml", value) ∈ Attribute.bindings attributes) : value = xmlNamespace := by
  obtain ⟨attr, member, declares, rfl⟩ := Attribute.exists_of_mem_bindings listed
  exact (sound.listed attr member).fixed declares

end IsSoundTag

/-! ## Bindings that a reader keeps -/

/-- Where no key is repeated, a list may be searched from its end as well. -/
theorem lookup_reverse {pairs : List (Option String × String)} (single : (pairs.map (·.1)).Nodup)
    (key : Option String) : pairs.reverse.lookup key = pairs.lookup key := by
  induction pairs with
  | nil => rfl
  | cons pair rest ih =>
    obtain ⟨first, value⟩ := pair
    obtain ⟨fresh, single⟩ := List.nodup_cons.mp single
    rw [List.reverse_cons, List.lookup_append, ih single]
    simp only [List.lookup_cons, List.lookup_nil]
    cases same : key == first with
    | false => simp
    | true =>
      obtain rfl := beq_iff_eq.mp same
      have missing : rest.lookup key = none := by
        rw [List.lookup_eq_none_iff]
        intro other member
        have apart : key ≠ other.1 := by
          rintro rfl
          exact fresh (List.mem_map_of_mem (f := (·.1)) member)
        simpa using apart
      simp [missing]

namespace Xml.Scope

theorem declare_eq (scope : Scope) (attributes : List Attribute) :
    scope.declare attributes = (Attribute.bindings attributes).reverse ++ scope := by
  induction attributes generalizing scope with
  | nil => rfl
  | cons attr rest ih =>
    rw [declare, List.foldl_cons]
    cases declares : attr.declared? with
    | none =>
      refine (ih scope).trans ?_
      simp [Attribute.bindings, Attribute.binding?, declares]
    | some nsPrefix =>
      refine (ih ((nsPrefix, attr.value) :: scope)).trans ?_
      simp [Attribute.bindings, Attribute.binding?, declares]

end Xml.Scope

namespace Document

variable {doc doc' : Document} {id other parent : NodeId}

theorem declarations_eq (doc : Document) (id : NodeId) : doc.declarations id =
    (doc.ancestors id).flatMap fun above => Attribute.bindings (doc.attributes above) := rfl

theorem declarations_child (linked : doc.WellLinked) (live : doc.IsLive id)
    (above : doc.parent id = some parent) : doc.declarations id =
      Attribute.bindings (doc.attributes id) ++ doc.declarations parent := by
  rw [declarations_eq, HasShape.ancestors_of_parent linked live above, List.flatMap_cons,
    ← declarations_eq]

@[simp] theorem namespaceOf?_xml (doc : Document) (id : NodeId) :
    doc.namespaceOf? id (some "xml") = some xmlNamespace := rfl

theorem namespaceOf?_eq {nsPrefix : Option String} (other : nsPrefix ≠ some "xml") :
    doc.namespaceOf? id nsPrefix =
      ((doc.declarations id).lookup nsPrefix).filter fun uri => !uri.isEmpty := by
  rw [namespaceOf?, if_neg (by simpa using other)]

theorem namespaceOf?_of_declarations (same : doc'.declarations id = doc.declarations other) :
    doc'.namespaceOf? id = doc.namespaceOf? other := by
  funext nsPrefix
  rw [namespaceOf?, namespaceOf?, same]

/-- Prefixes stand for the same where the way up and the declarations on it are the same. -/
theorem namespaceOf?_congr (path : doc'.ancestors id = doc.ancestors id)
    (same : ∀ above ∈ doc.ancestors id, Attribute.bindings (doc'.attributes above) =
      Attribute.bindings (doc.attributes above)) : doc'.namespaceOf? id = doc.namespaceOf? id := by
  apply namespaceOf?_of_declarations
  rw [declarations_eq, declarations_eq, path]
  exact List.flatMap_congr same

/-- Nothing is declared at the document node. -/
theorem declarations_root (linked : doc.WellLinked) (plain : (doc.kind root).isElement = false) :
    doc.declarations root = [] := by
  have bare : doc.attributes root = [] := by
    rw [attributes]
    cases kind : doc.kind root with
    | element => simp [kind, NodeKind.isElement] at plain
    | _ => rfl
  rw [declarations_eq, HasShape.ancestors_of_top linked linked.root_live linked.root_top,
    List.flatMap_cons, bare]
  rfl

/-- At the top a reader knows the bindings that hold at the document node. -/
theorem resolve_initial (linked : doc.WellLinked) (plain : (doc.kind root).isElement = false) :
    Scope.initial.resolve = doc.namespaceOf? root := by
  funext nsPrefix
  by_cases isXml : nsPrefix = some "xml"
  · subst isXml
    rfl
  · rw [namespaceOf?_eq isXml, declarations_root linked plain, Scope.resolve, Scope.initial]
    have apart : (nsPrefix == some "xml") = false := by simpa using isXml
    rw [List.lookup_cons, apart]

/-- If a reader knows the bindings that hold at a node, it knows those that hold at a child. -/
theorem resolve_declare (linked : doc.WellLinked) (live : doc.IsLive id)
    (above : doc.parent id = some parent) {bound : Option String → Option String} {name : QName}
    {uri : Option String} {attributes : List Attribute}
    (kind : doc.kind id = .element name uri attributes)
    (sound : IsSoundTag bound name uri attributes) {scope : Scope}
    (agree : scope.resolve = doc.namespaceOf? parent) :
    (scope.declare attributes).resolve = doc.namespaceOf? id := by
  have own : doc.attributes id = attributes := by rw [Document.attributes, kind, NodeKind.attributes]
  funext nsPrefix
  have outer : scope.resolve nsPrefix = doc.namespaceOf? parent nsPrefix := congrFun agree nsPrefix
  rw [Scope.declare_eq, Scope.resolve, List.lookup_append, lookup_reverse sound.nodup_bindings]
  by_cases isXml : nsPrefix = some "xml"
  · subst isXml
    cases found : (Attribute.bindings attributes).lookup (some "xml") with
    | none => exact outer
    | some value =>
      obtain ⟨before, after, split, -⟩ := List.lookup_eq_some_iff.mp found
      have listed : (some "xml", value) ∈ Attribute.bindings attributes := by simp [split]
      obtain rfl := sound.value_of_xml listed
      rfl
  · rw [namespaceOf?_eq isXml] at outer ⊢
    rw [declarations_child linked live above, own, List.lookup_append]
    cases found : (Attribute.bindings attributes).lookup nsPrefix with
    | none => exact outer
    | some value => rfl

end Document
end Markup
