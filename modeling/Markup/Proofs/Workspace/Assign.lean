import Mathlib.Data.Option.Basic
import Markup.Proofs.Workspace.Bound
import Markup.Proofs.Workspace.Change

/-!
# Setting, removing and reading an attribute

An attribute is written in the place of one with its local name and its namespace, it is removed by
its local name and the namespace of a prefix, and it is read by its name as it is written. Where an
attribute is not in the namespace that its prefix stands for, these are different attributes.
-/

namespace Markup

/-! ## Names without a prefix -/

namespace QName

variable {text : String}

theorem ofText_of_plain (plain : ':' ∉ text.toList) : ofText text = ⟨none, text⟩ := by
  have whole : text.toList.dropWhile (· != ':') = [] := by
    rw [List.dropWhile_eq_nil_iff]
    intro c listed
    rw [bne_iff_ne]
    rintro rfl
    exact plain listed
  rw [ofText_eq, whole]

/-- Only a name without a prefix is written without a colon. -/
theorem eq_of_toText {name : QName} (plain : ':' ∉ text.toList) (spelled : name.toText = text) :
    name = ⟨none, text⟩ := by
  obtain ⟨_ | nsPrefix, localName⟩ := name
  · rw [← spelled, toText]
  · exact absurd (by simp [← spelled, toText]) plain

end QName

/-! ## Lists of attributes -/

namespace Attribute

variable {attr : Attribute} {attributes : List Attribute} {called : Attribute → Bool}

/-- What tells attributes apart that are no declarations: the local name and the namespace. -/
def key (attr : Attribute) : String × Option String := (attr.name.localName, attr.uri)

theorem sameIdentity_iff_key {first : Attribute} (proper : attr.isDeclaration = false) :
    first.sameIdentity attr = true ↔ first.isDeclaration = false ∧ first.key = attr.key := by
  rw [sameIdentity_iff, proper, key, key, Prod.mk.injEq]
  tauto

/-- Whether an attribute is a declaration or another one than that of a local name and a
namespace. -/
def isOther (key : String × Option String) (attr : Attribute) : Bool :=
  attr.isDeclaration || attr.key != key

theorem sameIdentity_eq {first : Attribute} (proper : attr.isDeclaration = false) :
    first.sameIdentity attr = !first.isOther attr.key := by
  rw [Bool.eq_iff_iff, sameIdentity_iff_key proper]
  simp [isOther]

/-- Whether an attribute is in a namespace only through a prefix. -/
def NeedsPrefix (attr : Attribute) : Prop := attr.name.nsPrefix = none → attr.uri = none

/-- Looking among the attributes that are no declarations. -/
theorem find?_proper (wanted : Attribute → Bool) :
    (attributes.filter fun attr => !attr.isDeclaration).find? wanted =
      attributes.find? fun attr => !attr.isDeclaration && wanted attr := by
  rw [List.find?_filter]
  congr 1
  funext attr
  rw [Bool.decide_and, Bool.decide_eq_true, Bool.decide_eq_true]

/-- Putting in an attribute leaves the others as they are. -/
theorem filter_putIn (proper : attr.isDeclaration = false) :
    (attr.putIn attributes).filter (isOther attr.key) = attributes.filter (isOther attr.key) := by
  have itself : attr.isOther attr.key = false := by simp [isOther, proper]
  induction attributes with
  | nil => simp [putIn, itself]
  | cons first rest ih =>
    rw [putIn, sameIdentity_eq proper]
    cases other : first.isOther attr.key with
    | false => simp [itself, other]
    | true => simp [other, ih]

/-- The attribute that was put in is found unless one of the others is found before its place. -/
theorem find?_putIn (proper : attr.isDeclaration = false) (found : called attr = true) :
    (attr.putIn attributes).find? called =
      if (attributes.takeWhile (isOther attr.key)).any called then attributes.find? called
      else some attr := by
  induction attributes with
  | nil => simp [putIn, found]
  | cons first rest ih =>
    rw [putIn, sameIdentity_eq proper]
    cases other : first.isOther attr.key with
    | false => simp [found, other]
    | true =>
      cases here : called first with
      | false => simpa [here, other] using ih
      | true => simp [here, other]

/-- Putting in an attribute does not change what is found if that is none of its key. -/
theorem find?_putIn_of_not (proper : attr.isDeclaration = false)
    (apart : ∀ other, called other = true → other.isOther attr.key = true) :
    (attr.putIn attributes).find? called = attributes.find? called := by
  have missed : ∀ {other : Attribute}, other.isOther attr.key = false → called other = false :=
    fun same => Bool.eq_false_iff.mpr fun found => by
      rw [apart _ found] at same
      cases same
  have itself : called attr = false := missed (by simp [isOther, proper])
  induction attributes with
  | nil => simp [putIn, itself]
  | cons first rest ih =>
    rw [putIn, sameIdentity_eq proper]
    cases other : first.isOther attr.key with
    | false => simp [itself, missed other]
    | true => simp only [Bool.not_true, Bool.false_eq_true, if_false, List.find?_cons, ih]

end Attribute

namespace Document

variable {doc doc' : Document} {id : NodeId} {written value : String} {given : Option String}
  {attr : Attribute}

/-! ## What is meant -/

/-- The local name and the namespace under which an attribute is stored that is set by a name. -/
def target (doc : Document) (id : NodeId) (written : String) :
    Option String → String × Option String
  | none => ((QName.ofText written).localName,
      (QName.ofText written).nsPrefix.bind fun nsPrefix => doc.namespaceOf? id (some nsPrefix))
  | some given => (written, (doc.binding? id given).bind fun binding =>
      doc.namespaceOf? id (some binding.1))

/-- Whether an attribute that is set by a name is not the one that is read by it: another one of the
written name comes first, or the prefix for the namespace is `xml`, which never stands for another
namespace than its own. -/
def isObstructed (doc : Document) (id : NodeId) (written : String) : Option String → Bool
  | none => ((doc.attributes id).takeWhile (Attribute.isOther (doc.target id written none))).any
      fun attr => !attr.isDeclaration && attr.name.toText == written
  | some given => (doc.binding? id given).any fun (nsPrefix, uri) =>
      nsPrefix == "xml" && uri != xmlNamespace

/-- Whether an attribute has the local name of a written name and is in the namespace that the
prefix stands for, if there is one. -/
def isMeant (doc : Document) (id : NodeId) (written : String) (attr : Attribute) : Bool :=
  attr.name.localName == (QName.ofText written).localName &&
    (QName.ofText written).nsPrefix.all fun nsPrefix =>
      attr.uri.isSome && doc.namespaceOf? id (some nsPrefix) == attr.uri

/-- Whether an attribute that is no declaration is one of those that a name is read as. -/
def isRead (written : String) (attr : Attribute) : Bool :=
  !attr.isDeclaration && (attr.name.toText == written || attr.name.localName == written)

/-- A prefix for a namespace stands for the namespace that is meant, or it is `xml` and was declared
to stand for it. -/
theorem binding?_spec {given nsPrefix uri : String}
    (found : doc.binding? id given = some (nsPrefix, uri)) :
    doc.namespaceMeant id given = uri ∧
      (doc.namespaceOf? id (some nsPrefix) = some uri ∨
        nsPrefix = "xml" ∧ (some "xml", uri) ∈ doc.declarations id) := by
  unfold binding? at found
  unfold namespaceMeant
  cases bound : doc.namespaceOf? id (some given) with
  | some meant =>
    rw [bound] at found
    obtain ⟨rfl, rfl⟩ := Prod.mk.inj (Option.some.inj found)
    exact ⟨rfl, .inl bound⟩
  | none =>
    rw [bound] at found
    dsimp only at found
    split at found
    · rename_i same
      obtain ⟨rfl, rfl⟩ := Prod.mk.inj (Option.some.inj found)
      exact ⟨rfl, .inl (by rw [namespaceOf?_xml, beq_iff_eq.mp same])⟩
    · obtain ⟨⟨key, value⟩, listed, shown⟩ := List.exists_of_findSome?_eq_some found
      dsimp only at shown
      split at shown
      · rename_i same
        obtain ⟨before, rfl, pair⟩ := Option.map_eq_some_iff.mp shown
        obtain ⟨rfl, rfl⟩ := Prod.mk.inj pair
        refine ⟨(beq_iff_eq.mp same).symm, ?_⟩
        obtain ⟨declared, filled⟩ := mem_namespaces.mp listed
        by_cases isXml : before = "xml"
        · obtain ⟨earlier, later, split, -⟩ := List.lookup_eq_some_iff.mp declared
          exact .inr ⟨isXml, by rw [split, isXml]; simp⟩
        · left
          rw [namespaceOf?_eq (by simpa using isXml), declared]
          simpa using filled
      · cases shown

/-! ## Changes of the attributes of a node -/

variable {change : List Attribute → List Attribute}

theorem ancestors_modifyAttributes :
    (doc.modifyAttributes id change).ancestors = doc.ancestors := by
  have size : (doc.modifyAttributes id change).slots.size = doc.slots.size := size_modify _
  have above : (doc.modifyAttributes id change).parent = doc.parent := by
    funext other
    simp [modifyAttributes, modifyKind]
  funext other
  rw [ancestors, ancestors, along, along, size, above]

/-- Whatever becomes of the attributes of a node, nodes stay where they are. -/
theorem isAttached_modifyAttributes :
    (doc.modifyAttributes id change).isAttached = doc.isAttached := by
  funext other
  have size : (doc.modifyAttributes id change).slots.size = doc.slots.size := size_modify _
  have generation : ((doc.modifyAttributes id change).slot other).generation =
      (doc.slot other).generation := by
    rw [modifyAttributes, modifyKind, slot_modify]
    split <;> rfl
  have current : (doc.modifyAttributes id change).contains other = doc.contains other := by
    rw [Bool.eq_iff_iff, contains_iff, contains_iff, size, generation]
  have removed : (doc.modifyAttributes id change).isRemoved other = doc.isRemoved other := by
    simp [modifyAttributes, modifyKind]
  rw [isAttached, isAttached, current, removed, ancestors_modifyAttributes]

theorem attributes_modifyAttributes (inside : id.index < doc.slots.size)
    (fits : (doc.kind id).isElement = true ∨ change [] = []) :
    (doc.modifyAttributes id change).attributes id = change (doc.attributes id) := by
  rw [attributes, modifyAttributes, kind_modifyKind, if_pos ⟨rfl, inside⟩, attributes]
  cases kind : doc.kind id with
  | element name uri attributes => rfl
  | _ =>
    rw [kind] at fits
    exact (fits.resolve_left (by simp [NodeKind.isElement])).symm

/-- Prefixes stand for what they stood for if no declarations come or go. -/
theorem namespaceOf?_modifyAttributes
    (declares : ∀ attributes, Attribute.bindings (change attributes) =
      Attribute.bindings attributes) :
    (doc.modifyAttributes id change).namespaceOf? id = doc.namespaceOf? id := by
  refine namespaceOf?_congr (congrFun ancestors_modifyAttributes id) fun other _ => ?_
  rw [attributes, modifyAttributes, kind_modifyKind, attributes]
  split
  · cases doc.kind other with
    | element name uri attributes => exact declares attributes
    | _ => rfl
  · rfl

/-! ## Setting -/

/-- What is set is an attribute of an element that is no declaration. It is stored under its target,
and a prefix that it has is bound there. -/
structure Sets (doc : Document) (id : NodeId) (written : String) (given : Option String)
    (attr : Attribute) : Prop where
  isElement : (doc.kind id).isElement = true
  proper : attr.isDeclaration = false
  key_eq : attr.key = doc.target id written given
  named : given = none → attr.name.toText = written
  bound : attr.uri = attr.name.nsPrefix.bind fun nsPrefix => doc.namespaceOf? id (some nsPrefix)
  through : ∀ given' ∈ given, ∃ nsPrefix uri, doc.binding? id given' = some (nsPrefix, uri) ∧
    attr.name = ⟨some nsPrefix, written⟩

/-- The name of an attribute that is set is as it is written, or has the prefix for the namespace
that is given. -/
theorem name_of_attributeName {name : QName}
    (named : doc.attributeName id written given = .ok name) :
    (given = none → name = QName.ofText written) ∧
      ∀ given' ∈ given, ∃ nsPrefix uri, doc.binding? id given' = some (nsPrefix, uri) ∧
        name = ⟨some nsPrefix, written⟩ := by
  cases given with
  | none =>
    obtain ⟨passed, -, same⟩ := bind_eq_ok.mp named
    cases same
    exact ⟨fun _ => rfl, fun _ absent => by cases absent⟩
  | some given =>
    obtain ⟨passed, -, found⟩ := bind_eq_ok.mp named
    split at found
    · rename_i nsPrefix uri bound
      cases found
      exact ⟨(by cases ·), fun _ same => ⟨nsPrefix, uri, Option.some.inj same ▸ bound, rfl⟩⟩
    · cases found

theorem exists_of_assign (assigned : doc.assign id written given value = .ok doc') :
    ∃ attr, doc.Sets id written given attr ∧ attr.value = value ∧
      doc' = doc.setAttribute id attr := by
  obtain ⟨passed, isElement, assigned⟩ := bind_eq_ok.mp assigned
  obtain ⟨passed', writable, assigned⟩ := bind_eq_ok.mp assigned
  obtain ⟨name, named, assigned⟩ := bind_eq_ok.mp assigned
  obtain ⟨passed'', proper, assigned⟩ := bind_eq_ok.mp assigned
  have stored : doc' = doc.setAttribute id
      ⟨name, name.nsPrefix.bind fun nsPrefix => doc.namespaceOf? id (some nsPrefix), value⟩ := by
    split at assigned
    · rename_i nsPrefix prefixed
      obtain ⟨found, checked, assigned⟩ := bind_eq_ok.mp assigned
      cases assigned
      rw [prefixed, Option.bind_some, bound_of_demandNamespace checked]
    · rename_i bare
      cases assigned
      rw [bare]
      rfl
  obtain ⟨asWritten, through⟩ := name_of_attributeName named
  refine ⟨_, ⟨of_demand isElement, ?_, ?_, ?_, rfl, through⟩, rfl, stored⟩
  · have checked := of_demand proper
    rwa [Bool.not_eq_true'] at checked
  · cases given with
    | none =>
      rw [asWritten rfl]
      rfl
    | some given =>
      obtain ⟨nsPrefix, uri, bound, rfl⟩ := through given rfl
      rw [target, bound]
      rfl
  · intro plain
    rw [asWritten plain]
    exact QName.toText_ofText written

theorem namespaceOf?_setAttribute (proper : attr.isDeclaration = false) :
    (doc.setAttribute id attr).namespaceOf? id = doc.namespaceOf? id :=
  namespaceOf?_modifyAttributes (Attribute.bindings_putIn proper)

/-- Setting an attribute leaves all others of the element as they are. -/
theorem Sets.filter_attributes (sets : doc.Sets id written given attr)
    (inside : id.index < doc.slots.size) :
    ((doc.setAttribute id attr).attributes id).filter
        (Attribute.isOther (doc.target id written given)) =
      (doc.attributes id).filter (Attribute.isOther (doc.target id written given)) := by
  rw [setAttribute, attributes_modifyAttributes inside (.inl sets.isElement), ← sets.key_eq]
  exact Attribute.filter_putIn sets.proper

/-- By its written name the attribute that was set is found, unless it is obstructed. -/
theorem Sets.attributeNamed?_written (sets : doc.Sets id written none attr)
    (inside : id.index < doc.slots.size) :
    (doc.setAttribute id attr).attributeNamed? id written none =
      if doc.isObstructed id written none then doc.attributeNamed? id written none
      else some attr := by
  have found : (!attr.isDeclaration && attr.name.toText == written) = true := by
    simp [sets.proper, sets.named rfl]
  simp only [attributeNamed?, isObstructed, Attribute.find?_proper]
  rw [setAttribute, attributes_modifyAttributes inside (.inl sets.isElement), ← sets.key_eq]
  rw [Attribute.find?_putIn sets.proper found]
  split
  · rename_i obstructed
    obtain ⟨other, listed, called⟩ := List.any_eq_true.mp obstructed
    have some : ((doc.attributes id).find? fun attr =>
        !attr.isDeclaration && attr.name.toText == written).isSome :=
      List.find?_isSome.mpr ⟨other, (List.takeWhile_sublist _).mem listed, called⟩
    obtain ⟨first, some⟩ := Option.isSome_iff_exists.mp some
    rw [some]
    rfl
  · rfl

/-- In a namespace the attribute that was set is found, unless it is obstructed. -/
theorem Sets.attributeNamed?_given {given : String} (sets : doc.Sets id written (some given) attr)
    (inside : id.index < doc.slots.size) :
    (doc.setAttribute id attr).attributeNamed? id written (some given) =
      if doc.isObstructed id written (some given) then
        doc.attributeNamed? id written (some given)
      else some attr := by
  obtain ⟨nsPrefix, uri, bound, name⟩ := sets.through given rfl
  obtain ⟨meant, stands⟩ := binding?_spec bound
  have meant' : (doc.setAttribute id attr).namespaceMeant id given = uri := by
    rw [namespaceMeant, namespaceOf?_setAttribute sets.proper, ← meant, namespaceMeant]
  have stored : attr.uri = doc.namespaceOf? id (some nsPrefix) := by
    rw [sets.bound, name]
    rfl
  have localName : attr.name.localName = written := by rw [name]
  simp only [attributeNamed?, isObstructed, Attribute.find?_proper, bound, meant, meant',
    Option.any_some]
  rw [setAttribute, attributes_modifyAttributes inside (.inl sets.isElement)]
  split
  · rename_i obstructed
    rw [Bool.and_eq_true, beq_iff_eq, bne_iff_ne] at obstructed
    obtain ⟨rfl, distinct⟩ := obstructed
    refine Attribute.find?_putIn_of_not sets.proper fun other called => ?_
    simp only [Bool.and_eq_true, Bool.not_eq_true', beq_iff_eq] at called
    have apart : other.key ≠ attr.key := fun same => by
      have same := congrArg Prod.snd same
      rw [Attribute.key, Attribute.key, called.2.1, stored, namespaceOf?_xml] at same
      exact distinct (Option.some.inj same)
    simp [Attribute.isOther, apart]
  · rename_i free
    have stored : attr.uri = some uri := by
      rcases stands with bound | ⟨isXml, -⟩
      · rw [stored, bound]
      · have same : uri = xmlNamespace := by simpa [isXml] using free
        rw [stored, isXml, namespaceOf?_xml, same]
    rw [Attribute.find?_putIn sets.proper (by simp [sets.proper, stored, localName]), if_neg]
    intro obstructed
    obtain ⟨other, listed, called⟩ := List.any_eq_true.mp obstructed
    simp only [Bool.and_eq_true, Bool.not_eq_true', beq_iff_eq] at called
    have apart := List.mem_takeWhile_imp listed
    simp [Attribute.isOther, Attribute.key, called, stored, localName] at apart

/-! ## Removing -/

theorem isAttached_unassign : (doc.unassign id written).isAttached = doc.isAttached := by
  unfold unassign
  split
  · exact isAttached_modifyAttributes
  · split
    · exact isAttached_modifyAttributes
    · rfl

/-- Of the attributes of a node those go that are meant. -/
theorem attributes_unassign (inside : id.index < doc.slots.size) :
    (doc.unassign id written).attributes id = (doc.attributes id).filter fun attr =>
      attr.isDeclaration || !doc.isMeant id written attr := by
  unfold unassign
  split
  · rename_i localName split
    rw [removeAttribute, attributes_modifyAttributes inside (.inr rfl)]
    refine List.filter_congr fun attr _ => ?_
    simp [isMeant, split, Attribute.isNamed]
  · rename_i nsPrefix localName split
    split
    · rename_i uri bound
      rw [removeAttribute, attributes_modifyAttributes inside (.inr rfl)]
      refine List.filter_congr fun attr _ => ?_
      simp only [isMeant, split, bound, Attribute.isNamed, Option.all_some, Bool.not_and,
        Bool.not_not]
      cases attr.uri with
      | none => simp
      | some uri' => simp [Bool.or_assoc, BEq.comm (a := uri)]
    · rename_i unbound
      refine (List.filter_eq_self.mpr fun attr _ => ?_).symm
      cases uri : attr.uri <;> simp [isMeant, split, unbound, uri]

theorem attributeNamed?_eq_none : doc.attributeNamed? id written none = none ↔
    ∀ attr ∈ doc.attributes id, isRead written attr = false := by
  simp only [attributeNamed?]
  rw [Option.orElse_eq_none, Attribute.find?_proper, Attribute.find?_proper, List.find?_eq_none,
    List.find?_eq_none, ← forall₂_and]
  refine forall₂_congr fun attr _ => ?_
  rw [isRead]
  cases attr.isDeclaration <;> simp

/-- After a name was removed nothing is read as it, unless something that was read as it was not
meant. -/
theorem attributeNamed?_unassign (inside : id.index < doc.slots.size) :
    (doc.unassign id written).attributeNamed? id written none = none ↔
      ∀ attr ∈ doc.attributes id, isRead written attr = true →
        doc.isMeant id written attr = true := by
  rw [attributeNamed?_eq_none, attributes_unassign inside]
  constructor
  · intro unread attr listed read
    by_contra other
    have kept : (attr.isDeclaration || !doc.isMeant id written attr) = true := by
      rw [Bool.eq_false_iff.mpr other, Bool.not_false, Bool.or_true]
    rw [unread attr (List.mem_filter.mpr ⟨listed, kept⟩)] at read
    cases read
  · intro meant attr member
    obtain ⟨listed, kept⟩ := List.mem_filter.mp member
    refine Bool.eq_false_iff.mpr fun read => ?_
    rw [meant attr listed read, Bool.not_true, Bool.or_false] at kept
    rw [isRead, kept] at read
    cases read

/-! ## What is read by a name without a prefix -/

/-- Where all attributes without a prefix are in no namespace, nothing obstructs an attribute that
is set by a name without a prefix. -/
theorem isObstructed_of_plain (only : ∀ attr ∈ doc.attributes id, attr.NeedsPrefix)
    (plain : ':' ∉ written.toList) : doc.isObstructed id written none = false := by
  refine Bool.eq_false_iff.mpr fun obstructed => ?_
  obtain ⟨other, listed, called⟩ := List.any_eq_true.mp obstructed
  obtain ⟨proper, spelled⟩ : other.isDeclaration = false ∧ other.name.toText = written := by
    simpa using called
  have name := QName.eq_of_toText plain spelled
  have bare := only other ((List.takeWhile_sublist _).mem listed) (by rw [name])
  have apart := List.mem_takeWhile_imp listed
  simp [Attribute.isOther, Attribute.key, target, proper, name, bare, QName.ofText_of_plain plain]
    at apart

/-- A name without a prefix means all that is read as it. -/
theorem isMeant_of_plain (plain : ':' ∉ written.toList) (read : isRead written attr = true) :
    doc.isMeant id written attr = true := by
  have localName : attr.name.localName = written := by
    obtain ⟨-, spelled | same⟩ : attr.isDeclaration = false ∧
        (attr.name.toText = written ∨ attr.name.localName = written) := by
      simpa [isRead] using read
    · rw [QName.eq_of_toText plain spelled]
    · exact same
  simp [isMeant, QName.ofText_of_plain plain, localName]

end Document
end Markup
