import Markup.Proofs.Outcome
import Markup.Proofs.Workspace.Whole
import Markup.Workspace.Basic
import Markup.Workspace.Change

/-!
# Changes keep documents whole

Each change checks what it is given before it does anything. What the checks let through can be
written where it goes.
-/

namespace Markup

open Xml

/-! ## Attributes -/

namespace Attribute

variable {attr : Attribute} {attributes : List Attribute}

theorem mem_putIn {other : Attribute} (member : other ∈ attr.putIn attributes) :
    other = attr ∨ other ∈ attributes := by
  induction attributes with
  | nil => exact .inl (List.mem_singleton.mp member)
  | cons first rest ih =>
    rw [putIn] at member
    split at member
    · rcases List.mem_cons.mp member with same | later
      · exact .inl same
      · exact .inr (List.mem_cons_of_mem _ later)
    · rcases List.mem_cons.mp member with rfl | later
      · exact .inr List.mem_cons_self
      · exact (ih later).imp_right (List.mem_cons_of_mem _)

/-- An attribute takes the place of the one that it may not stand beside. -/
theorem pairwise_putIn
    (distinct : attributes.Pairwise fun left right => left.sameIdentity right = false) :
    (attr.putIn attributes).Pairwise fun left right => left.sameIdentity right = false := by
  induction attributes with
  | nil => exact List.pairwise_singleton _ _
  | cons first rest ih =>
    obtain ⟨apart, distinct⟩ := List.pairwise_cons.mp distinct
    rw [putIn]
    split
    · rename_i same
      rw [sameIdentity_iff] at same
      refine List.pairwise_cons.mpr ⟨fun other member => ?_, distinct⟩
      have other' := apart other member
      rw [← Bool.not_eq_true, sameIdentity_iff] at other' ⊢
      rwa [← same.1, ← same.2.1, ← same.2.2]
    · rename_i different
      refine List.pairwise_cons.mpr ⟨fun other member => ?_, ih distinct⟩
      rcases mem_putIn member with rfl | member
      · exact Bool.eq_false_iff.mpr different
      · exact apart other member

theorem bindings_putIn (other : attr.isDeclaration = false) (attributes : List Attribute) :
    bindings (attr.putIn attributes) = bindings attributes := by
  induction attributes with
  | nil => simp [putIn, bindings, binding?_eq_none other]
  | cons first rest ih =>
    rw [putIn]
    split
    · rename_i same
      have other' := (sameIdentity_iff.mp same).2.2.trans other
      rw [bindings_cons, bindings_cons, binding?_eq_none other, binding?_eq_none other']
    · rw [bindings_cons, bindings_cons, ih]

theorem bindings_filter (localName : String) (uri : Option String) (attributes : List Attribute) :
    bindings (attributes.filter fun attr => !attr.isNamed localName uri) = bindings attributes := by
  induction attributes with
  | nil => rfl
  | cons first rest ih =>
    cases named : first.isNamed localName uri with
    | false =>
      rw [List.filter_cons_of_pos (by simp [named]), bindings_cons, bindings_cons, ih]
    | true =>
      have other : first.isDeclaration = false := by
        rw [isNamed, Bool.and_eq_true, Bool.and_eq_true] at named
        simpa using named.1.1
      rw [List.filter_cons_of_neg (by simp [named]), ih, bindings_cons, binding?_eq_none other]
      rfl

end Attribute

namespace IsSoundTag

variable {bound : Option String → Option String} {name : QName} {uri : Option String}
  {attributes : List Attribute} {attr : Attribute}

theorem putIn (sound : IsSoundTag bound name uri attributes) (new : attr.IsSound bound) :
    IsSoundTag bound name uri (attr.putIn attributes) :=
  { sound with
    listed := by
      intro other member
      rcases Attribute.mem_putIn member with rfl | member
      · exact new
      · exact sound.listed other member
    distinct := Attribute.pairwise_putIn sound.distinct }

theorem filter (sound : IsSoundTag bound name uri attributes) (keep : Attribute → Bool) :
    IsSoundTag bound name uri (attributes.filter keep) :=
  { sound with
    listed := fun other member => sound.listed other (List.mem_of_mem_filter member)
    distinct := sound.distinct.filter keep }

end IsSoundTag

namespace Document

variable {doc doc' : Document} {top id child : NodeId} {written value : String}
  {nsPrefix uri : String} {name : QName} {given : Option String}

/-! ## Checks -/

theorem demand_eq_ok {condition : Bool} {otherwise : Refusal} {passed : Unit} :
    demand condition otherwise = .ok passed ↔ condition = true := by
  cases condition <;> simp [demand]

theorem of_demand {condition : Bool} {otherwise : Refusal} {passed : Unit}
    (checked : demand condition otherwise = .ok passed) : condition = true :=
  demand_eq_ok.mp checked

theorem isLegal_of_demandWritable {text : String} {passed : Unit}
    (checked : demandWritable text = .ok passed) : IsLegal text.toList :=
  List.all_eq_true.mp (of_demand checked)

theorem isWellFormed_of_demandName (checked : demandName written = .ok name) :
    name.isWellFormed = true := by
  obtain ⟨passed, qualified, same⟩ := bind_eq_ok.mp checked
  cases same
  exact of_demand qualified

theorem bound_of_demandNamespace (checked : doc.demandNamespace id nsPrefix = .ok uri) :
    doc.namespaceOf? id (some nsPrefix) = some uri := by
  unfold demandNamespace at checked
  split at checked
  · cases checked
    assumption
  · cases checked

theorem isElement_of_demandElement {passed : Unit} (checked : doc.demandElement id = .ok passed) :
    (doc.kind id).isElement = true := of_demand checked

/-- The text of a comment that passes the check can be read: its end comes where it ends. -/
theorem isComment_of_fitsComment {text : String} (legal : IsLegal text.toList)
    (fits : fitsComment text = true) : IsComment text.toList := by
  refine ⟨legal, ?_⟩
  rw [fitsComment, Bool.and_eq_true, Bool.not_eq_true', bne_iff_ne] at fits
  obtain ⟨single, solid⟩ := fits
  generalize text.toList = chars at single solid
  induction chars with
  | nil => trivial
  | cons c rest ih =>
    rw [Text.contains, Text.splitAround] at single
    split at single
    · cases single
    · rename_i apart
      rw [Option.isSome_map] at single
      have solid' : rest.getLast? ≠ some '-' := by
        intro ends
        exact solid (by simp [List.getLast?_cons, ends])
      refine ⟨?_, ih single solid'⟩
      intro begins
      cases rest with
      | nil =>
        obtain ⟨rfl, -⟩ := List.cons_prefix_cons.mp begins
        exact solid rfl
      | cons d more =>
        obtain ⟨rfl, later⟩ := List.cons_prefix_cons.mp begins
        obtain ⟨rfl, -⟩ := List.cons_prefix_cons.mp later
        exact apart rfl

/-! ## What a change leaves -/

/-- Kinds of node that are the same to all others: both elements or neither, with the same
bindings. -/
structure IsLike (kind kind' : NodeKind) : Prop where
  isElement : kind'.isElement = kind.isElement
  hasHandle : kind'.hasHandle = kind.hasHandle
  bindings : Attribute.bindings kind'.attributes = Attribute.bindings kind.attributes

/-- What a change of a node comes to: the node is and holds something else that can be written in its
place, or nodes are removed with everything below them, or after that an element gets a new last
child that can be written there. -/
inductive Revised (doc : Document) (id : NodeId) : Document → Prop
  | rekinded {change : NodeKind → NodeKind} (like : ∀ kind, IsLike kind (change kind))
      (sound : (doc.kind id).IsSound (doc.namespaceOf? id) →
        (change (doc.kind id)).IsSound (doc.namespaceOf? id)) :
      Revised doc id (doc.modifyKind id change)
  | pruned {doc' : Document} {gone : List NodeId} (pruned : Pruned doc doc' gone) :
      Revised doc id doc'
  | grown {middle : Document} {gone : List NodeId} {kind : NodeKind}
      (pruned : Pruned doc middle gone) (live : middle.IsLive id)
      (isElement : (doc.kind id).isElement = true) (bare : kind.attributes = [])
      (sound : kind.IsSound (doc.namespaceOf? id)) : Revised doc id (middle.grow id kind)

namespace Revised

theorem refl (linked : doc.WellLinked) : Revised doc id doc := .pruned (.refl linked)

/-! ## Names and attributes -/

theorem rename {uri : Option String} (sound : ∀ current before attributes,
    doc.kind id = .element current before attributes →
    IsSoundTag (doc.namespaceOf? id) current before attributes →
    IsSoundTag (doc.namespaceOf? id) name uri attributes) :
    Revised doc id (doc.rename id name uri) := by
  refine .rekinded (fun kind => ?_) fun before => ?_
  · cases kind <;> exact ⟨rfl, rfl, rfl⟩
  · cases kind : doc.kind id with
    | element current uri attributes =>
      rw [kind] at before
      exact sound current uri attributes kind before
    | _ => rwa [kind] at before

theorem retag (changed : doc.retag id written = .ok doc') : Revised doc id doc' := by
  unfold Document.retag at changed
  split at changed
  · rename_i current uri attributes kind
    obtain ⟨name, named, changed⟩ := bind_eq_ok.mp changed
    have formed := isWellFormed_of_demandName named
    split at changed
    · rename_i nsPrefix prefixed
      obtain ⟨found, checked, changed⟩ := bind_eq_ok.mp changed
      cases changed
      have bound := bound_of_demandNamespace checked
      refine rename fun current before attributes kind' sound => ?_
      exact { sound with
        formed := formed
        uri_eq := by rw [prefixed, bound]
        resolved := fun _ => rfl }
    · cases changed
      refine rename fun current' before attributes kind' sound => ?_
      rw [kind] at kind'
      cases kind'
      have parts := QName.isWellFormed_iff.mp sound.formed
      have parts' := QName.isWellFormed_iff.mp formed
      exact { sound with formed := QName.isWellFormed_iff.mpr ⟨parts.1, parts'.2⟩ }
  · cases changed

theorem modifyAttributes {change : List Attribute → List Attribute}
    (declares : ∀ attributes, Attribute.bindings (change attributes) =
      Attribute.bindings attributes)
    (sound : ∀ name uri attributes, IsSoundTag (doc.namespaceOf? id) name uri attributes →
      IsSoundTag (doc.namespaceOf? id) name uri (change attributes)) :
    Revised doc id (doc.modifyAttributes id change) := by
  refine .rekinded (fun kind => ?_) fun before => ?_
  · cases kind with
    | element name uri attributes => exact ⟨rfl, rfl, declares attributes⟩
    | _ => exact ⟨rfl, rfl, rfl⟩
  · cases kind : doc.kind id with
    | element name uri attributes =>
      rw [kind] at before
      exact sound name uri attributes before
    | _ => rwa [kind] at before

theorem isPlainName_of_attributeName (named : doc.attributeName id written given = .ok name) :
    isPlainName name.localName = true := by
  unfold attributeName at named
  split at named
  · obtain ⟨passed, checked, named⟩ := bind_eq_ok.mp named
    split at named
    · cases named
      exact of_demand checked
    · cases named
  · exact (QName.isWellFormed_iff.mp (isWellFormed_of_demandName named)).2

/-- An attribute that is no declaration goes where its prefix, if it has one, is bound. -/
theorem setAttribute {uri : Option String}
    (other : (Attribute.mk name uri value).isDeclaration = false)
    (formed : name.isWellFormed = true) (legal : IsLegal value.toList)
    (bound : match name.nsPrefix with
      | none => uri = none
      | some nsPrefix => uri.isSome ∧ doc.namespaceOf? id (some nsPrefix) = uri) :
    Revised doc id (doc.setAttribute id ⟨name, uri, value⟩) := by
  refine modifyAttributes (Attribute.bindings_putIn other) fun current before attributes sound => ?_
  apply sound.putIn
  obtain ⟨_ | nsPrefix, localName⟩ := name
  · subst bound
    exact {
      formed := formed
      legal := legal
      uri_eq := by rw [Attribute.uriIn, other]
      resolved := nofun
      fixed := by simp [Attribute.declared?, other] }
  · obtain ⟨found, resolved⟩ := bound
    obtain ⟨uri, rfl⟩ := Option.isSome_iff_exists.mp found
    exact {
      formed := formed
      legal := legal
      uri_eq := by
        rw [Attribute.uriIn, other]
        exact resolved.symm
      resolved := fun _ _ => rfl
      fixed := by simp [Attribute.declared?, other] }

/-- Where bound prefixes are names, an attribute that is set can be written. -/
theorem assign (declared : (doc.kind id).isElement = true → ∀ {nsPrefix uri},
      doc.namespaceOf? id (some nsPrefix) = some uri → isPlainName nsPrefix = true)
    (changed : doc.assign id written given value = .ok doc') : Revised doc id doc' := by
  obtain ⟨passed, isElement, changed⟩ := bind_eq_ok.mp changed
  obtain ⟨passed', writable, changed⟩ := bind_eq_ok.mp changed
  obtain ⟨name, named, changed⟩ := bind_eq_ok.mp changed
  obtain ⟨passed'', proper, changed⟩ := bind_eq_ok.mp changed
  have legal := isLegal_of_demandWritable writable
  have solid := isPlainName_of_attributeName named
  have other : ∀ uri, (Attribute.mk name uri value).isDeclaration = false := by
    intro uri
    have checked := of_demand proper
    rwa [Bool.not_eq_true'] at checked
  split at changed
  · rename_i nsPrefix prefixed
    obtain ⟨found, checked, changed⟩ := bind_eq_ok.mp changed
    cases changed
    have bound := bound_of_demandNamespace checked
    have plain := declared (of_demand isElement) bound
    refine setAttribute (other _) ?_ legal ?_
    · exact QName.isWellFormed_iff.mpr ⟨by simpa [prefixed] using plain, solid⟩
    · rw [prefixed]
      exact ⟨rfl, bound⟩
  · rename_i bare
    cases changed
    refine setAttribute (other _) ?_ legal ?_
    · exact QName.isWellFormed_iff.mpr ⟨by simp [bare], solid⟩
    · rw [bare]

theorem removeAttribute (localName : String) (uri : Option String) :
    Revised doc id (doc.removeAttribute id localName uri).2 :=
  modifyAttributes (Attribute.bindings_filter localName uri)
    fun _ _ _ sound => sound.filter _

theorem unassign (linked : doc.WellLinked) (written : String) :
    Revised doc id (doc.unassign id written) := by
  unfold Document.unassign
  split
  · exact removeAttribute _ _
  · split
    · exact removeAttribute _ _
    · exact .refl linked

/-! ## Removals -/

theorem remove (linked : doc.WellLinked) (live : doc.IsLive id) (other : id ≠ root) :
    Revised doc id (doc.remove id).2 := .pruned (linked.pruned_remove live other)

/-- Removing some children of a node leaves the node. -/
theorem exists_pruned_removeAll (linked : doc.WellLinked) (live : doc.IsLive id)
    {ids : List NodeId} (below : ids ⊆ doc.children id) :
    ∃ gone, Pruned doc (doc.removeAll ids).2 gone ∧ (doc.removeAll ids).2.IsLive id := by
  obtain ⟨gone, subset, pruned⟩ : ∃ gone, gone ⊆ ids ∧
      Pruned doc (doc.removeAll ids).2 gone := by
    apply linked.pruned_removeAll
    intro child member
    obtain ⟨liveC, above⟩ := linked.child live (below member)
    refine ⟨liveC.numbered, ?_⟩
    rintro rfl
    rw [linked.root_top] at above
    cases above
  refine ⟨gone, pruned, (pruned.live_iff id).mpr ⟨live, fun child member above => ?_⟩⟩
  exact linked.ne_of_above live (below (subset member)) above rfl

theorem removeAll (linked : doc.WellLinked) (live : doc.IsLive id) {ids : List NodeId}
    (below : ids ⊆ doc.children id) : Revised doc id (doc.removeAll ids).2 := by
  obtain ⟨gone, pruned, -⟩ := exists_pruned_removeAll linked live below
  exact .pruned pruned

/-! ## Text -/

theorem setContent (legal : IsLegal value.toList)
    (fits : ∀ content, doc.kind id = .comment content → IsComment value.toList) :
    Revised doc id (doc.setContent id value) := by
  refine .rekinded (fun kind => ?_) fun before => ?_
  · cases kind <;> exact ⟨rfl, rfl, rfl⟩
  · cases kind : doc.kind id with
    | text => exact legal
    | cdata => exact legal
    | comment content => exact fits content kind
    | _ => rwa [kind] at before

theorem replaceText (linked : doc.WellLinked) (live : doc.IsLive id)
    (changed : doc.replaceText id value = .ok doc') : Revised doc id doc' := by
  obtain ⟨passed, writable, changed⟩ := bind_eq_ok.mp changed
  have legal := isLegal_of_demandWritable writable
  split at changed
  · rename_i name uri attributes kind
    obtain ⟨gone, pruned, live'⟩ := exists_pruned_removeAll linked live (List.Subset.refl _)
    dsimp only at changed
    split at changed
    · cases changed
      exact .pruned pruned
    · cases changed
      exact .grown pruned live' (by rw [kind]; rfl) rfl legal
  · rename_i content kind
    cases changed
    exact setContent legal (by simp [kind])
  · rename_i content kind
    cases changed
    exact setContent legal (by simp [kind])
  · obtain ⟨passed, checked, changed⟩ := bind_eq_ok.mp changed
    cases changed
    exact setContent legal fun _ _ => isComment_of_fitsComment legal (of_demand checked)
  · cases changed

/-! ## New nodes -/

theorem extendText (linked : doc.WellLinked) (live : doc.IsLive id)
    (changed : doc.extendText id value = .ok (child, doc')) : Revised doc id doc' := by
  obtain ⟨passed, checked, changed⟩ := bind_eq_ok.mp changed
  obtain ⟨passed', writable, changed⟩ := bind_eq_ok.mp changed
  cases changed
  exact .grown (.refl linked) live (isElement_of_demandElement checked) rfl
    (isLegal_of_demandWritable writable)

theorem extendElement (linked : doc.WellLinked) (live : doc.IsLive id)
    (changed : doc.extendElement id written = .ok (child, doc')) : Revised doc id doc' := by
  obtain ⟨passed, checked, changed⟩ := bind_eq_ok.mp changed
  obtain ⟨name, named, changed⟩ := bind_eq_ok.mp changed
  have isElement := isElement_of_demandElement checked
  have formed := isWellFormed_of_demandName named
  split at changed
  · rename_i nsPrefix prefixed
    obtain ⟨found, checked, changed⟩ := bind_eq_ok.mp changed
    cases changed
    refine .grown (.refl linked) live isElement rfl ?_
    exact {
      formed := formed
      uri_eq := by rw [prefixed, bound_of_demandNamespace checked]
      resolved := fun _ => rfl
      listed := nofun
      distinct := .nil }
  · rename_i bare
    cases changed
    refine .grown (.refl linked) live isElement rfl ?_
    exact {
      formed := formed
      uri_eq := by rw [bare]
      resolved := by simp [bare]
      listed := nofun
      distinct := .nil }

end Revised

/-! ## Whole documents stay whole -/

namespace Whole

/-- What binds a prefix at a node of the tree is a declaration that can be written. -/
theorem exists_declaration (whole : doc.Whole top) (within : doc.IsWithin top id)
    {bound : Option String} (listed : (bound, uri) ∈ doc.declarations id) :
    ∃ (attr : Attribute) (bindings : Option String → Option String),
      attr.IsSound bindings ∧ attr.declared? = some bound ∧ attr.value = uri := by
  obtain ⟨above, path, binds⟩ := List.mem_flatMap.mp listed
  obtain ⟨attr, member, declares, value⟩ := Attribute.exists_of_mem_bindings binds
  rw [attributes] at member
  cases kind : doc.kind above with
  | element name uri attributes =>
    have sound := whole.sound above (whole.within_above within path (by rw [kind]; rfl))
    rw [kind] at sound member
    exact ⟨attr, _, sound.listed attr member, declares, value⟩
  | _ => simp [kind, NodeKind.attributes] at member

/-- A prefix that stands for something is declared further up, and declared prefixes are names. -/
theorem isPlainName_of_bound (whole : doc.Whole top) (within : doc.IsWithin top id)
    (bound : doc.namespaceOf? id (some nsPrefix) = some uri) : isPlainName nsPrefix = true := by
  by_cases isXml : nsPrefix = "xml"
  · subst isXml
    decide
  · rw [namespaceOf?_eq (by simpa using isXml), Option.filter_eq_some_iff] at bound
    obtain ⟨before, after, split, -⟩ := List.lookup_eq_some_iff.mp bound.1
    have listed : (some nsPrefix, uri) ∈ doc.declarations id := by simp [split]
    obtain ⟨attr, bindings, sound, declares, -⟩ := whole.exists_declaration within listed
    have formed := sound.formed
    rw [(Attribute.name_of_declared declares).2] at formed
    exact (QName.isWellFormed_iff.mp formed).2

theorem revised (whole : doc.Whole top) (attached : doc.isAttached id = true)
    (revised : Revised doc id doc') : doc'.Whole top := by
  have live := whole.live attached
  cases revised with
  | rekinded like sound =>
    exact whole.modifyKind live (fun kind => (like kind).isElement)
      (fun kind => (like kind).bindings) fun _ => sound
  | pruned pruned => exact whole.pruned pruned
  | @grown middle gone kind pruned live' isElement bare sound =>
    have above := (whole.linked.isAttached_iff.mp attached).2
    have attached' : middle.isAttached id = true := by
      rw [pruned.linked.isAttached_iff, pruned.ancestors_eq whole.linked live']
      exact ⟨live', above⟩
    rw [← pruned.kind_eq id live'] at isElement
    rw [← pruned.namespaceOf?_eq whole.linked live'] at sound
    exact (whole.pruned pruned).grow attached' isElement bare sound

end Whole
end Document
end Markup
