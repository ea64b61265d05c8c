import Markup.Proofs.Workspace.Whole
import Markup.Proofs.Xml.Elements
import Markup.Proofs.Xml.RoundTrip

/-!
# Whole documents are read again

A document that was parsed strictly is whole if its names keep to the rules on namespaces. Whatever
is whole can be written, and what was written is read with the same elements once the limits are
wide enough.
-/

namespace Markup

namespace Xml

/-- Whether something holds as soon as the limits on depth and on names are wide enough. -/
def Eventually (holds : ParseOptions → Prop) : Prop :=
  ∃ bound, ∀ options : ParseOptions, bound ≤ options.maxDepth → bound ≤ options.maxNameLength →
    holds options

namespace Eventually

variable {holds holds' : ParseOptions → Prop}

theorem of_forall (always : ∀ options, holds options) : Eventually holds :=
  ⟨0, fun options _ _ => always options⟩

theorem mono (eventually : Eventually holds) (weaker : ∀ options, holds options → holds' options) :
    Eventually holds' := by
  obtain ⟨bound, wide⟩ := eventually
  exact ⟨bound, fun options depths names => weaker options (wide options depths names)⟩

theorem and (first : Eventually holds) (second : Eventually holds') :
    Eventually fun options => holds options ∧ holds' options := by
  obtain ⟨bound, wide⟩ := first
  obtain ⟨bound', wide'⟩ := second
  refine ⟨max bound bound', fun options depths names => ⟨?_, ?_⟩⟩
  · apply wide <;> omega
  · apply wide' <;> omega

theorem forall_mem {α : Type} {list : List α} {holds : α → ParseOptions → Prop}
    (each : ∀ item ∈ list, Eventually (holds item)) :
    Eventually fun options => ∀ item ∈ list, holds item options := by
  induction list with
  | nil => exact of_forall fun _ => nofun
  | cons first rest ih =>
    obtain ⟨here, later⟩ := List.forall_mem_cons.mp each
    apply (here.and (ih later)).mono
    intro options both
    exact List.forall_mem_cons.mpr both

end Eventually

/-! ## Tags -/

theorem eventually_isName {name : QName} (formed : name.isWellFormed = true) :
    Eventually fun options => IsName options name.toText := by
  obtain ⟨start, chars⟩ := QName.spelled_of_isWellFormed formed
  exact ⟨Text.byteLength name.toText.toList, fun options _ short => ⟨start, chars, short⟩⟩

variable {options : ParseOptions} {scope : Scope} {name : QName} {uri : Option String}
  {attributes : List Attribute} {attr : Attribute}

theorem eventually_isAttribute (sound : attr.IsSound scope.resolve) :
    Eventually fun options => IsAttribute options scope attr := by
  apply (eventually_isName sound.formed).mono
  intro options named
  exact {
    named := named
    split := QName.ofText_toText sound.formed
    legal := sound.legal
    uri_eq := sound.uri_eq
    bound := sound.resolved }

theorem eventually_isTag (sound : IsSoundTag (scope.declare attributes).resolve name uri attributes) :
    Eventually fun options => IsTag options scope name uri attributes := by
  have listed := Eventually.forall_mem fun attr member =>
    eventually_isAttribute (sound.listed attr member)
  apply ((eventually_isName sound.formed).and listed).mono
  intro options both
  exact {
    named := both.1
    split := QName.ofText_toText sound.formed
    uri_eq := sound.uri_eq
    bound := sound.resolved
    listed := both.2
    distinct := sound.nodup_names }

end Xml

/-- Whether an element keeps to the rules on namespaces, as far as they are relied on: its names are
qualified names, it binds the prefix `xml` to nothing else, and no two of its attributes have the
same local name and namespace. -/
def NodeKind.IsNamespaceWellFormed : NodeKind → Prop
  | .element name _ attributes =>
    name.isWellFormed = true ∧
      (∀ attr ∈ attributes, attr.name.isWellFormed = true ∧
        (attr.declared? = some (some "xml") → attr.value = xmlNamespace)) ∧
      attributes.Pairwise fun left right => left.sameIdentity right = false
  | _ => True

instance : DecidablePred NodeKind.IsNamespaceWellFormed
  | .element .. => inferInstanceAs (Decidable (_ ∧ _ ∧ _))
  | .document | .text _ | .cdata _ | .comment _ | .instruction .. | .doctype .. => isTrue trivial

theorem Xml.IsTag.isSoundTag {options : ParseOptions} {scope : Scope} {name : QName}
    {uri : Option String} {attributes : List Attribute}
    (isTag : IsTag options scope name uri attributes)
    (wellFormed : (NodeKind.element name uri attributes).IsNamespaceWellFormed) :
    IsSoundTag (scope.declare attributes).resolve name uri attributes where
  formed := wellFormed.1
  uri_eq := isTag.uri_eq
  resolved := isTag.bound
  listed attr member :=
    { formed := (wellFormed.2.1 attr member).1
      legal := (isTag.listed attr member).legal
      uri_eq := (isTag.listed attr member).uri_eq
      resolved := (isTag.listed attr member).bound
      fixed := (wellFormed.2.1 attr member).2 }
  distinct := wellFormed.2.2

namespace Document

variable {doc : Document} {top id parent : NodeId}

/-- Whether all elements of a document keep to the rules on namespaces. -/
def IsNamespaceWellFormed (doc : Document) : Prop :=
  ∀ id ∈ doc.order, (doc.kind id).IsNamespaceWellFormed

instance : Decidable doc.IsNamespaceWellFormed :=
  inferInstanceAs (Decidable (∀ id ∈ doc.order, _))

/-! ## From readable trees to whole documents -/

/-- Whether a node is read where a reader knows the bindings that hold at its parent. -/
def IsReadable (options : Xml.ParseOptions) (doc : Document) (id : NodeId) : Prop :=
  ∃ parent scope depth, doc.parent id = some parent ∧ scope.resolve = doc.namespaceOf? parent ∧
    Xml.Readable options depth scope (doc.tree id) ∧ Xml.Canonical (doc.tree id)

theorem IsReadable.child {options : Xml.ParseOptions} (linked : doc.WellLinked)
    (live : doc.IsLive id) (wellFormed : (doc.kind id).IsNamespaceWellFormed)
    (isReadable : doc.IsReadable options id) {child : NodeId} (member : child ∈ doc.children id) :
    doc.IsReadable options child := by
  obtain ⟨parent, scope, depth, above, agree, readable, canonical⟩ := isReadable
  have above' := (linked.child live member).2
  have listed : doc.tree child ∈ (doc.children id).map doc.tree := List.mem_map_of_mem member
  rw [linked.tree_eq live] at readable canonical
  by_cases isElement : (doc.kind id).isElement = true
  · obtain ⟨name, uri, attributes, kind⟩ := NodeKind.exists_of_isElement isElement
    rw [kind] at readable canonical wellFormed
    obtain ⟨-, isTag, inside⟩ := readable
    have sound := isTag.isSoundTag wellFormed
    refine ⟨id, scope.declare attributes, depth + 1, above', ?_, ?_, ?_⟩
    · exact resolve_declare linked live above kind sound agree
    · exact Xml.readableAll_iff.mp inside _ listed
    · exact Xml.canonicalAll_iff.mp canonical.1 _ listed
  · rw [canonical.childless (Bool.eq_false_iff.mpr isElement)] at listed
    cases listed

/-- What is read somewhere can be written there. -/
theorem IsReadable.isSound {options : Xml.ParseOptions} (linked : doc.WellLinked)
    (live : doc.IsLive id) (wellFormed : (doc.kind id).IsNamespaceWellFormed)
    (isReadable : doc.IsReadable options id) : (doc.kind id).IsSound (doc.namespaceOf? id) := by
  obtain ⟨parent, scope, depth, above, agree, readable, -⟩ := isReadable
  rw [linked.tree_eq live] at readable
  cases kind : doc.kind id with
  | element name uri attributes =>
    rw [kind] at readable wellFormed
    have sound := readable.2.1.isSoundTag wellFormed
    rw [resolve_declare linked live above kind sound agree] at sound
    exact sound
  | instruction target data =>
    rw [kind] at readable
    exact ⟨⟨options, readable.1⟩, readable.2⟩
  | _ =>
    rw [kind] at readable
    exact readable

/-- What holds of a node at the top level and of the children of whatever it holds of below, holds of
all below it. -/
theorem WellLinked.descent {motive : NodeId → Prop} (linked : doc.WellLinked)
    (hung : doc.parent top = some root) (first : motive top)
    (step : ∀ id child, doc.IsLive id → top ∈ doc.ancestors id → child ∈ doc.children id →
      motive id → motive child) : ∀ id, doc.IsLive id → top ∈ doc.ancestors id → motive id := by
  refine linked.ascent ?_ ?_
  · intro id live highest above
    rw [HasShape.ancestors_of_top linked live highest] at above
    obtain rfl := List.mem_singleton.mp above
    rw [hung] at highest
    cases highest
  · intro id parent live liveP above ih below
    rw [HasShape.ancestors_of_parent linked live above] at below
    rcases List.mem_cons.mp below with rfl | below
    · exact first
    · exact step parent id liveP below (linked.listed live above).2 (ih below)

/-- What stands below a readable node that hangs from the document node is readable. -/
theorem IsReadable.below {options : Xml.ParseOptions} (linked : doc.WellLinked)
    (wellFormed : ∀ id, doc.isAttached id = true → (doc.kind id).IsNamespaceWellFormed)
    (attached : doc.isAttached top = true) (hung : doc.parent top = some root)
    (isReadable : doc.IsReadable options top) :
    ∀ id, doc.IsLive id → top ∈ doc.ancestors id → doc.IsReadable options id := by
  refine linked.descent hung isReadable fun id child live below listed isReadable => ?_
  have attachedI := linked.isAttached_below live below attached
  exact isReadable.child linked live (wellFormed id attachedI) listed

/-- If all else at the top level has nothing below it, whatever is part of the tree is the document
node, or at the top level, or below the root element. -/
theorem mem_ancestors_or_aside (linked : doc.WellLinked)
    (aside : ∀ other ∈ doc.children root, other = top ∨ Xml.IsAside (doc.tree other))
    (attached : doc.isAttached id = true) :
    id = root ∨ top ∈ doc.ancestors id ∨ Xml.IsAside (doc.tree id) := by
  rw [← linked.mem_order_iff, linked.order_eq, linked.preorder_eq linked.root_live] at attached
  rcases List.mem_cons.mp attached with isRoot | below
  · exact .inl isRoot
  · obtain ⟨child, listed, within⟩ := List.mem_flatMap.mp below
    have liveC := linked.live_of_mem_children linked.root_live listed
    rcases aside child listed with rfl | beside
    · exact .inr (.inl ((linked.mem_preorder_iff liveC).mp within).2)
    · have childless := beside.2.1
      rw [linked.tree_eq liveC] at childless
      rw [linked.preorder_eq liveC, List.map_eq_nil_iff.mp childless] at within
      obtain rfl := List.mem_singleton.mp within
      exact .inr (.inr beside)

/-- A document that was parsed strictly and keeps to the rules on namespaces is whole. Below its root
element it is in normal form. -/
theorem exists_whole_canonical {options : Xml.ParseOptions} (strict : options.recover = false)
    {text : String} (parsed : ofXml options text = .ok doc) (wellFormed : doc.IsNamespaceWellFormed) :
    ∃ top, doc.rootElement? = some top ∧ doc.Whole top ∧ ∀ id, doc.isAttached id = true →
      id = root ∨ top ∈ doc.ancestors id ∧ Xml.Canonical (doc.tree id) ∨
        Xml.IsAside (doc.tree id) := by
  obtain ⟨top, member, found, aside, plain, isElement, readable, canonical⟩ :=
    exists_rootElement_of_ofXml strict parsed
  have linked := wellLinked_ofXml parsed
  obtain ⟨live, hung⟩ := linked.child linked.root_live member
  have attached := linked.isAttached_of_hung live hung
  have ordered : ∀ id, doc.isAttached id = true → (doc.kind id).IsNamespaceWellFormed := by
    intro id attached
    exact wellFormed id (linked.mem_order_iff.mpr attached)
  have isReadable : doc.IsReadable options top :=
    ⟨root, .initial, 0, hung, resolve_initial linked plain, readable, canonical⟩
  have below := isReadable.below linked ordered attached hung
  refine ⟨top, found, ⟨linked, plain, fun _ => hung, fun _ => by rwa [← kind_tree], ?_, ?_⟩, ?_⟩
  · rintro id ⟨live, above⟩
    have attached' := linked.isAttached_below live above attached
    exact (below id live above).isSound linked live (ordered id attached')
  · intro id attached element
    rcases mem_ancestors_or_aside linked aside attached with rfl | above | beside
    · rw [plain] at element
      cases element
    · exact above
    · rw [← kind_tree, beside.1] at element
      cases element
  · intro id attached
    refine (mem_ancestors_or_aside linked aside attached).imp_right fun place => ?_
    refine place.imp_left fun above => ⟨above, ?_⟩
    obtain ⟨_, _, _, _, _, _, canonical⟩ := below id (linked.live_of_isAttached attached) above
    exact canonical

/-- A document that was parsed strictly and keeps to the rules on namespaces is whole. -/
theorem exists_whole {options : Xml.ParseOptions} (strict : options.recover = false)
    {text : String} (parsed : ofXml options text = .ok doc) (wellFormed : doc.IsNamespaceWellFormed) :
    ∃ top, doc.rootElement? = some top ∧ doc.Whole top := by
  obtain ⟨top, found, whole, -⟩ := exists_whole_canonical strict parsed wellFormed
  exact ⟨top, found, whole⟩

/-! ## From whole documents to readable trees -/

namespace Whole

theorem eventually_readable (whole : doc.Whole top) : ∀ id, doc.IsLive id → top ∈ doc.ancestors id →
    ∀ parent scope depth, doc.parent id = some parent → scope.resolve = doc.namespaceOf? parent →
      Xml.Eventually fun options => Xml.Readable options depth scope (doc.tree id) := by
  have linked := whole.linked
  refine linked.induction ?_
  intro id live ih below parent scope depth above agree
  have sound := whole.sound id ⟨live, below⟩
  rw [linked.tree_eq live]
  cases kind : doc.kind id with
  | element name uri attributes =>
    rw [kind] at sound
    have agree' := resolve_declare linked live above kind sound agree
    have tags := Xml.eventually_isTag (agree'.symm ▸ sound)
    have inside := Xml.Eventually.forall_mem fun child member => by
      have path := linked.ancestors_child live member
      have below' : top ∈ doc.ancestors child := by
        rw [path]
        exact List.mem_cons_of_mem _ below
      exact ih child member below' id (scope.declare attributes) (depth + 1)
        (linked.child live member).2 agree'
    have shallow : Xml.Eventually fun options => depth < options.maxDepth :=
      ⟨depth + 1, fun options depths _ => depths⟩
    refine (shallow.and (tags.and inside)).mono fun options all => ⟨all.1, all.2.1, ?_⟩
    rw [Xml.readableAll_iff]
    intro tree listed
    obtain ⟨child, member, rfl⟩ := List.mem_map.mp listed
    exact all.2.2 child member
  | instruction target data =>
    rw [kind] at sound
    obtain ⟨⟨first, isTarget⟩, within⟩ := sound
    refine ⟨first.maxNameLength, fun options _ names => ⟨⟨?_, isTarget.free⟩, within⟩⟩
    exact isTarget.named.mono names
  | _ =>
    rw [kind] at sound
    exact .of_forall fun _ => sound

/-- The root element of a whole document is written as a text that is read with the same elements,
once the limits are wide enough. -/
theorem exists_reread (whole : doc.Whole top) (attached : doc.isAttached top = true) :
    ∃ bound, ∀ options : Xml.ParseOptions, bound ≤ options.maxDepth →
      bound ≤ options.maxNameLength → bound ≤ options.maxTextLength →
      ∃ again other, ofXml options (doc.writeNode {} top) = .ok again ∧
        again.rootElement? = some other ∧ (again.tree other).elements = (doc.tree top).elements := by
  have linked := whole.linked
  have live := whole.live attached
  have hung := whole.hung live
  have spelled : (doc.writeNode {} top).toList = Xml.spell (doc.tree top) :=
    toList_writeNode rfl hung whole.plain
  have isElement : (doc.tree top).kind.isElement = true := by
    rw [kind_tree]
    exact whole.element live
  obtain ⟨bound, wide⟩ := whole.eventually_readable top live
    (HasShape.mem_ancestors_self linked live) root .initial 0 hung
    (resolve_initial linked whole.plain)
  refine ⟨max bound (max 4 (Text.byteLength (doc.writeNode {} top).toList)), ?_⟩
  intro options depths names texts
  have readable := wide options (by omega) (by omega)
  obtain ⟨again, other, read, found, same, -⟩ :=
    exists_ofXml_of_readable options (by omega) isElement readable spelled (by omega)
  refine ⟨again, other, read, found, ?_⟩
  rw [same, Xml.elements_readBack isElement]

end Whole

end Document
end Markup
