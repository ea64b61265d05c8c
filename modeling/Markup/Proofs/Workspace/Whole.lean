import Markup.Proofs.Store.Grow
import Markup.Proofs.Store.Prune
import Markup.Proofs.Workspace.Sound

/-!
# Documents that can be written

A document is whole as long as everything below its root element can be written where it stands.
The changes that documents are made of keep it whole if what they put in can be written there.
-/

namespace Markup.Document

variable {doc doc' : Document} {top id other parent : NodeId} {kind : NodeKind}
  {change : NodeKind → NodeKind}

/-- Whether a node is another one, or stands below it, and is not removed. -/
def IsWithin (doc : Document) (top id : NodeId) : Prop := doc.IsLive id ∧ top ∈ doc.ancestors id

/-- A document whose root element, as long as it is not removed, is a given one and can be written. -/
structure Whole (top : NodeId) (doc : Document) : Prop where
  linked : doc.WellLinked
  plain : (doc.kind root).isElement = false
  hung : doc.IsLive top → doc.parent top = some root
  element : doc.IsLive top → (doc.kind top).isElement = true
  sound : ∀ id, doc.IsWithin top id → (doc.kind id).IsSound (doc.namespaceOf? id)
  /-- There is no other element at the top level, so that no slot used again looks like the root
  element. -/
  single : ∀ id, doc.isAttached id = true → (doc.kind id).isElement = true → top ∈ doc.ancestors id

/-! ## What changes leave alone -/

namespace Extended

theorem namespaceOf?_kept (more : Extended doc doc' parent id kind) (linked : doc.WellLinked)
    (live : doc.IsLive other) : doc'.namespaceOf? other = doc.namespaceOf? other := by
  apply namespaceOf?_congr (more.ancestors_kept linked live)
  intro above listed
  have liveA := HasShape.live_of_mem_ancestors linked live above listed
  rw [attributes, attributes, more.kind_kept above liveA]

/-- A node that declares nothing sees the bindings of its parent. -/
theorem namespaceOf?_new (more : Extended doc doc' parent id kind) (linked : doc.WellLinked)
    (live : doc.IsLive parent) (bare : kind.attributes = []) :
    doc'.namespaceOf? id = doc.namespaceOf? parent := by
  have live' : doc'.IsLive id := (more.live_iff id).mpr (.inl rfl)
  rw [← more.namespaceOf?_kept linked live]
  apply namespaceOf?_of_declarations
  rw [declarations_child more.linked live' more.parent_new, attributes, more.kind_new, bare]
  rfl

end Extended

theorem Pruned.namespaceOf?_eq {gone : List NodeId} (pruned : Pruned doc doc' gone)
    (linked : doc.WellLinked) (live' : doc'.IsLive other) :
    doc'.namespaceOf? other = doc.namespaceOf? other := by
  have path := pruned.ancestors_eq linked live'
  apply namespaceOf?_congr path
  intro above listed
  rw [← path] at listed
  have liveA := HasShape.live_of_mem_ancestors pruned.linked live' above listed
  rw [attributes, attributes, pruned.kind_eq above liveA]

namespace Whole

theorem live (whole : doc.Whole top) (attached : doc.isAttached id = true) : doc.IsLive id :=
  (whole.linked.isAttached_iff.mp attached).1

theorem within (whole : doc.Whole top) (attached : doc.isAttached id = true)
    (isElement : (doc.kind id).isElement = true) : doc.IsWithin top id :=
  ⟨whole.live attached, whole.single id attached isElement⟩

theorem top_live (whole : doc.Whole top) (within : doc.IsWithin top id) : doc.IsLive top :=
  HasShape.live_of_mem_ancestors whole.linked within.1 top within.2

/-- An element above a node that stands below the root element stands below it, too, or is it. -/
theorem within_above (whole : doc.Whole top) (within : doc.IsWithin top id) {above : NodeId}
    (path : above ∈ doc.ancestors id) (isElement : (doc.kind above).isElement = true) :
    doc.IsWithin top above := by
  have linked := whole.linked
  have liveT := whole.top_live within
  have attachedT := linked.isAttached_of_hung liveT (whole.hung liveT)
  have attached := linked.isAttached_below within.1 within.2 attachedT
  exact whole.within (linked.isAttached_above attached path) isElement

/-! ## What nodes are -/

/-- A document stays whole if the same nodes are elements, with the same declarations, and what
could be written still can. -/
theorem congr (whole : doc.Whole top) (links : SameLinks doc doc')
    (element : ∀ other, (doc'.kind other).isElement = (doc.kind other).isElement)
    (declares : ∀ other, Attribute.bindings (doc'.attributes other) =
      Attribute.bindings (doc.attributes other))
    (sound : ∀ other, doc.IsWithin top other → (doc.kind other).IsSound (doc.namespaceOf? other) →
      (doc'.kind other).IsSound (doc.namespaceOf? other)) : doc'.Whole top where
  linked := links.wellLinked whole.linked
  plain := (element root).trans whole.plain
  hung live' := by
    rw [links.parent]
    exact whole.hung (links.use.live_iff.mp live')
  element live' := by
    rw [element]
    exact whole.element (links.use.live_iff.mp live')
  sound := by
    rintro other ⟨live', above⟩
    rw [links.ancestors_eq] at above
    have namespaces : doc'.namespaceOf? other = doc.namespaceOf? other := by
      apply namespaceOf?_congr
      · rw [links.ancestors_eq]
      · exact fun above _ => declares above
    have within : doc.IsWithin top other := ⟨links.use.live_iff.mp live', above⟩
    rw [namespaces]
    exact sound other within (whole.sound other within)
  single := by
    intro other attached elementO
    rw [links.isAttached_eq] at attached
    rw [element] at elementO
    rw [links.ancestors_eq]
    exact whole.single other attached elementO

theorem modifyKind (whole : doc.Whole top) (live : doc.IsLive id)
    (element : ∀ kind, (change kind).isElement = kind.isElement)
    (declares : ∀ kind, Attribute.bindings (change kind).attributes =
      Attribute.bindings kind.attributes)
    (sound : doc.IsWithin top id → (doc.kind id).IsSound (doc.namespaceOf? id) →
      (change (doc.kind id)).IsSound (doc.namespaceOf? id)) :
    (doc.modifyKind id change).Whole top := by
  apply whole.congr (.modifyKind live change)
  · intro other
    rw [kind_modifyKind]
    split
    · exact element _
    · rfl
  · intro other
    rw [attributes, attributes, kind_modifyKind]
    split
    · exact declares _
    · rfl
  · intro other within before
    rw [kind_modifyKind]
    split
    · rename_i same
      obtain rfl := within.1.eq_of_index live same.1
      exact sound within before
    · exact before

/-! ## New nodes -/

/-- A new node goes to the end of an element of the tree if it can be written there. -/
theorem grow (whole : doc.Whole top) (attached : doc.isAttached parent = true)
    (isElement : (doc.kind parent).isElement = true) (bare : kind.attributes = [])
    (sound : kind.IsSound (doc.namespaceOf? parent)) : (doc.grow parent kind).Whole top := by
  have linked := whole.linked
  have liveP := whole.live attached
  have within := whole.within attached isElement
  have liveT := whole.top_live within
  have more := extended_grow linked liveP kind
  generalize doc.grow parent kind = doc' at more
  generalize (doc.create kind).1 = fresh at more
  exact {
    linked := more.linked
    plain := by
      rw [more.kind_kept root linked.root_live]
      exact whole.plain
    hung := by
      intro live'
      rw [more.parent_kept top liveT]
      exact whole.hung liveT
    element := by
      intro live'
      rw [more.kind_kept top liveT]
      exact whole.element liveT
    sound := by
      rintro other ⟨live', above⟩
      rcases (more.live_iff other).mp live' with rfl | liveO
      · rw [more.kind_new, more.namespaceOf?_new linked liveP bare]
        exact sound
      · rw [more.ancestors_kept linked liveO] at above
        rw [more.kind_kept other liveO, more.namespaceOf?_kept linked liveO]
        exact whole.sound other ⟨liveO, above⟩
    single := by
      intro other attached' elementO
      obtain ⟨live', below⟩ := more.linked.isAttached_iff.mp attached'
      rcases (more.live_iff other).mp live' with rfl | liveO
      · rw [more.ancestors_new linked liveP]
        exact List.mem_cons_of_mem _ within.2
      · rw [more.ancestors_kept linked liveO] at below ⊢
        rw [more.kind_kept other liveO] at elementO
        exact whole.single other (linked.isAttached_iff.mpr ⟨liveO, below⟩) elementO }

/-! ## Removals -/

theorem pruned {gone : List NodeId} (whole : doc.Whole top) (pruned : Pruned doc doc' gone) :
    doc'.Whole top where
  linked := pruned.linked
  plain := by
    rw [pruned.kind_eq root pruned.linked.root_live]
    exact whole.plain
  hung := by
    intro live'
    rw [pruned.parent_eq top live']
    exact whole.hung (pruned.live live')
  element := by
    intro live'
    rw [pruned.kind_eq top live']
    exact whole.element (pruned.live live')
  sound := by
    rintro other ⟨live', above⟩
    rw [pruned.ancestors_eq whole.linked live'] at above
    rw [pruned.kind_eq other live', pruned.namespaceOf?_eq whole.linked live']
    exact whole.sound other ⟨pruned.live live', above⟩
  single := by
    intro other attached' elementO
    obtain ⟨live', below⟩ := pruned.linked.isAttached_iff.mp attached'
    rw [pruned.ancestors_eq whole.linked live'] at below ⊢
    rw [pruned.kind_eq other live'] at elementO
    have attached := whole.linked.isAttached_iff.mpr ⟨pruned.live live', below⟩
    exact whole.single other attached elementO

end Whole
end Markup.Document
