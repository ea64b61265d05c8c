import Markup.Proofs.Store.Shape

/-!
# What placing does to links

A placement puts a node among the children of another one, taking out is the reverse. All that
happens to the links is said once, for every live node.
-/

namespace Markup.Document

variable {doc doc' : Document} {kids : NodeId → List NodeId} {id other parent child : NodeId}
  {before after : List NodeId} {change : Slot → Slot}

/-! ## The slots in use -/

/-- The same slots are in use, and each for the same time. -/
structure SameUse (doc doc' : Document) : Prop where
  size : doc'.slots.size = doc.slots.size
  free : doc'.free = doc.free
  generation : ∀ id, (doc'.slot id).generation = (doc.slot id).generation
  removed : ∀ id, doc'.isRemoved id = doc.isRemoved id
  /-- The slot that is never used is left alone. -/
  unused : doc'.slot ⟨0, 0⟩ = doc.slot ⟨0, 0⟩

namespace SameUse

theorem refl : SameUse doc doc := ⟨rfl, rfl, fun _ => rfl, fun _ => rfl, rfl⟩

theorem trans {doc'' : Document} (first : SameUse doc doc') (second : SameUse doc' doc'') :
    SameUse doc doc'' where
  size := second.size.trans first.size
  free := second.free.trans first.free
  generation id := (second.generation id).trans (first.generation id)
  removed id := (second.removed id).trans (first.removed id)
  unused := second.unused.trans first.unused

theorem live_iff (use : SameUse doc doc') : doc'.IsLive id ↔ doc.IsLive id := by
  have same : doc'.contains id = true ↔ doc.contains id = true := by
    rw [contains_iff, contains_iff, use.size, use.generation]
  constructor
  · rintro ⟨numbered, current, kept⟩
    exact ⟨numbered, same.mp current, use.removed id ▸ kept⟩
  · rintro ⟨numbered, current, kept⟩
    exact ⟨numbered, same.mpr current, (use.removed id).trans kept⟩

/-- A change of links or of what a node holds uses the same slots. -/
theorem modify (use : SameUse doc doc') (live : doc.IsLive id) (keeps : ∀ slot,
    (change slot).generation = slot.generation ∧ (change slot).removed = slot.removed) :
    SameUse doc (doc'.modify id change) := by
  refine use.trans ⟨size_modify change, rfl, fun other => ?_, fun other => ?_, ?_⟩
  · rw [slot_modify]
    split
    · exact (keeps _).1
    · rfl
  · rw [isRemoved_modify]
    split
    · exact (keeps _).2
    · rfl
  · rw [slot_modify, if_neg fun same => live.numbered.ne same.1]

end SameUse

/-- The same slots are in use with the same links; what the nodes are and hold may differ. -/
structure SameLinks (doc doc' : Document) : Prop where
  use : SameUse doc doc'
  parent : doc'.parent = doc.parent
  firstChild : doc'.firstChild = doc.firstChild
  lastChild : doc'.lastChild = doc.lastChild
  nextSibling : doc'.nextSibling = doc.nextSibling
  prevSibling : doc'.prevSibling = doc.prevSibling

namespace SameLinks

theorem children_eq (same : SameLinks doc doc') : doc'.children = doc.children := by
  funext id
  rw [children, children, along, along, same.use.size, same.nextSibling, same.firstChild]

theorem ancestors_eq (same : SameLinks doc doc') : doc'.ancestors = doc.ancestors := by
  funext id
  rw [ancestors, ancestors, along, along, same.use.size, same.parent]

theorem isAttached_eq (same : SameLinks doc doc') : doc'.isAttached = doc.isAttached := by
  funext id
  have sameContains : doc'.contains id = doc.contains id := by
    rw [Bool.eq_iff_iff, contains_iff, contains_iff, same.use.size, same.use.generation]
  rw [isAttached, isAttached, sameContains, same.use.removed, same.ancestors_eq]

theorem hasShape (same : SameLinks doc doc') (shape : doc.HasShape kids) :
    doc'.HasShape kids where
  root_live := same.use.live_iff.mpr shape.root_live
  root_top := same.parent ▸ shape.root_top
  forward live := by
    rw [same.nextSibling, same.firstChild]
    exact shape.forward (same.use.live_iff.mp live)
  backward live := by
    rw [same.prevSibling, same.lastChild]
    exact shape.backward (same.use.live_iff.mp live)
  child live member := by
    rw [same.use.live_iff, same.parent]
    exact shape.child (same.use.live_iff.mp live) member
  listed live hung := by
    rw [same.parent] at hung
    rw [same.use.live_iff]
    exact shape.listed (same.use.live_iff.mp live) hung
  alone live top := by
    rw [same.parent] at top
    rw [same.nextSibling, same.prevSibling]
    exact shape.alone (same.use.live_iff.mp live) top
  grounded live := by
    rw [same.parent]
    exact shape.grounded (same.use.live_iff.mp live)
  unused_top := same.parent ▸ shape.unused_top
  free_nodup := same.use.free ▸ shape.free_nodup
  free_pos := same.use.free ▸ shape.free_pos
  free_iff id := by rw [same.use.free, same.use.size, same.use.removed, shape.free_iff]

theorem wellLinked (same : SameLinks doc doc') (linked : doc.WellLinked) : doc'.WellLinked :=
  (same.hasShape linked).wellLinked

/-- Changing what a node holds leaves the links alone. -/
theorem modifyKind (live : doc.IsLive id) (change : NodeKind → NodeKind) :
    SameLinks doc (doc.modifyKind id change) where
  use := SameUse.refl.modify live fun _ => ⟨rfl, rfl⟩
  parent := by funext other; simp [Document.modifyKind]
  firstChild := by funext other; simp [Document.modifyKind]
  lastChild := by funext other; simp [Document.modifyKind]
  nextSibling := by funext other; simp [Document.modifyKind]
  prevSibling := by funext other; simp [Document.modifyKind]

theorem modifyAttributes (live : doc.IsLive id) (change : List Attribute → List Attribute) :
    SameLinks doc (doc.modifyAttributes id change) := by
  unfold Document.modifyAttributes
  exact modifyKind live _

theorem rename (live : doc.IsLive id) (name : QName) (uri : Option String) :
    SameLinks doc (doc.rename id name uri) := by
  unfold Document.rename
  exact modifyKind live _

theorem setContent (live : doc.IsLive id) (content : String) :
    SameLinks doc (doc.setContent id content) := by
  unfold Document.setContent
  exact modifyKind live _

/-- Documents with the same slots may differ in what is known of their text. -/
theorem of_slots (slots : doc'.slots = doc.slots) (free : doc'.free = doc.free) :
    SameLinks doc doc' := by
  have same : doc'.slot = doc.slot := by
    funext id
    rw [slot, slot, slots]
  have read : ∀ {α : Type} (get : Slot → α) id, get (doc'.slot id) = get (doc.slot id) :=
    fun get id => by rw [same]
  exact {
    use := ⟨by rw [slots], free, read _, read _, by rw [same]⟩
    parent := funext (read _)
    firstChild := funext (read _)
    lastChild := funext (read _)
    nextSibling := funext (read _)
    prevSibling := funext (read _) }

end SameLinks

/-! ## What nodes hold

Changing links leaves what the nodes are and hold as it is. -/

@[simp] theorem kind_appendChild : (doc.appendChild parent child).kind id = doc.kind id := by
  cases last : doc.lastChild parent <;> simp [appendChild, last]

@[simp] theorem kind_insertBefore {reference : NodeId} :
    (doc.insertBefore reference child).kind id = doc.kind id := by
  cases above : doc.parent reference with
  | none => simp [insertBefore, above]
  | some parent => cases earlier : doc.prevSibling reference <;> simp [insertBefore, above, earlier]

@[simp] theorem kind_detach : (doc.detach child).kind id = doc.kind id := by
  cases above : doc.parent child with
  | none => simp [detach, above]
  | some parent =>
    cases earlier : doc.prevSibling child <;> cases later : doc.nextSibling child <;>
    simp [detach, above, earlier, later]

theorem kind_modifyKind {change : NodeKind → NodeKind} : (doc.modifyKind id change).kind other =
    if other.index = id.index ∧ other.index < doc.slots.size then change (doc.kind other)
    else doc.kind other := by
  rw [modifyKind, kind_modify, slot_kind]

/-! ## The links afterwards -/

/-- The links after a node was put among the children of another one. -/
structure Inserted (doc doc' : Document) (parent child : NodeId) (before after : List NodeId) :
    Prop where
  use : SameUse doc doc'
  parent_eq : ∀ id, doc.IsLive id →
    doc'.parent id = if id = child then some parent else doc.parent id
  next_eq : ∀ id, doc.IsLive id → doc'.nextSibling id =
    if id = child then after.head?
    else if before.getLast? = some id then some child else doc.nextSibling id
  prev_eq : ∀ id, doc.IsLive id → doc'.prevSibling id =
    if id = child then before.getLast?
    else if after.head? = some id then some child else doc.prevSibling id
  first_eq : ∀ id, doc.IsLive id → doc'.firstChild id =
    if id = parent then (before ++ child :: after).head? else doc.firstChild id
  last_eq : ∀ id, doc.IsLive id → doc'.lastChild id =
    if id = parent then (before ++ child :: after).getLast? else doc.lastChild id

/-- The links after a node was taken out of the children of another one. -/
structure Erased (doc doc' : Document) (parent child : NodeId) (before after : List NodeId) :
    Prop where
  use : SameUse doc doc'
  parent_eq : ∀ id, doc.IsLive id →
    doc'.parent id = if id = child then none else doc.parent id
  next_eq : ∀ id, doc.IsLive id → doc'.nextSibling id =
    if id = child then none
    else if before.getLast? = some id then after.head? else doc.nextSibling id
  prev_eq : ∀ id, doc.IsLive id → doc'.prevSibling id =
    if id = child then none
    else if after.head? = some id then before.getLast? else doc.prevSibling id
  first_eq : ∀ id, doc.IsLive id → doc'.firstChild id =
    if id = parent then (before ++ after).head? else doc.firstChild id
  last_eq : ∀ id, doc.IsLive id → doc'.lastChild id =
    if id = parent then (before ++ after).getLast? else doc.lastChild id

theorem inserted_appendChild (shape : doc.HasShape kids) (liveP : doc.IsLive parent)
    (liveC : doc.IsLive child) (orphan : doc.parent child = none) (distinct : child ≠ parent) :
    Inserted doc (doc.appendChild parent child) parent child (kids parent) [] := by
  have initial := shape.firstChild_eq liveP
  have final := shape.lastChild_eq liveP
  obtain ⟨noNext, noPrev⟩ := shape.alone liveC orphan
  cases kept : (kids parent).getLast? with
  | none =>
    rw [kept] at final
    have childless : kids parent = [] := List.getLast?_eq_none_iff.mp kept
    simp only [appendChild, final, childless]
    constructor
    · exact (SameUse.refl.modify liveC (by simp)).modify liveP (by simp)
    all_goals
      intro id live
      simp [live.lt_size, live.index_eq_iff liveC, live.index_eq_iff liveP]
    all_goals rintro rfl; assumption
  | some last =>
    rw [kept] at final
    have member : last ∈ kids parent := List.mem_of_getLast? kept
    obtain ⟨liveL, above⟩ := shape.child liveP member
    have distinctL : last ≠ child := fun same => by simp [same, orphan] at above
    have nonempty : (kids parent ++ [child]).head? = (kids parent).head? := by
      cases split : kids parent with
      | nil => simp [split] at member
      | cons first rest => rfl
    simp only [appendChild, final]
    constructor
    · exact (((SameUse.refl.modify liveC (by simp)).modify liveL (by simp)).modify liveC
        (by simp)).modify liveP (by simp)
    all_goals
      intro id live
      simp only [parent_modify, firstChild_modify, lastChild_modify, nextSibling_modify,
        prevSibling_modify, size_modify, slot_parent, slot_firstChild, slot_lastChild,
        slot_nextSibling, slot_prevSibling, live.lt_size, live.index_eq_iff liveC,
        live.index_eq_iff liveP, live.index_eq_iff liveL, and_true, ite_self]
    · by_cases isChild : id = child
      · subst isChild
        simp [distinctL.symm, noNext]
      · simp [isChild, kept, eq_comm]
    · by_cases isChild : id = child
      · simp [isChild, kept]
      · simp [isChild]
    · rw [nonempty]
      by_cases isParent : id = parent
      · simp [isParent, initial]
      · simp [isParent]
    · simp

theorem inserted_insertBefore (shape : doc.HasShape kids) {reference : NodeId}
    (liveP : doc.IsLive parent) (liveC : doc.IsLive child) (orphan : doc.parent child = none)
    (split : kids parent = before ++ reference :: after) :
    Inserted doc (doc.insertBefore reference child) parent child before (reference :: after) := by
  obtain ⟨liveR, above⟩ := shape.child liveP (show reference ∈ kids parent by simp [split])
  obtain ⟨-, earlier⟩ := shape.siblings_eq liveP split
  have initial := shape.firstChild_eq liveP
  have final := shape.lastChild_eq liveP
  have distinctR : reference ≠ child := fun same => by simp [same, orphan] at above
  have single := shape.kids_nodup liveP
  rw [split] at initial final single
  obtain ⟨noNext, noPrev⟩ := shape.alone liveC orphan
  cases kept : before.getLast? with
  | none =>
    obtain rfl : before = [] := List.getLast?_eq_none_iff.mp kept
    rw [kept] at earlier
    simp only [insertBefore, above, earlier]
    constructor
    · exact (((SameUse.refl.modify liveC (by simp)).modify liveP (by simp)).modify liveC
        (by simp)).modify liveR (by simp)
    all_goals
      intro id live
      simp only [parent_modify, firstChild_modify, lastChild_modify, nextSibling_modify,
        prevSibling_modify, size_modify, slot_parent, slot_firstChild, slot_lastChild,
        slot_nextSibling, slot_prevSibling, live.lt_size, live.index_eq_iff liveC,
        live.index_eq_iff liveP, live.index_eq_iff liveR, and_true, ite_self]
    · simp
    · by_cases isChild : id = child
      · simp [isChild, noPrev, distinctR.symm]
      · simp [isChild, eq_comm]
    · simp
    · by_cases isParent : id = parent
      · simp [isParent, final]
      · simp [isParent]
  | some last =>
    have member : last ∈ before := List.mem_of_getLast? kept
    have listed : last ∈ kids parent := by simp [split, member]
    obtain ⟨liveL, aboveL⟩ := shape.child liveP listed
    have distinctL : last ≠ child := fun same => by simp [same, orphan] at aboveL
    have apart : reference ≠ last := fun same =>
      (List.nodup_append.mp single).2.2 last member reference (by simp) same.symm
    rw [kept] at earlier
    simp only [insertBefore, above, earlier]
    constructor
    · exact ((((SameUse.refl.modify liveC (by simp)).modify liveL (by simp)).modify liveC
        (by simp)).modify liveC (by simp)).modify liveR (by simp)
    all_goals
      intro id live
      simp only [parent_modify, firstChild_modify, lastChild_modify, nextSibling_modify,
        prevSibling_modify, size_modify, slot_parent, slot_firstChild, slot_lastChild,
        slot_nextSibling, slot_prevSibling, live.lt_size, live.index_eq_iff liveC,
        live.index_eq_iff liveR, live.index_eq_iff liveL, and_true, ite_self]
    · by_cases isChild : id = child
      · simp [isChild]
      · simp [isChild, kept, eq_comm]
    · by_cases isChild : id = child
      · simp [isChild, kept, distinctR.symm]
      · simp [isChild, eq_comm]
    · cases before with
      | nil => simp at member
      | cons first rest =>
        by_cases isParent : id = parent
        · simp [isParent, initial]
        · simp [isParent]
    · by_cases isParent : id = parent
      · simp [isParent, final, List.getLast?_append]
      · simp [isParent]

/-- Link a node, or its parent if there is none, to what comes after it. -/
def linkForward (doc : Document) (parent : NodeId) (last after : Option NodeId) : Document :=
  match last with
  | some last => doc.modify last fun slot => { slot with nextSibling := after }
  | none => doc.modify parent fun slot => { slot with firstChild := after }

/-- Link a node, or its parent if there is none, to what comes before it. -/
def linkBackward (doc : Document) (parent : NodeId) (first before : Option NodeId) : Document :=
  match first with
  | some first => doc.modify first fun slot => { slot with prevSibling := before }
  | none => doc.modify parent fun slot => { slot with lastChild := before }

theorem detach_eq (above : doc.parent id = some parent) : doc.detach id =
    ((doc.linkForward parent (doc.prevSibling id) (doc.nextSibling id)).linkBackward parent
      (doc.nextSibling id) (doc.prevSibling id)).modify id fun slot =>
        { slot with parent := none, prevSibling := none, nextSibling := none } := by
  simp only [detach, above]
  rfl

theorem links_linkForward (after : Option NodeId) (liveP : doc.IsLive parent)
    {last : Option NodeId}
    (listed : ∀ {id}, last = some id → doc.IsLive id) :
    SameUse doc (doc.linkForward parent last after) ∧ ∀ id, doc.IsLive id →
      (doc.linkForward parent last after).parent id = doc.parent id ∧
      (doc.linkForward parent last after).nextSibling id =
        (if last = some id then after else doc.nextSibling id) ∧
      (doc.linkForward parent last after).prevSibling id = doc.prevSibling id ∧
      (doc.linkForward parent last after).firstChild id =
        (if last = none ∧ id = parent then after else doc.firstChild id) ∧
      (doc.linkForward parent last after).lastChild id = doc.lastChild id := by
  cases last with
  | none =>
    refine ⟨SameUse.refl.modify liveP (by simp), fun id live => ?_⟩
    simp [linkForward, live.lt_size, live.index_eq_iff liveP]
  | some last =>
    refine ⟨SameUse.refl.modify (listed rfl) (by simp), fun id live => ?_⟩
    simp [linkForward, live.lt_size, live.index_eq_iff (listed rfl), eq_comm]

theorem links_linkBackward (before : Option NodeId) (liveP : doc.IsLive parent)
    {first : Option NodeId}
    (listed : ∀ {id}, first = some id → doc.IsLive id) :
    SameUse doc (doc.linkBackward parent first before) ∧ ∀ id, doc.IsLive id →
      (doc.linkBackward parent first before).parent id = doc.parent id ∧
      (doc.linkBackward parent first before).nextSibling id = doc.nextSibling id ∧
      (doc.linkBackward parent first before).prevSibling id =
        (if first = some id then before else doc.prevSibling id) ∧
      (doc.linkBackward parent first before).firstChild id = doc.firstChild id ∧
      (doc.linkBackward parent first before).lastChild id =
        (if first = none ∧ id = parent then before else doc.lastChild id) := by
  cases first with
  | none =>
    refine ⟨SameUse.refl.modify liveP (by simp), fun id live => ?_⟩
    simp [linkBackward, live.lt_size, live.index_eq_iff liveP]
  | some first =>
    refine ⟨SameUse.refl.modify (listed rfl) (by simp), fun id live => ?_⟩
    simp [linkBackward, live.lt_size, live.index_eq_iff (listed rfl), eq_comm]

theorem erased_detach (shape : doc.HasShape kids) (liveP : doc.IsLive parent)
    (split : kids parent = before ++ child :: after) :
    Erased doc (doc.detach child) parent child before after := by
  obtain ⟨liveC, above⟩ := shape.child liveP (show child ∈ kids parent by simp [split])
  obtain ⟨later, earlier⟩ := shape.siblings_eq liveP split
  have initial := shape.firstChild_eq liveP
  have final := shape.lastChild_eq liveP
  rw [split] at initial final
  have liveB : ∀ {id}, before.getLast? = some id → doc.IsLive id := fun kept =>
    (shape.child liveP (by simp [split, List.mem_of_getLast? kept])).1
  have liveA : ∀ {id}, after.head? = some id → doc.IsLive id := fun kept =>
    (shape.child liveP (by simp [split, List.mem_of_head? kept])).1
  obtain ⟨use₁, links₁⟩ := links_linkForward after.head? liveP liveB
  obtain ⟨use₂, links₂⟩ := links_linkBackward before.getLast? (use₁.live_iff.mpr liveP)
    fun kept => use₁.live_iff.mpr (liveA kept)
  rw [detach_eq above, earlier, later]
  have use := use₁.trans use₂
  constructor
  · exact use.modify liveC (by simp)
  all_goals
    intro id live
    obtain ⟨parent₁, next₁, prev₁, first₁, last₁⟩ := links₁ id live
    obtain ⟨parent₂, next₂, prev₂, first₂, last₂⟩ := links₂ id (use₁.live_iff.mpr live)
    simp only [parent_modify, firstChild_modify, lastChild_modify, nextSibling_modify,
      prevSibling_modify, slot_firstChild, slot_lastChild, use.size, live.lt_size,
      live.index_eq_iff liveC, and_true, ite_self, parent₁, next₁, prev₁, first₁, last₁,
      parent₂, next₂, prev₂, first₂, last₂]
  · by_cases isParent : id = parent
    · cases before with
      | nil => simp [isParent]
      | cons first rest => simp [isParent, initial]
    · simp [isParent]
  · by_cases isParent : id = parent
    · cases after with
      | nil => simp [isParent]
      | cons first rest => simp [isParent, final, List.getLast?_append]
    · simp [isParent]

end Markup.Document
