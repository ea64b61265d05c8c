import Markup.Proofs.Store.Place

/-!
# Creating nodes

A new node is in a slot that no live node has, whether it was never used or is used again, and
nothing of what the slot held before is left.
-/

namespace Markup.Document

variable {doc doc' : Document} {kids : NodeId → List NodeId} {id : NodeId} {kind : NodeKind}

/-- A document with one more node, which hangs nowhere. -/
structure Created (doc doc' : Document) (id : NodeId) (kind : NodeKind) : Prop where
  fresh : ¬ doc.IsLive id
  live_iff : ∀ other, doc'.IsLive other ↔ other = id ∨ doc.IsLive other
  kept : ∀ other, doc.IsLive other → doc'.slot other = doc.slot other
  made : doc'.slot id = { kind, generation := id.generation }
  /-- The slot that is never used is left alone. -/
  unused : doc'.slot ⟨0, 0⟩ = doc.slot ⟨0, 0⟩
  free_nodup : doc'.free.Nodup
  free_pos : 0 ∉ doc'.free
  free_iff : ∀ other : NodeId,
    other.index ∈ doc'.free ↔ other.index < doc'.slots.size ∧ doc'.isRemoved other = true

private theorem created_reused (shape : doc.HasShape kids) {index : Nat} {free : List Nat}
    (freed : doc.free = index :: free) :
    Created doc (doc.create kind).2 (doc.create kind).1 kind := by
  have listed : index ∈ doc.free := by simp [freed]
  obtain ⟨bounded, gone⟩ := (shape.free_iff ⟨index, 0⟩).mp listed
  have numbered : 0 < index := Nat.pos_of_ne_zero fun zero => shape.free_pos (zero ▸ listed)
  obtain ⟨other, single⟩ := List.nodup_cons.mp (freed ▸ shape.free_nodup)
  have elsewhere : ∀ {id}, doc.IsLive id → id.index ≠ index := fun live same => by
    have kept := live.kept
    have freed : doc.isRemoved _ = doc.isRemoved ⟨index, 0⟩ := isRemoved_of_index same
    rw [freed, gone] at kept
    contradiction
  simp only [create, freed]
  generalize (doc.slots.getD index { kind := .document }).generation + 1 = generation
  have slots : ∀ id, ({ doc with
      slots := doc.slots.setIfInBounds index { kind, generation }, free } : Document).slot id =
        if id.index = index then { kind, generation } else doc.slot id := by
    intro id
    by_cases same : id.index = index
    · simp [slot, same, bounded]
    · simp [slot, same, Ne.symm same]
  constructor
  · exact fun live => elsewhere live rfl
  · intro id
    by_cases same : id.index = index
    · have notLive : ¬ doc.IsLive id := fun live => elsewhere live same
      have named : id = ⟨index, generation⟩ ↔ generation = id.generation :=
        ⟨fun equal => by rw [equal], fun equal => by rw [equal, ← same]⟩
      rw [isLive_iff, isRemoved, slots, if_pos same, named]
      simp [same, numbered, bounded, notLive]
    · have apart : id ≠ ⟨index, generation⟩ := fun equal => same (by rw [equal])
      rw [isLive_iff, isRemoved, slots, if_neg same, isLive_iff]
      simp only [Array.size_setIfInBounds, apart, false_or, slot_removed]
  · exact fun id live => by rw [slots, if_neg (elsewhere live)]
  · rw [slots, if_pos rfl]
  · rw [slots, if_neg numbered.ne]
  · exact single
  · exact fun zero => shape.free_pos (freed ▸ List.mem_cons_of_mem _ zero)
  · intro id
    have before := shape.free_iff id
    rw [freed] at before
    rw [isRemoved, slots]
    by_cases same : id.index = index
    · simp [same, other]
    · rw [if_neg same, Array.size_setIfInBounds, slot_removed, ← before]
      simp [same]

private theorem created_pushed (shape : doc.HasShape kids) (freed : doc.free = []) :
    Created doc (doc.create kind).2 (doc.create kind).1 kind := by
  have nonempty : 0 < doc.slots.size := Nat.zero_lt_of_lt shape.root_live.lt_size
  have unfreed : ∀ id : NodeId, id.index < doc.slots.size → doc.isRemoved id = false := by
    intro id bounded
    have before := shape.free_iff id
    simpa [freed, bounded] using before
  simp only [create, freed]
  have slots : ∀ id, ({ doc with
      slots := doc.slots.push { kind }, free := [] } : Document).slot id =
      if id.index = doc.slots.size then { kind } else doc.slot id := by
    intro id
    rw [slot, slot, Array.getD_eq_getD_getElem?, Array.getD_eq_getD_getElem?, Array.getElem?_push]
    split <;> rfl
  constructor
  · exact fun live => absurd live.lt_size (by simp)
  · intro id
    by_cases same : id.index = doc.slots.size
    · have notLive : ¬ doc.IsLive id := fun live => live.lt_size.ne same
      have named : id = ⟨doc.slots.size, 0⟩ ↔ 0 = id.generation :=
        ⟨fun equal => by rw [equal], fun equal => by rw [equal, ← same]⟩
      rw [isLive_iff, isRemoved, slots, if_pos same, named]
      simp [same, nonempty, notLive]
    · have apart : id ≠ ⟨doc.slots.size, 0⟩ := fun equal => same (by rw [equal])
      have bound : id.index < doc.slots.size + 1 ↔ id.index < doc.slots.size := by omega
      rw [isLive_iff, isRemoved, slots, if_neg same, isLive_iff]
      simp only [Array.size_push, bound, apart, false_or, slot_removed]
  · exact fun id live => by rw [slots, if_neg live.lt_size.ne]
  · rw [slots, if_pos rfl]
  · rw [slots, if_neg nonempty.ne]
  · exact List.nodup_nil
  · simp
  · intro id
    rw [isRemoved, slots, Array.size_push]
    by_cases same : id.index = doc.slots.size
    · simp [same]
    · have kept := unfreed id
      rw [isRemoved] at kept
      simp only [same, if_false, List.not_mem_nil, false_iff, not_and, Bool.not_eq_true]
      exact fun bounded => kept (by omega)

/-- Whatever slot is taken, creating a node does nothing else. -/
theorem created (kind : NodeKind) (shape : doc.HasShape kids) :
    Created doc (doc.create kind).2 (doc.create kind).1 kind := by
  cases freed : doc.free with
  | nil => exact created_pushed shape freed
  | cons index free => exact created_reused shape freed

namespace Created

variable {other : NodeId}

theorem ne_of_live (made : Created doc doc' id kind) (live : doc.IsLive other) : other ≠ id :=
  fun same => made.fresh (same ▸ live)

theorem live (made : Created doc doc' id kind) : doc'.IsLive id := (made.live_iff id).mpr (.inl rfl)

theorem live_of_live (made : Created doc doc' id kind) (live : doc.IsLive other) :
    doc'.IsLive other := (made.live_iff other).mpr (.inr live)

theorem parent_kept (made : Created doc doc' id kind) (live : doc.IsLive other) :
    doc'.parent other = doc.parent other := congrArg Slot.parent (made.kept other live)

theorem kind_kept (made : Created doc doc' id kind) (live : doc.IsLive other) :
    doc'.kind other = doc.kind other := congrArg Slot.kind (made.kept other live)

theorem kind_eq (made : Created doc doc' id kind) : doc'.kind id = kind :=
  congrArg Slot.kind made.made

theorem parent_eq (made : Created doc doc' id kind) : doc'.parent id = none :=
  congrArg Slot.parent made.made

end Created

/-- The new node has no children, and the others keep theirs. -/
theorem HasShape.create (shape : doc.HasShape kids) (made : Created doc doc' id kind) :
    doc'.HasShape (Function.update kids id []) where
  root_live := made.live_of_live shape.root_live
  root_top := by rw [made.parent_kept shape.root_live, shape.root_top]
  forward live := by
    rcases (made.live_iff _).mp live with rfl | kept
    · rw [Function.update_self]
      exact congrArg Slot.firstChild made.made
    · rw [Function.update_of_ne (made.ne_of_live kept), firstChild, made.kept _ kept]
      apply (shape.forward kept).congr
      intro each member
      exact congrArg Slot.nextSibling (made.kept each (shape.child kept member).1)
  backward live := by
    rcases (made.live_iff _).mp live with rfl | kept
    · rw [Function.update_self]
      exact congrArg Slot.lastChild made.made
    · rw [Function.update_of_ne (made.ne_of_live kept), lastChild, made.kept _ kept]
      apply (shape.backward kept).congr
      intro each member
      exact congrArg Slot.prevSibling
        (made.kept each (shape.child kept (List.mem_reverse.mp member)).1)
  child live member := by
    rcases (made.live_iff _).mp live with rfl | kept
    · simp at member
    · rw [Function.update_of_ne (made.ne_of_live kept)] at member
      obtain ⟨liveC, above⟩ := shape.child kept member
      exact ⟨made.live_of_live liveC, by rw [made.parent_kept liveC, above]⟩
  listed live hung := by
    rcases (made.live_iff _).mp live with rfl | kept
    · simp [made.parent_eq] at hung
    · rw [made.parent_kept kept] at hung
      obtain ⟨liveP, member⟩ := shape.listed kept hung
      exact ⟨made.live_of_live liveP, by rwa [Function.update_of_ne (made.ne_of_live liveP)]⟩
  alone live top := by
    rcases (made.live_iff _).mp live with rfl | kept
    · exact ⟨congrArg Slot.nextSibling made.made, congrArg Slot.prevSibling made.made⟩
    · rw [made.parent_kept kept] at top
      rw [nextSibling, prevSibling, made.kept _ kept]
      exact shape.alone kept top
  grounded live := by
    rcases (made.live_iff _).mp live with rfl | kept
    · exact ⟨[_], rfl, made.parent_eq⟩
    · refine ⟨_, (shape.leads_ancestors kept).congr fun each member => ?_⟩
      exact made.parent_kept (shape.live_of_mem_ancestors kept each member)
  unused_top := (congrArg Slot.parent made.unused).trans shape.unused_top
  free_nodup := made.free_nodup
  free_pos := made.free_pos
  free_iff := made.free_iff

/-- Everything above a node that was there before was there before. -/
theorem Created.not_mem_ancestors (made : Created doc doc' id kind) (shape : doc.HasShape kids)
    {other : NodeId} (live : doc.IsLive other) : id ∉ doc'.ancestors other := by
  have kept : ∀ each, doc.IsLive each → doc'.IsLive each ∧ doc'.parent each = doc.parent each :=
    fun each live => ⟨made.live_of_live live, made.parent_kept live⟩
  rw [shape.ancestors_congr (shape.create made) kept live]
  exact fun member => made.fresh (shape.live_of_mem_ancestors live _ member)

theorem WellLinked.create (linked : doc.WellLinked) (kind : NodeKind) :
    (doc.create kind).2.WellLinked :=
  (HasShape.create linked (created kind linked)).wellLinked

end Markup.Document
