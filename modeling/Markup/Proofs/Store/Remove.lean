import Markup.Proofs.Store.Preorder

/-!
# Removing

A removed node goes with everything below it. Their slots keep what they held of links, but no live
node leads to any of them.
-/

namespace Markup.Document

variable {doc doc' : Document} {kids : NodeId → List NodeId} {id other : NodeId}
  {gone : List NodeId}

/-! ## Freeing slots -/

/-- What a slot holds once it is freed. -/
def freed (slot : Slot) : Slot := { slot with removed := true, kind := .document }

@[simp] theorem freed_freed (slot : Slot) : freed (freed slot) = freed slot := rfl

theorem slot_release : (doc.release id).slot other =
    if other.index = id.index ∧ other.index < doc.slots.size then freed (doc.slot other)
    else doc.slot other := slot_modify _

/-- After some slots were freed, each of them is marked and the others are as they were. -/
theorem slot_releaseAll (gone : List NodeId) : (gone.foldl release doc).slot other =
    if other.index ∈ gone.map (·.index) ∧ other.index < doc.slots.size then freed (doc.slot other)
    else doc.slot other := by
  induction gone generalizing doc with
  | nil => simp
  | cons first rest ih =>
    have size : (doc.release first).slots.size = doc.slots.size := size_modify _
    rw [List.foldl_cons, ih, size, slot_release]
    by_cases bounded : other.index < doc.slots.size
    · by_cases same : other.index = first.index
      · simp [same, same ▸ bounded]
      · simp [same]
    · simp [bounded]

theorem size_releaseAll (gone : List NodeId) :
    (gone.foldl release doc).slots.size = doc.slots.size := by
  induction gone generalizing doc with
  | nil => rfl
  | cons first rest ih =>
    rw [List.foldl_cons, ih]
    exact size_modify _

theorem free_releaseAll (gone : List NodeId) :
    (gone.foldl release doc).free = (gone.map (·.index)).reverse ++ doc.free := by
  induction gone generalizing doc with
  | nil => rfl
  | cons first rest ih =>
    rw [List.foldl_cons, ih]
    simp [release]

/-- Live nodes that can be freed together: nothing else hangs below them or holds them. -/
structure Loose (doc : Document) (kids : NodeId → List NodeId) (gone : List NodeId) : Prop where
  single : gone.Nodup
  live : ∀ id ∈ gone, doc.IsLive id
  kept : root ∉ gone
  closed : ∀ {id child}, doc.IsLive id → child ∈ kids id → (child ∈ gone ↔ id ∈ gone)

namespace Loose

open Leads

theorem index_mem_iff (loose : doc.Loose kids gone) (live : doc.IsLive id) :
    id.index ∈ gone.map (·.index) ↔ id ∈ gone := by
  constructor
  · intro listed
    obtain ⟨found, member, same⟩ := List.mem_map.mp listed
    exact (loose.live found member).eq_of_index live same ▸ member
  · exact fun member => List.mem_map.mpr ⟨id, member, rfl⟩

theorem slot_eq (loose : doc.Loose kids gone) (live : doc.IsLive id) (stays : id ∉ gone) :
    (gone.foldl release doc).slot id = doc.slot id := by
  rw [slot_releaseAll, if_neg fun listed => stays ((loose.index_mem_iff live).mp listed.1)]

theorem live_iff (loose : doc.Loose kids gone) :
    (gone.foldl release doc).IsLive id ↔ doc.IsLive id ∧ id ∉ gone := by
  rw [isLive_iff, size_releaseAll, isRemoved, slot_releaseAll]
  by_cases freed : id.index ∈ gone.map (·.index) ∧ id.index < doc.slots.size
  · simp only [if_pos freed]
    refine ⟨fun live => absurd live.2.2.2 (by simp [Document.freed]), fun both => ?_⟩
    exact absurd ((loose.index_mem_iff both.1).mp freed.1) both.2
  · rw [if_neg freed, slot_removed, ← isLive_iff]
    refine ⟨fun live => ⟨live, fun member => freed ⟨?_, live.lt_size⟩⟩, fun both => both.1⟩
    exact (loose.index_mem_iff live).mpr member

/-- The way up from a node that stays meets no freed node. -/
theorem leads (loose : doc.Loose kids gone) (shape : doc.HasShape kids) {path : List NodeId}
    (live : doc.IsLive id) (stays : id ∉ gone) (walk : Leads doc.parent (some id) path) :
    Leads (gone.foldl release doc).parent (some id) path := by
  induction path generalizing id with
  | nil => exact walk
  | cons first rest ih =>
    obtain ⟨same, later⟩ := walk
    obtain rfl := Option.some.inj same
    refine ⟨rfl, ?_⟩
    rw [parent, loose.slot_eq live stays, slot_parent]
    cases above : doc.parent id with
    | none =>
      rw [above, none_iff] at later
      exact none_iff.mpr later
    | some parent =>
      rw [above] at later
      obtain ⟨liveP, member⟩ := shape.listed live above
      exact ih liveP (mt (loose.closed liveP member).mpr stays) later

end Loose

/-- Freeing the slots of loose nodes leaves the other nodes as they were. -/
theorem HasShape.releaseAll (shape : doc.HasShape kids) (loose : doc.Loose kids gone) :
    (gone.foldl release doc).HasShape kids where
  root_live := loose.live_iff.mpr ⟨shape.root_live, loose.kept⟩
  root_top := by
    rw [parent, loose.slot_eq shape.root_live loose.kept]
    exact shape.root_top
  forward live' := by
    obtain ⟨live, stays⟩ := loose.live_iff.mp live'
    rw [firstChild, loose.slot_eq live stays]
    apply (shape.forward live).congr
    intro each member
    rw [nextSibling, loose.slot_eq (shape.child live member).1
      (mt (loose.closed live member).mp stays)]
    rfl
  backward live' := by
    obtain ⟨live, stays⟩ := loose.live_iff.mp live'
    rw [lastChild, loose.slot_eq live stays]
    apply (shape.backward live).congr
    intro each member
    have listed := List.mem_reverse.mp member
    rw [prevSibling, loose.slot_eq (shape.child live listed).1
      (mt (loose.closed live listed).mp stays)]
    rfl
  child live' member := by
    obtain ⟨live, stays⟩ := loose.live_iff.mp live'
    obtain ⟨liveC, above⟩ := shape.child live member
    have staysC := mt (loose.closed live member).mp stays
    exact ⟨loose.live_iff.mpr ⟨liveC, staysC⟩, by rwa [parent, loose.slot_eq liveC staysC]⟩
  listed live' hung := by
    obtain ⟨live, stays⟩ := loose.live_iff.mp live'
    rw [parent, loose.slot_eq live stays] at hung
    obtain ⟨liveP, member⟩ := shape.listed live hung
    exact ⟨loose.live_iff.mpr ⟨liveP, mt (loose.closed liveP member).mpr stays⟩, member⟩
  alone live' top := by
    obtain ⟨live, stays⟩ := loose.live_iff.mp live'
    rw [parent, loose.slot_eq live stays] at top
    rw [nextSibling, prevSibling, loose.slot_eq live stays]
    exact shape.alone live top
  grounded live' := by
    obtain ⟨live, stays⟩ := loose.live_iff.mp live'
    exact ⟨_, loose.leads shape live stays (shape.leads_ancestors live)⟩
  unused_top := by
    rw [parent, slot_releaseAll, if_neg fun listed => ?_]
    · exact shape.unused_top
    · obtain ⟨id, member, zero⟩ := List.mem_map.mp listed.1
      exact (loose.live id member).numbered.ne' zero
  free_nodup := by
    have distinct : (gone.map (·.index)).Nodup :=
      (List.nodup_map_iff_inj_on loose.single).mpr fun left memberL right memberR same =>
        (loose.live left memberL).eq_of_index (loose.live right memberR) same
    rw [free_releaseAll, List.nodup_append]
    refine ⟨List.nodup_reverse.mpr distinct, shape.free_nodup,
      fun index listed freed waits same => ?_⟩
    obtain ⟨id, member, rfl⟩ := List.mem_map.mp (List.mem_reverse.mp listed)
    have live := loose.live id member
    have removed := ((shape.free_iff id).mp (same ▸ waits)).2
    rw [live.kept] at removed
    contradiction
  free_pos := by
    rw [free_releaseAll]
    intro zero
    rcases List.mem_append.mp zero with listed | waits
    · obtain ⟨id, member, same⟩ := List.mem_map.mp (List.mem_reverse.mp listed)
      exact (loose.live id member).numbered.ne' same
    · exact shape.free_pos waits
  free_iff id := by
    rw [free_releaseAll, size_releaseAll, isRemoved, slot_releaseAll, List.mem_append,
      List.mem_reverse, shape.free_iff]
    by_cases listed : id.index ∈ gone.map (·.index)
    · obtain ⟨found, member, same⟩ := List.mem_map.mp listed
      have bounded := (loose.live found member).lt_size
      rw [same] at bounded
      simp [listed, bounded, freed]
    · simp only [listed, false_or, false_and, if_false, slot_removed]

/-! ## The operations -/

namespace WellLinked

/-- A node that hangs nowhere can be freed with everything below it. -/
theorem loose_preorder (linked : doc.WellLinked) (live : doc.IsLive id) (other : id ≠ root)
    (top : doc.parent id = none) : doc.Loose doc.children (doc.preorder id) where
  single := linked.preorder_nodup live
  live _ := linked.live_of_mem_preorder live
  kept member := by
    have above := ((linked.mem_preorder_iff live).mp member).2
    rw [HasShape.ancestors_of_top linked linked.root_live linked.root_top] at above
    exact other (List.mem_singleton.mp above)
  closed {parent child} liveP member := by
    rw [linked.mem_preorder_iff live, linked.mem_preorder_iff live]
    obtain ⟨liveC, hung⟩ := linked.child liveP member
    have distinct : id ≠ child := fun same => by simp [← same, top] at hung
    simp [linked.ancestors_child liveP member, liveC, liveP, distinct]

theorem top_detach (linked : doc.WellLinked) (live : doc.IsLive id) :
    (doc.detach id).parent id = none := by
  cases above : doc.parent id with
  | none => simp only [Document.detach, above]
  | some parent =>
    obtain ⟨liveP, member⟩ := linked.listed live above
    obtain ⟨before, after, split⟩ := List.append_of_mem member
    rw [(erased_detach linked liveP split).parent_eq id live, if_pos rfl]

theorem sameUse_detach (linked : doc.WellLinked) (live : doc.IsLive id) :
    SameUse doc (doc.detach id) := by
  cases above : doc.parent id with
  | none =>
    simp only [Document.detach, above]
    exact .refl
  | some parent =>
    obtain ⟨liveP, member⟩ := linked.listed live above
    obtain ⟨before, after, split⟩ := List.append_of_mem member
    exact (erased_detach linked liveP split).use

theorem remove_eq (linked : doc.WellLinked) (live : doc.IsLive id) : (doc.remove id).2 =
    ((doc.detach id).preorder id).foldl release (doc.detach id) := by
  have linked' := linked.detach live
  have live' := (linked.sameUse_detach live).live_iff.mpr live
  rw [linked'.preorder_eq_cons live']
  simp [Document.remove, live.current, live.kept]

/-- Nothing is removed by the name of a node that is removed already. -/
theorem remove_stale (numbered : 0 < id.index) (stale : ¬ doc.IsLive id) :
    doc.remove id = (0, doc) := by
  have unnamed : (!doc.contains id || doc.isRemoved id) = true := by
    by_contra current
    simp only [Bool.or_eq_true, Bool.not_eq_true', not_or, Bool.not_eq_false,
      Bool.not_eq_true] at current
    exact stale ⟨numbered, current.1, current.2⟩
  rw [Document.remove, if_pos unnamed]

theorem remove (linked : doc.WellLinked) (numbered : 0 < id.index) (other : id ≠ root) :
    (doc.remove id).2.WellLinked := by
  by_cases live : doc.IsLive id
  · have linked' := linked.detach live
    have live' := (linked.sameUse_detach live).live_iff.mpr live
    rw [linked.remove_eq live]
    exact (HasShape.releaseAll linked'
      (linked'.loose_preorder live' other (linked.top_detach live))).wellLinked
  · rw [remove_stale numbered live]
    exact linked

theorem removeAll (linked : doc.WellLinked) {ids : List NodeId}
    (removable : ∀ id ∈ ids, 0 < id.index ∧ id ≠ root) : (doc.removeAll ids).2.WellLinked := by
  rw [Document.removeAll]
  generalize 0 = count
  induction ids generalizing doc count with
  | nil => exact linked
  | cons id rest ih =>
    obtain ⟨numbered, other⟩ := removable id (by simp)
    rw [List.foldl_cons]
    exact ih (linked.remove numbered other) (fun id member => removable id (by simp [member])) _

theorem removeChildren (linked : doc.WellLinked) (live : doc.IsLive id) :
    (doc.removeChildren id).2.WellLinked := by
  apply linked.removeAll
  intro child member
  obtain ⟨liveC, above⟩ := linked.child live member
  refine ⟨liveC.numbered, ?_⟩
  rintro rfl
  simp [linked.root_top] at above

end WellLinked
end Markup.Document
