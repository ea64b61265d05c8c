import Markup.Proofs.Store.Remove

/-!
# What is left after removals

Removing nodes takes away what stands below them and nothing else. What stays is as it was and hangs
where it hung.
-/

namespace Markup.Document

variable {doc doc' doc'' : Document} {id other parent : NodeId} {gone later : List NodeId}

/-! ## One node -/

namespace WellLinked

theorem parent_detach (linked : doc.WellLinked) (live : doc.IsLive id)
    (liveO : doc.IsLive other) (distinct : other ≠ id) :
    (doc.detach id).parent other = doc.parent other := by
  cases above : doc.parent id with
  | none => simp only [Document.detach, above]
  | some parent =>
    obtain ⟨liveP, member⟩ := linked.listed live above
    obtain ⟨before, after, split⟩ := List.append_of_mem member
    rw [(erased_detach linked liveP split).parent_eq other liveO, if_neg distinct]

/-- What stood below a node still does once the node is taken out. -/
theorem mem_ancestors_detach (linked : doc.WellLinked) (live : doc.IsLive id)
    (liveO : doc.IsLive other) :
    id ∈ (doc.detach id).ancestors other ↔ id ∈ doc.ancestors other := by
  have linked' := linked.detach live
  have use := linked.sameUse_detach live
  have live' : ∀ {each}, doc.IsLive each → (doc.detach id).IsLive each := use.live_iff.mpr
  refine linked.ascent (motive := fun other =>
    id ∈ (doc.detach id).ancestors other ↔ id ∈ doc.ancestors other) ?_ ?_ other liveO
  · intro other liveO top
    by_cases same : other = id
    · subst same
      simp [HasShape.mem_ancestors_self linked liveO,
        HasShape.mem_ancestors_self linked' (live' liveO)]
    · have top' := (linked.parent_detach live liveO same).trans top
      rw [HasShape.ancestors_of_top linked liveO top,
        HasShape.ancestors_of_top linked' (live' liveO) top']
  · intro other parent liveO liveP above ih
    by_cases same : other = id
    · subst same
      simp [HasShape.mem_ancestors_self linked liveO,
        HasShape.mem_ancestors_self linked' (live' liveO)]
    · have above' := (linked.parent_detach live liveO same).trans above
      rw [HasShape.ancestors_of_parent linked liveO above,
        HasShape.ancestors_of_parent linked' (live' liveO) above', List.mem_cons, List.mem_cons, ih]

end WellLinked

/-! ## Several nodes -/

/-- A document from which some nodes were removed with everything below them. -/
structure Pruned (doc doc' : Document) (gone : List NodeId) : Prop where
  linked : doc'.WellLinked
  live_iff : ∀ other,
    doc'.IsLive other ↔ doc.IsLive other ∧ ∀ id ∈ gone, id ∉ doc.ancestors other
  kind_eq : ∀ other, doc'.IsLive other → doc'.kind other = doc.kind other
  parent_eq : ∀ other, doc'.IsLive other → doc'.parent other = doc.parent other

namespace Pruned

theorem refl (linked : doc.WellLinked) : Pruned doc doc [] :=
  ⟨linked, by simp, fun _ _ => rfl, fun _ _ => rfl⟩

theorem live (pruned : Pruned doc doc' gone) (live' : doc'.IsLive id) : doc.IsLive id :=
  ((pruned.live_iff id).mp live').1

theorem ancestors_eq (pruned : Pruned doc doc' gone) (linked : doc.WellLinked)
    (live' : doc'.IsLive id) : doc'.ancestors id = doc.ancestors id := by
  refine (HasShape.ancestors_congr pruned.linked linked ?_ live').symm
  exact fun other live' => ⟨pruned.live live', (pruned.parent_eq other live').symm⟩

theorem trans (linked : doc.WellLinked) (first : Pruned doc doc' gone)
    (second : Pruned doc' doc'' later) : Pruned doc doc'' (gone ++ later) where
  linked := second.linked
  live_iff other := by
    rw [second.live_iff, List.forall_mem_append, ← and_assoc, ← first.live_iff]
    apply and_congr_right
    intro live'
    rw [first.ancestors_eq linked live']
  kind_eq other live'' := by
    have live' := second.live live''
    rw [second.kind_eq other live'', first.kind_eq other live']
  parent_eq other live'' := by
    have live' := second.live live''
    rw [second.parent_eq other live'', first.parent_eq other live']

end Pruned

namespace WellLinked

theorem pruned_remove (linked : doc.WellLinked) (live : doc.IsLive id) (distinct : id ≠ root) :
    Pruned doc (doc.remove id).2 [id] := by
  have linked' := linked.detach live
  have use := linked.sameUse_detach live
  have live' := use.live_iff.mpr live
  have loose := linked'.loose_preorder live' distinct (linked.top_detach live)
  have stays : ∀ other, (doc.remove id).2.IsLive other ↔
      doc.IsLive other ∧ id ∉ doc.ancestors other := by
    intro other
    rw [linked.remove_eq live, loose.live_iff, linked'.mem_preorder_iff live', use.live_iff]
    apply and_congr_right
    intro liveO
    rw [linked.mem_ancestors_detach live liveO]
    simp [liveO]
  have slot_eq : ∀ other, (doc.remove id).2.IsLive other →
      (doc.remove id).2.slot other = (doc.detach id).slot other := by
    intro other live''
    rw [linked.remove_eq live] at live'' ⊢
    obtain ⟨liveO, kept⟩ := loose.live_iff.mp live''
    exact loose.slot_eq liveO kept
  refine ⟨linked.remove live.numbered distinct, by simpa using stays, ?_, ?_⟩
  · intro other live''
    rw [kind, slot_eq other live'']
    exact kind_detach
  · intro other live''
    obtain ⟨liveO, kept⟩ := (stays other).mp live''
    have apart : other ≠ id := by
      rintro rfl
      exact kept (HasShape.mem_ancestors_self linked liveO)
    rw [Document.parent, slot_eq other live'']
    exact linked.parent_detach live liveO apart

/-- Removing several live nodes, the document node not among them, removes what stands below any of
them. -/
theorem pruned_removeAll (linked : doc.WellLinked) {ids : List NodeId}
    (removable : ∀ id ∈ ids, 0 < id.index ∧ id ≠ root) :
    ∃ gone, gone ⊆ ids ∧ Pruned doc (doc.removeAll ids).2 gone := by
  rw [Document.removeAll]
  generalize 0 = count
  induction ids generalizing doc count with
  | nil => exact ⟨[], List.nil_subset _, .refl linked⟩
  | cons id rest ih =>
    obtain ⟨numbered, distinct⟩ := removable id List.mem_cons_self
    have more : ∀ other ∈ rest, 0 < other.index ∧ other ≠ root :=
      fun other member => removable other (List.mem_cons_of_mem _ member)
    rw [List.foldl_cons]
    by_cases live : doc.IsLive id
    · have first := linked.pruned_remove live distinct
      obtain ⟨gone, subset, second⟩ := ih first.linked more (count + (doc.remove id).1)
      exact ⟨id :: gone, List.cons_subset_cons id subset, first.trans linked second⟩
    · obtain ⟨gone, subset, second⟩ := ih linked more (count + 0)
      refine ⟨gone, List.subset_cons_of_subset id subset, ?_⟩
      dsimp only
      rwa [remove_stale numbered live]

/-- Without the document node nothing is part of the tree. -/
theorem not_isAttached_remove_root (linked : doc.WellLinked) (id : NodeId) :
    (doc.remove root).2.isAttached id = false := by
  have orphan : doc.detach root = doc := by
    simp only [Document.detach, linked.root_top]
  rw [linked.remove_eq linked.root_live, orphan]
  have size : ((doc.preorder root).foldl release doc).slots.size = doc.slots.size :=
    size_releaseAll _
  have parents : ((doc.preorder root).foldl release doc).parent = doc.parent := by
    funext other
    rw [Document.parent, slot_releaseAll]
    split <;> rfl
  have paths : ((doc.preorder root).foldl release doc).ancestors id = doc.ancestors id := by
    rw [ancestors, ancestors, along, along, size, parents]
  rw [isAttached, paths]
  by_cases freed : id.index ∈ (doc.preorder root).map (·.index) ∧ id.index < doc.slots.size
  · simp [isRemoved, slot_releaseAll, freed, Document.freed]
  · have current : ((doc.preorder root).foldl release doc).contains id = doc.contains id := by
      rw [Bool.eq_iff_iff, contains_iff, contains_iff, size, slot_releaseAll, if_neg freed]
    have kept : ((doc.preorder root).foldl release doc).isRemoved id = doc.isRemoved id := by
      rw [isRemoved, slot_releaseAll, if_neg freed, slot_removed]
    rw [current, kept, ← isAttached, ← Bool.not_eq_true, ← linked.mem_order_iff, linked.order_eq]
    intro member
    have live := linked.live_of_mem_preorder linked.root_live member
    exact freed ⟨List.mem_map_of_mem member, live.lt_size⟩

end WellLinked
end Markup.Document
