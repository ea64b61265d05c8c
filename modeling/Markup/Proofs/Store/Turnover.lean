import Markup.Proofs.Store.Growth
import Markup.Proofs.Store.Prune

/-!
# Which slots are in use

Removing nodes frees slots, and creating nodes uses freed slots again before it adds new ones. All
else that is done to a document leaves the slots in the use that they are in. A name is ever given
to one node only as long as no slot is used so often that its generations come round.
-/

namespace Markup.Document

variable {doc doc' doc'' : Document} {id other : NodeId} {kind : NodeKind}
  {change : Slot → Slot}

/-! ## The live nodes -/

/-- The name of a node in the present use of a slot. -/
def occupant (doc : Document) (index : Nat) : NodeId :=
  ⟨index, (doc.slot ⟨index, 0⟩).generation⟩

/-- The names of the live nodes, in the order of their slots. -/
def names (doc : Document) : List NodeId :=
  ((List.range doc.slots.size).map doc.occupant).filter fun id => doc.IsLive id

@[simp] theorem mem_names : id ∈ doc.names ↔ doc.IsLive id := by
  simp only [names, List.mem_filter, List.mem_map, List.mem_range, decide_eq_true_eq,
    and_iff_right_iff_imp]
  intro live
  obtain ⟨-, bounded, current, -⟩ := isLive_iff.mp live
  refine ⟨id.index, bounded, ?_⟩
  rw [occupant, ← show doc.slot id = doc.slot ⟨id.index, 0⟩ from rfl, current]

theorem nodup_names : doc.names.Nodup := by
  refine (List.Nodup.map ?_ List.nodup_range).filter _
  exact fun left right same => congrArg NodeId.index same

/-- A slot holds a live node or waits to be used again, except for the one that is never used. -/
theorem WellLinked.length_names (linked : doc.WellLinked) :
    doc.names.length + doc.free.length = doc.nodeCount := by
  have distinct : (doc.names.map (·.index)).Nodup :=
    (List.nodup_map_iff_inj_on nodup_names).mpr fun left memberL right memberR same =>
      (mem_names.mp memberL).eq_of_index (mem_names.mp memberR) same
  have all : (0 :: (doc.names.map (·.index) ++ doc.free)).Perm (List.range doc.slots.size) := by
    rw [List.perm_ext_iff_of_nodup ?_ List.nodup_range]
    · intro index
      have bounded := linked.root_live.lt_size
      simp only [List.mem_cons, List.mem_append, List.mem_map, mem_names, List.mem_range]
      constructor
      · rintro (rfl | ⟨id, live, rfl⟩ | freed)
        · exact Nat.zero_lt_of_lt bounded
        · exact live.lt_size
        · exact ((linked.free_iff ⟨index, 0⟩).mp freed).1
      · intro inside
        by_cases zero : index = 0
        · exact .inl zero
        · by_cases removed : doc.isRemoved ⟨index, 0⟩ = true
          · exact .inr (.inr ((linked.free_iff ⟨index, 0⟩).mpr ⟨inside, removed⟩))
          · refine .inr (.inl ⟨doc.occupant index, isLive_iff.mpr ⟨?_, inside, rfl, ?_⟩, rfl⟩)
            · exact Nat.pos_of_ne_zero zero
            · rw [isRemoved_of_index (show (doc.occupant index).index = _ from rfl)]
              exact Bool.eq_false_iff.mpr removed
    · refine List.nodup_cons.mpr ⟨fun zero => ?_, List.nodup_append.mpr
        ⟨distinct, linked.free_nodup, ?_⟩⟩
      · rcases List.mem_append.mp zero with named | freed
        · obtain ⟨id, member, same⟩ := List.mem_map.mp named
          exact (mem_names.mp member).numbered.ne' same
        · exact linked.free_pos freed
      · rintro _ named index freed rfl
        obtain ⟨id, member, rfl⟩ := List.mem_map.mp named
        have removed := ((linked.free_iff id).mp freed).2
        rw [(mem_names.mp member).kept] at removed
        cases removed
  have count := all.length_eq
  simp only [List.length_cons, List.length_append, List.length_map, List.length_range] at count
  rw [nodeCount, ← count]
  omega

/-! ## Creating -/

/-- The slots to be used again are the freed ones, each listed once. -/
structure IsPooled (doc : Document) : Prop where
  single : doc.free.Nodup
  free_iff : ∀ id, id.index ∈ doc.free ↔ id.index < doc.slots.size ∧ doc.isRemoved id = true

theorem WellLinked.isPooled (linked : doc.WellLinked) : doc.IsPooled :=
  ⟨linked.free_nodup, linked.free_iff⟩

/-- A document to which nodes were added. No slot is added as long as a freed one is left, and no
slot is used again that was not free. -/
structure Enlarged (doc doc' : Document) : Prop where
  pooled : doc'.IsPooled
  size_le : doc.slots.size ≤ doc'.slots.size
  full : doc.slots.size < doc'.slots.size → doc'.free = []
  kept : ∀ id, id.index < doc.slots.size →
    ((doc'.slot id).generation = (doc.slot id).generation ∧
      doc'.isRemoved id = doc.isRemoved id) ∨
    ((doc'.slot id).generation = (doc.slot id).generation + 1 ∧
      doc.isRemoved id = true ∧ doc'.isRemoved id = false)
  added : ∀ id, doc.slots.size ≤ id.index → id.index < doc'.slots.size →
    doc'.isRemoved id = false

namespace Enlarged

theorem refl (pooled : doc.IsPooled) : Enlarged doc doc where
  pooled := pooled
  size_le := le_rfl
  full more := absurd more (lt_irrefl _)
  kept _ _ := .inl ⟨rfl, rfl⟩
  added _ outside inside := absurd inside outside.not_gt

/-- Whatever does not touch the use of slots may be done besides. -/
theorem congr (enlarged : Enlarged doc doc') (size : doc''.slots.size = doc'.slots.size)
    (free : doc''.free = doc'.free)
    (generation : ∀ id, (doc''.slot id).generation = (doc'.slot id).generation)
    (removed : ∀ id, doc''.isRemoved id = doc'.isRemoved id) : Enlarged doc doc'' where
  pooled := ⟨free ▸ enlarged.pooled.single, fun id => by
    rw [free, size, removed, enlarged.pooled.free_iff]⟩
  size_le := size ▸ enlarged.size_le
  full := by
    rw [size, free]
    exact enlarged.full
  kept id inside := by
    rw [generation, removed]
    exact enlarged.kept id inside
  added id outside inside := by
    rw [removed]
    exact enlarged.added id outside (size ▸ inside)

theorem sameUse (enlarged : Enlarged doc doc') (use : SameUse doc' doc'') : Enlarged doc doc'' :=
  enlarged.congr use.size use.free use.generation use.removed

theorem modify (enlarged : Enlarged doc doc') (id : NodeId) (keeps : ∀ slot,
    (change slot).generation = slot.generation ∧ (change slot).removed = slot.removed) :
    Enlarged doc (doc'.modify id change) := by
  refine enlarged.congr (size_modify change) rfl (fun other => ?_) fun other => ?_
  · rw [slot_modify]
    split
    · exact (keeps _).1
    · rfl
  · rw [isRemoved_modify]
    split
    · exact (keeps _).2
    · rfl

private theorem reuse (enlarged : Enlarged doc doc') {index : Nat} {rest : List Nat}
    (freed : doc'.free = index :: rest) (kind : NodeKind) :
    Enlarged doc (doc'.create kind).2 := by
  obtain ⟨bounded, waits⟩ := (enlarged.pooled.free_iff ⟨index, 0⟩).mp (by simp [freed])
  obtain ⟨last, single⟩ := List.nodup_cons.mp (freed ▸ enlarged.pooled.single)
  have exact_size : doc'.slots.size = doc.slots.size := by
    refine enlarged.size_le.antisymm' (Nat.le_of_not_lt fun more => ?_)
    simp [enlarged.full more] at freed
  have size : (doc'.create kind).2.slots.size = doc'.slots.size := by simp [create, freed]
  have free : (doc'.create kind).2.free = rest := by simp [create, freed]
  have slots : ∀ id, (doc'.create kind).2.slot id = if id.index = index
      then { kind, generation := (doc'.slot ⟨index, 0⟩).generation + 1 } else doc'.slot id := by
    intro id
    by_cases same : id.index = index
    · simp [create, freed, slot, same, bounded]
    · simp [create, freed, slot, same, Ne.symm same]
  constructor
  · refine ⟨free ▸ single, fun id => ?_⟩
    have before := enlarged.pooled.free_iff id
    rw [freed] at before
    rw [free, size, isRemoved, slots]
    by_cases same : id.index = index
    · simp [same, last]
    · rw [if_neg same, slot_removed, ← before]
      simp [same]
  · rw [size]
    exact enlarged.size_le
  · intro more
    omega
  · intro id inside
    rw [isRemoved, slots]
    by_cases same : id.index = index
    · have emptied : doc'.isRemoved id = doc'.isRemoved ⟨index, 0⟩ := isRemoved_of_index same
      rcases enlarged.kept id inside with ⟨generation, removed⟩ | ⟨-, -, kept⟩
      · rw [if_pos same, ← removed, ← generation, slot, slot, same, emptied]
        exact .inr ⟨rfl, waits, rfl⟩
      · rw [emptied, waits] at kept
        cases kept
    · rw [if_neg same]
      exact enlarged.kept id inside
  · intro id outside inside
    omega

private theorem push (enlarged : Enlarged doc doc') (freed : doc'.free = []) (kind : NodeKind) :
    Enlarged doc (doc'.create kind).2 := by
  have size : (doc'.create kind).2.slots.size = doc'.slots.size + 1 := by simp [create, freed]
  have free : (doc'.create kind).2.free = [] := by simp [create, freed]
  have slots : ∀ id, (doc'.create kind).2.slot id =
      if id.index = doc'.slots.size then { kind } else doc'.slot id := by
    intro id
    rw [slot, slot, Array.getD_eq_getD_getElem?, Array.getD_eq_getD_getElem?]
    simp only [create, freed, Array.getElem?_push]
    split <;> rfl
  have unfreed : ∀ id : NodeId, id.index < doc'.slots.size → doc'.isRemoved id = false := by
    intro id bounded
    have before := enlarged.pooled.free_iff id
    simpa [freed, bounded] using before
  have kept : ∀ id : NodeId, id.index < doc'.slots.size + 1 →
      (doc'.create kind).2.isRemoved id = false := by
    intro id bounded
    rw [isRemoved, slots]
    split
    · rfl
    · exact unfreed id (by omega)
  have inner := enlarged.size_le
  constructor
  · refine ⟨free ▸ List.nodup_nil, fun id => ?_⟩
    rw [free, size]
    simp only [List.not_mem_nil, false_iff, not_and, Bool.not_eq_true]
    exact kept id
  · omega
  · exact fun _ => free
  · intro id inside
    have apart : id.index ≠ doc'.slots.size := by omega
    rw [isRemoved, slots, if_neg apart]
    exact enlarged.kept id inside
  · intro id _ inside
    exact kept id (size ▸ inside)

theorem create (enlarged : Enlarged doc doc') (kind : NodeKind) :
    Enlarged doc (doc'.create kind).2 := by
  cases freed : doc'.free with
  | nil => exact enlarged.push freed kind
  | cons index rest => exact enlarged.reuse freed kind

theorem appendChild (enlarged : Enlarged doc doc') (parent child : NodeId) :
    Enlarged doc (doc'.appendChild parent child) := by
  cases last : doc'.lastChild parent with
  | none =>
    simp only [Document.appendChild, last]
    refine (enlarged.modify child ?_).modify parent ?_ <;> exact fun _ => ⟨rfl, rfl⟩
  | some last' =>
    simp only [Document.appendChild, last]
    refine (((enlarged.modify child ?_).modify last' ?_).modify child ?_).modify parent ?_ <;>
      exact fun _ => ⟨rfl, rfl⟩

theorem insertBefore (enlarged : Enlarged doc doc') (reference node : NodeId) :
    Enlarged doc (doc'.insertBefore reference node) := by
  cases above : doc'.parent reference with
  | none => simpa only [Document.insertBefore, above] using enlarged
  | some parent =>
    cases earlier : doc'.prevSibling reference with
    | none =>
      simp only [Document.insertBefore, above, earlier]
      refine (((enlarged.modify node ?_).modify parent ?_).modify node ?_).modify reference ?_ <;>
        exact fun _ => ⟨rfl, rfl⟩
    | some before =>
      simp only [Document.insertBefore, above, earlier]
      refine ((((enlarged.modify node ?_).modify before ?_).modify node ?_).modify node ?_).modify
        reference ?_ <;> exact fun _ => ⟨rfl, rfl⟩

theorem insertAfter (enlarged : Enlarged doc doc') (reference node : NodeId) :
    Enlarged doc (doc'.insertAfter reference node) := by
  unfold Document.insertAfter
  split
  · exact enlarged.insertBefore _ node
  · split
    · exact enlarged.appendChild _ node
    · exact enlarged

theorem prependChild (enlarged : Enlarged doc doc') (parent child : NodeId) :
    Enlarged doc (doc'.prependChild parent child) := by
  unfold Document.prependChild
  split
  · exact enlarged.insertBefore _ child
  · exact enlarged.appendChild parent child

theorem modifyKind (enlarged : Enlarged doc doc') (id : NodeId) (change : NodeKind → NodeKind) :
    Enlarged doc (doc'.modifyKind id change) := enlarged.modify id fun _ => ⟨rfl, rfl⟩

theorem modifyAttributes (enlarged : Enlarged doc doc') (id : NodeId)
    (change : List Attribute → List Attribute) :
    Enlarged doc (doc'.modifyAttributes id change) := by
  unfold Document.modifyAttributes
  exact enlarged.modifyKind id _

/-- Growing a document enlarges it. -/
theorem isKept : IsKept (fun _ => True) (Enlarged doc) where
  create enlarged _ := enlarged.create _
  appendChild parent child enlarged := enlarged.appendChild parent child
  insertBefore reference node enlarged := enlarged.insertBefore reference node
  setAttribute id attr enlarged _ := enlarged.modifyAttributes id attr.putIn

theorem grow (enlarged : Enlarged doc doc') (parent : NodeId) (kind : NodeKind) :
    Enlarged doc (doc'.grow parent kind) := isKept.grow enlarged fun _ _ => trivial

theorem graft (enlarged : Enlarged doc doc') (tree : Tree) : Enlarged doc (doc'.graft tree).2 :=
  isKept.graft enlarged (.of_all (fun _ => trivial) tree)

/-- What was there before is still there. -/
theorem live (enlarged : Enlarged doc doc') (live : doc.IsLive id) : doc'.IsLive id := by
  obtain ⟨numbered, inside, current, kept⟩ := isLive_iff.mp live
  have inside' := inside.trans_le enlarged.size_le
  rcases enlarged.kept id inside with ⟨generation, removed⟩ | ⟨-, waits, -⟩
  · exact isLive_iff.mpr ⟨numbered, inside', generation.trans current, removed.trans kept⟩
  · rw [kept] at waits
    cases waits

end Enlarged

/-! ## Removing -/

/-- A document of which some slots were freed. -/
structure Faded (doc doc' : Document) : Prop where
  size : doc'.slots.size = doc.slots.size
  generation : ∀ id, (doc'.slot id).generation = (doc.slot id).generation
  removed : ∀ id, doc.isRemoved id = true → doc'.isRemoved id = true

namespace Faded

theorem refl : Faded doc doc := ⟨rfl, fun _ => rfl, fun _ => id⟩

theorem trans (first : Faded doc doc') (second : Faded doc' doc'') : Faded doc doc'' where
  size := second.size.trans first.size
  generation id := (second.generation id).trans (first.generation id)
  removed id waits := second.removed id (first.removed id waits)

theorem remove (linked : doc.WellLinked) (numbered : 0 < id.index) :
    Faded doc (doc.remove id).2 := by
  by_cases live : doc.IsLive id
  · have use := linked.sameUse_detach live
    rw [linked.remove_eq live]
    constructor
    · rw [size_releaseAll, use.size]
    · intro other
      rw [slot_releaseAll, ← use.generation]
      split <;> rfl
    · intro other waits
      rw [isRemoved, slot_releaseAll]
      split
      · rfl
      · exact (use.removed other).trans waits
  · rw [WellLinked.remove_stale numbered live]
    exact .refl

theorem removeAll (linked : doc.WellLinked) {ids : List NodeId}
    (removable : ∀ id ∈ ids, 0 < id.index ∧ id ≠ root) : Faded doc (doc.removeAll ids).2 := by
  rw [Document.removeAll]
  generalize 0 = count
  induction ids generalizing doc count with
  | nil => exact .refl
  | cons id rest ih =>
    obtain ⟨numbered, distinct⟩ := removable id List.mem_cons_self
    rw [List.foldl_cons]
    refine (remove linked numbered).trans (ih (linked.remove numbered distinct) ?_ _)
    exact fun other member => removable other (List.mem_cons_of_mem _ member)

end Faded

/-- A document changed by removing nodes first and then creating others. -/
structure Turnover (doc doc' : Document) : Prop where
  size_le : doc.slots.size ≤ doc'.slots.size
  full : doc.slots.size < doc'.slots.size → doc'.free = []
  kept : ∀ id, id.index < doc.slots.size →
    ((doc'.slot id).generation = (doc.slot id).generation ∧
      (doc.isRemoved id = true → doc'.isRemoved id = true)) ∨
    ((doc'.slot id).generation = (doc.slot id).generation + 1 ∧ doc'.isRemoved id = false)

theorem Faded.turnover (faded : Faded doc doc') (enlarged : Enlarged doc' doc'') :
    Turnover doc doc'' where
  size_le := faded.size ▸ enlarged.size_le
  full more := enlarged.full (faded.size ▸ more)
  kept id inside := by
    rcases enlarged.kept id (faded.size ▸ inside) with ⟨generation, removed⟩ | ⟨generation, -, kept⟩
    · refine .inl ⟨generation.trans (faded.generation id), fun waits => ?_⟩
      rw [removed, faded.removed id waits]
    · exact .inr ⟨by rw [generation, faded.generation], kept⟩

end Markup.Document
