import Mathlib
import Markup.Proofs.Store.Runs
import Markup.Proofs.Store.Turnover

/-!
# The names that were ever in use

While a document is changed it is noted down which names its nodes have had and how many nodes it
has held at a time. A node that is removed takes along what stands below it and nothing else, and
its name never comes back.
-/

namespace Markup.Document

variable {doc doc' doc'' : Document} {id other parent : NodeId} {gone : List NodeId}
  {kind : NodeKind}

/-! ## Removing several nodes -/

namespace WellLinked

theorem removeAll_cons (id : NodeId) (rest : List NodeId) :
    (doc.removeAll (id :: rest)).2 = ((doc.remove id).2.removeAll rest).2 := by
  have uncounted : ∀ (ids : List NodeId) (doc : Document),
      (doc.removeAll ids).2 = ids.foldl (fun doc id => (doc.remove id).2) doc :=
    fun _ _ => (List.foldl_hom Prod.snd fun _ _ => rfl).symm
  rw [uncounted, uncounted, List.foldl_cons]

theorem not_live_removeAll (linked : doc.WellLinked) {ids : List NodeId}
    (removable : ∀ id ∈ ids, 0 < id.index ∧ id ≠ root) (member : id ∈ ids) :
    ¬ (doc.removeAll ids).2.IsLive id := by
  induction ids generalizing doc with
  | nil => cases member
  | cons first rest ih =>
    obtain ⟨numbered, distinct⟩ := removable first List.mem_cons_self
    have more : ∀ other ∈ rest, 0 < other.index ∧ other ≠ root :=
      fun other later => removable other (List.mem_cons_of_mem _ later)
    have linked' := linked.remove numbered distinct
    rw [removeAll_cons]
    rcases List.mem_cons.mp member with rfl | later
    · obtain ⟨gone, -, pruned⟩ := linked'.pruned_removeAll more
      intro live''
      have live' := pruned.live live''
      by_cases live : doc.IsLive id
      · have stays := ((linked.pruned_remove live distinct).live_iff id).mp live'
        exact stays.2 id List.mem_cons_self (HasShape.mem_ancestors_self linked live)
      · rw [remove_stale numbered live] at live'
        exact live live'
    · exact ih linked' more later

/-- Removing live nodes removes each of them, whether or not another one holds it. -/
theorem pruned_all (linked : doc.WellLinked) {ids : List NodeId}
    (removable : ∀ id ∈ ids, doc.IsLive id ∧ id ≠ root) :
    Pruned doc (doc.removeAll ids).2 ids := by
  have numbered : ∀ id ∈ ids, 0 < id.index ∧ id ≠ root :=
    fun id member => ⟨(removable id member).1.numbered, (removable id member).2⟩
  obtain ⟨gone, subset, pruned⟩ := linked.pruned_removeAll numbered
  refine { pruned with live_iff := fun other => ⟨fun live' => ?_, fun ⟨live, outside⟩ => ?_⟩ }
  · refine ⟨pruned.live live', fun id member above => ?_⟩
    rw [← pruned.ancestors_eq linked live'] at above
    exact linked.not_live_removeAll numbered member
      (HasShape.live_of_mem_ancestors pruned.linked live' id above)
  · exact (pruned.live_iff other).mpr ⟨live, fun id member => outside id (subset member)⟩

/-- The children of a node can be removed. -/
theorem removable_of_children (linked : doc.WellLinked) (live : doc.IsLive id) {ids : List NodeId}
    (below : ids ⊆ doc.children id) : ∀ child ∈ ids, doc.IsLive child ∧ child ≠ root := by
  intro child member
  obtain ⟨liveC, above⟩ := linked.child live (below member)
  refine ⟨liveC, ?_⟩
  rintro rfl
  simp [linked.root_top] at above

end WellLinked

/-! ## One change -/

/-- A document in which some nodes were removed and others created. The targets are gone with all
that stood below them, and no other node; and where there are any, nothing else was moved. -/
structure Changed (doc doc' : Document) (gone : List NodeId) : Prop where
  linked : doc'.WellLinked
  turnover : Turnover doc doc'
  live : ∀ id ∈ gone, doc.IsLive id
  live_iff : ∀ other, doc.IsLive other →
    (doc'.IsLive other ↔ ∀ id ∈ gone, id ∉ doc.ancestors other)
  attached_eq : gone ≠ [] → ∀ other, doc.IsLive other → doc'.IsLive other →
    doc'.isAttached other = doc.isAttached other

namespace Changed

theorem of_enlarged (linked' : doc'.WellLinked) (enlarged : Enlarged doc doc') :
    Changed doc doc' [] where
  linked := linked'
  turnover := Faded.refl.turnover enlarged
  live := by simp
  live_iff other live := by simp [enlarged.live live]
  attached_eq nonempty := absurd rfl nonempty

theorem refl (linked : doc.WellLinked) : Changed doc doc [] :=
  of_enlarged linked (.refl linked.isPooled)

theorem of_sameLinks (linked : doc.WellLinked) (links : SameLinks doc doc') :
    Changed doc doc' [] :=
  of_enlarged (links.wellLinked linked) ((Enlarged.refl linked.isPooled).sameUse links.use)

theorem isAttached_pruned (linked : doc.WellLinked) (pruned : Pruned doc doc' gone)
    (live' : doc'.IsLive other) : doc'.isAttached other = doc.isAttached other := by
  rw [Bool.eq_iff_iff, pruned.linked.isAttached_iff, linked.isAttached_iff,
    pruned.ancestors_eq linked live']
  exact and_congr_left' ⟨pruned.live, fun _ => live'⟩

theorem of_pruned (linked : doc.WellLinked) (live : ∀ id ∈ gone, doc.IsLive id)
    (pruned : Pruned doc doc' gone) (faded : Faded doc doc') : Changed doc doc' gone where
  linked := pruned.linked
  turnover := faded.turnover (.refl pruned.linked.isPooled)
  live := live
  live_iff other live := by simp [pruned.live_iff, live]
  attached_eq _ _ _ := isAttached_pruned linked pruned

theorem of_removeAll (linked : doc.WellLinked) {ids : List NodeId}
    (removable : ∀ id ∈ ids, doc.IsLive id ∧ id ≠ root) :
    Changed doc (doc.removeAll ids).2 ids := by
  refine of_pruned linked (fun id member => (removable id member).1) (linked.pruned_all removable)
    (.removeAll linked ?_)
  exact fun id member => ⟨(removable id member).1.numbered, (removable id member).2⟩

/-- After the removal a node is created and placed. -/
theorem of_pruned_grow (linked : doc.WellLinked) (live : ∀ id ∈ gone, doc.IsLive id)
    (pruned : Pruned doc doc' gone) (faded : Faded doc doc')
    (live' : doc'.IsLive parent) (kind : NodeKind) :
    Changed doc (doc'.grow parent kind) gone := by
  have more := extended_grow pruned.linked live' kind
  have enlarged := (Enlarged.refl pruned.linked.isPooled).grow parent kind
  have turnover := faded.turnover enlarged
  have fresh : ∀ other, doc.IsLive other → (doc'.grow parent kind).IsLive other →
      doc'.IsLive other := by
    -- A slot that was freed and is used again holds a node of the next generation.
    intro other live live''
    have inside := faded.size ▸ live.lt_size
    rcases enlarged.kept other inside with ⟨generation, removed⟩ | ⟨generation, -⟩
    · rw [isLive_iff] at live'' ⊢
      exact ⟨live.numbered, inside, generation ▸ live''.2.2.1, removed ▸ live''.2.2.2⟩
    · rw [faded.generation, (isLive_iff.mp live).2.2.1, (isLive_iff.mp live'').2.2.1] at generation
      exact absurd generation (by grind)
  refine ⟨more.linked, turnover, live, fun other live => ⟨fun live'' => ?_, fun outside => ?_⟩,
    fun _ other live live'' => ?_⟩
  · exact ((pruned.live_iff other).mp (fresh other live live'')).2
  · exact enlarged.live ((pruned.live_iff other).mpr ⟨live, outside⟩)
  · have live' := fresh other live live''
    rw [← isAttached_pruned linked pruned live', Bool.eq_iff_iff, more.linked.isAttached_iff,
      pruned.linked.isAttached_iff, more.ancestors_kept pruned.linked live']
    exact and_congr_left' ⟨fun _ => live', fun _ => live''⟩

/-- What a change removes: its targets and everything below them. -/
theorem gone_iff (changed : Changed doc doc' gone) (linked : doc.WellLinked)
    (liveO : doc.IsLive other) : ¬ doc'.IsLive other ↔
      other ∈ gone.flatMap fun id => id :: doc.descendants id := by
  rw [changed.live_iff other liveO, List.mem_flatMap]
  push Not
  refine exists_congr fun id => and_congr_right fun member => ?_
  have live := changed.live id member
  rw [← linked.preorder_eq_cons live, linked.mem_preorder_iff live, and_iff_right liveO]

theorem live_of_removed (changed : Changed doc doc' gone) (linked : doc.WellLinked)
    (removed : other ∈ gone.flatMap fun id => id :: doc.descendants id) : doc.IsLive other := by
  obtain ⟨id, member, below⟩ := List.mem_flatMap.mp removed
  have live := changed.live id member
  rw [← linked.preorder_eq_cons live] at below
  exact linked.live_of_mem_preorder live below

end Changed

/-- The live nodes that a change is asked to remove. -/
def Operation.targets (doc : Document) : Operation → List NodeId
  | remove id => if doc.IsLive id then [id] else []
  | removeChildren id => doc.children id
  | _ => []

theorem Operation.changed (linked : doc.WellLinked) {operation : Operation}
    (admissible : operation.Admissible doc) :
    Changed doc (operation.run doc) (operation.targets doc) := by
  have linked' := operation.wellLinked_run linked admissible
  have same := Enlarged.refl linked.isPooled
  cases operation with
  | create kind => exact .of_enlarged linked' (same.create kind)
  | appendChild parent child => exact .of_enlarged linked' (same.appendChild parent child)
  | prependChild parent child => exact .of_enlarged linked' (same.prependChild parent child)
  | insertBefore reference node => exact .of_enlarged linked' (same.insertBefore reference node)
  | insertAfter reference node => exact .of_enlarged linked' (same.insertAfter reference node)
  | detach id => exact .of_enlarged linked' (same.sameUse (linked.sameUse_detach admissible))
  | remove id =>
    by_cases live : doc.IsLive id
    · rw [targets, if_pos live]
      exact .of_pruned linked (by simpa using live) (linked.pruned_remove live admissible.2)
        (.remove linked admissible.1)
    · rw [targets, if_neg live, run, WellLinked.remove_stale admissible.1 live]
      exact .refl linked
  | removeChildren id =>
    exact .of_removeAll linked (linked.removable_of_children admissible (List.Subset.refl _))
  | graft tree => exact .of_enlarged linked' (same.graft tree)
  | rename id name uri => exact .of_sameLinks linked (.rename admissible name uri)
  | setAttribute id attr => exact .of_sameLinks linked (.modifyAttributes admissible _)
  | removeAttribute id localName uri => exact .of_sameLinks linked (.modifyAttributes admissible _)
  | setContent id content => exact .of_sameLinks linked (.setContent admissible content)

/-! ## Keeping count -/

/-- What is noted down of a document while it is changed. -/
structure Chronicle where
  /-- The names that were given to nodes, latest change first. -/
  used : List NodeId
  /-- The greatest number of nodes that were live at a time. -/
  peak : Nat
  deriving Repr, DecidableEq

namespace Chronicle

variable {chronicle : Chronicle}

/-- What is known of a document at first. -/
def start (doc : Document) : Chronicle := ⟨doc.names, doc.names.length⟩

/-- What is taken down of a document that has been changed before: the nodes that are live, and all
its slots as the most that there were. -/
def watch (doc : Document) : Chronicle := ⟨doc.names, doc.nodeCount⟩

/-- Take down the names that came into use with a change, and the number of nodes after it. -/
def note (chronicle : Chronicle) (doc doc' : Document) : Chronicle where
  used := doc'.names.filter (fun id => !decide (doc.IsLive id)) ++ chronicle.used
  peak := max chronicle.peak doc'.names.length

/-- How often a slot was handed out. -/
def uses (chronicle : Chronicle) (index : Nat) : Nat :=
  chronicle.used.countP (·.index == index)

/-- Whether no slot was handed out so often that its generations came round. -/
def IsUnworn (chronicle : Chronicle) : Prop := ∀ index, chronicle.uses index ≤ 2 ^ 32

theorem uses_le_note (chronicle : Chronicle) (doc doc' : Document) (index : Nat) :
    chronicle.uses index ≤ (chronicle.note doc doc').uses index := by
  rw [uses, uses, note, List.countP_append]
  exact Nat.le_add_left _ _

theorem IsUnworn.of_note (unworn : (chronicle.note doc doc').IsUnworn) : chronicle.IsUnworn :=
  fun index => (chronicle.uses_le_note doc doc' index).trans (unworn index)

theorem mem_used_note : id ∈ (chronicle.note doc doc').used ↔
    doc'.IsLive id ∧ ¬ doc.IsLive id ∨ id ∈ chronicle.used := by
  simp [note]

theorem uses_lt_note (chronicle : Chronicle) (gone : ¬ doc.IsLive id) (live' : doc'.IsLive id) :
    chronicle.uses id.index < (chronicle.note doc doc').uses id.index := by
  rw [uses, uses, note, List.countP_append, Nat.lt_add_left_iff_pos, List.countP_pos_iff]
  exact ⟨id, by simp [gone, live'], beq_self_eq_true _⟩

/-- What is noted down is all that there was, and it is told apart. -/
structure IsAccurate (chronicle : Chronicle) (doc : Document) : Prop where
  live : ∀ id, doc.IsLive id → id ∈ chronicle.used
  numbered : ∀ id ∈ chronicle.used, 0 < id.index
  inside : ∀ id ∈ chronicle.used, id.index < doc.slots.size
  single : chronicle.used.Nodup
  /-- A slot has gone on by fewer generations than it was handed out since the name was given. -/
  older : ∀ id ∈ chronicle.used, ∃ later < chronicle.uses id.index,
    (doc.slot id).generation.toNat = (id.generation.toNat + later) % 2 ^ 32
  peak_eq : doc.nodeCount = chronicle.peak

theorem isAccurate_watch : (watch doc).IsAccurate doc where
  live id live := mem_names.mpr live
  numbered id member := (mem_names.mp member).numbered
  inside id member := (mem_names.mp member).lt_size
  single := nodup_names
  older id member := by
    refine ⟨0, List.countP_pos_iff.mpr ⟨id, member, beq_self_eq_true _⟩, ?_⟩
    rw [(isLive_iff.mp (mem_names.mp member)).2.2.1, Nat.add_zero,
      Nat.mod_eq_of_lt id.generation.toNat_lt]
  peak_eq := rfl

theorem isAccurate_start (linked : doc.WellLinked) (unfreed : doc.free = []) :
    (start doc).IsAccurate doc := by
  have count : doc.names.length = doc.nodeCount := by
    have count := linked.length_names
    rwa [unfreed, List.length_nil, Nat.add_zero] at count
  rw [start, count]
  exact isAccurate_watch

namespace IsAccurate

variable (accurate : chronicle.IsAccurate doc)
include accurate

/-- A name that was given before is not given again. -/
theorem not_renewed (turnover : Turnover doc doc') (unworn : (chronicle.note doc doc').IsUnworn)
    (known : id ∈ chronicle.used) (live' : doc'.IsLive id) : doc.IsLive id := by
  by_contra gone
  have inside := accurate.inside id known
  obtain ⟨numbered, -, current, kept⟩ := isLive_iff.mp live'
  rcases turnover.kept id inside with ⟨generation, removed⟩ | ⟨generation, -⟩
  · refine gone (isLive_iff.mpr ⟨numbered, inside, generation ▸ current, ?_⟩)
    by_contra waits
    rw [removed (by simpa using waits)] at kept
    cases kept
  · obtain ⟨later, fewer, older⟩ := accurate.older id known
    have bound := (chronicle.uses_lt_note gone live').trans_le (unworn id.index)
    have next := congrArg UInt32.toNat (current.symm.trans generation)
    rw [UInt32.toNat_add, UInt32.toNat_one] at next
    have small := id.generation.toNat_lt
    omega

theorem note (linked : doc.WellLinked) (linked' : doc'.WellLinked) (turnover : Turnover doc doc')
    (unworn : (chronicle.note doc doc').IsUnworn) : (chronicle.note doc doc').IsAccurate doc' := by
  constructor
  · intro id live'
    rw [mem_used_note]
    by_cases live : doc.IsLive id
    · exact .inr (accurate.live id live)
    · exact .inl ⟨live', live⟩
  · intro id member
    rcases mem_used_note.mp member with ⟨live', -⟩ | known
    · exact live'.numbered
    · exact accurate.numbered id known
  · intro id member
    rcases mem_used_note.mp member with ⟨live', -⟩ | known
    · exact live'.lt_size
    · exact (accurate.inside id known).trans_le turnover.size_le
  · refine List.nodup_append.mpr ⟨nodup_names.filter _, accurate.single, ?_⟩
    rintro id new _ known rfl
    simp only [List.mem_filter, mem_names, Bool.not_eq_true', decide_eq_false_iff_not] at new
    exact new.2 (accurate.not_renewed turnover unworn known new.1)
  · intro id member
    by_cases live' : doc'.IsLive id
    · refine ⟨0, List.countP_pos_iff.mpr ⟨id, member, beq_self_eq_true _⟩, ?_⟩
      rw [(isLive_iff.mp live').2.2.1, Nat.add_zero, Nat.mod_eq_of_lt id.generation.toNat_lt]
    · have known := (mem_used_note.mp member).resolve_left fun new => live' new.1
      obtain ⟨later, fewer, older⟩ := accurate.older id known
      have inside := accurate.inside id known
      rcases turnover.kept id inside with ⟨generation, -⟩ | ⟨generation, kept⟩
      · refine ⟨later, fewer.trans_le (chronicle.uses_le_note doc doc' id.index), ?_⟩
        rw [generation, older]
      · -- The slot was handed out once more, to the node whose name it shows now.
        have inside' := inside.trans_le turnover.size_le
        have numbered := accurate.numbered id known
        have new : doc'.IsLive (doc'.occupant id.index) :=
          isLive_iff.mpr ⟨numbered, inside', rfl, kept⟩
        have absent : ¬ doc.IsLive (doc'.occupant id.index) := by
          intro live
          have current := (isLive_iff.mp live).2.2.1.trans generation
          exact absurd current (by grind [occupant, slot])
        refine ⟨later + 1, ?_, ?_⟩
        · have more := chronicle.uses_lt_note absent new
          exact (Nat.succ_le_of_lt fewer).trans_lt more
        · rw [generation, UInt32.toNat_add, older, UInt32.toNat_one]
          omega
  · have count := linked.length_names
    have count' := linked'.length_names
    have grown := turnover.size_le
    have peak : (chronicle.note doc doc').peak = max doc.nodeCount doc'.names.length := by
      rw [accurate.peak_eq]
      rfl
    rw [peak]
    simp only [nodeCount] at *
    by_cases more : doc.slots.size < doc'.slots.size
    · rw [turnover.full more, List.length_nil] at count'
      omega
    · omega

omit accurate in
/-- Creating a node hands out its slot and no other. -/
theorem isUnworn_create (linked : doc.WellLinked) (unworn : chronicle.IsUnworn)
    (left : chronicle.uses (doc.create kind).1.index < 2 ^ 32) :
    (chronicle.note doc (doc.create kind).2).IsUnworn := by
  have made := created kind linked
  have new : ∀ id ∈ (doc.create kind).2.names.filter (fun id => !decide (doc.IsLive id)),
      id = (doc.create kind).1 := by
    intro id member
    simp only [List.mem_filter, mem_names, Bool.not_eq_true', decide_eq_false_iff_not] at member
    exact ((made.live_iff id).mp member.1).resolve_right member.2
  have single : ((doc.create kind).2.names.filter fun id => !decide (doc.IsLive id)).length ≤ 1 := by
    rw [← List.nodup_replicate, ← List.eq_replicate_of_mem new]
    exact nodup_names.filter _
  intro index
  rw [uses, Chronicle.note, List.countP_append]
  by_cases same : index = (doc.create kind).1.index
  · rw [same, Nat.add_comm]
    rw [uses] at left
    exact (Nat.add_le_add_left (List.countP_le_length.trans single) _).trans left
  · rw [List.countP_eq_zero.mpr fun id member => ?_, Nat.zero_add]
    · exact unworn index
    · rw [new id member, beq_iff_eq]
      exact Ne.symm same

/-- The name of the next node is none that was given before. -/
theorem create_not_mem (linked : doc.WellLinked) (unworn : chronicle.IsUnworn)
    (left : chronicle.uses (doc.create kind).1.index < 2 ^ 32) :
    (doc.create kind).1 ∉ chronicle.used := by
  intro known
  have made := created kind linked
  have turnover := Faded.refl.turnover ((Enlarged.refl linked.isPooled).create kind)
  exact made.fresh (accurate.not_renewed turnover (isUnworn_create linked unworn left) known
    made.live)

end IsAccurate

end Chronicle

end Markup.Document
