import Markup.Document.Edit
import Mathlib.Data.List.Nodup
import Markup.Proofs.Store.Walk
import Mathlib.Data.List.Perm.Subperm
import Mathlib.Data.List.Range

/-!
# The shape of a store

The name of a live node is settled by the number of its slot, so a change of one slot is a change
of one node. The five links of each node are kept in step with one another. What they are in step
with is a list of children for each node; it is stored nowhere, and every operation is described by
how it changes these lists.
-/

namespace Markup.Document

section Slots

variable {doc : Document} {id other : NodeId}

/-- A name of a node that is in the document: the present use of a slot that is not freed. -/
structure IsLive (doc : Document) (id : NodeId) : Prop where
  numbered : 0 < id.index
  current : doc.contains id = true
  kept : doc.isRemoved id = false

instance : Decidable (doc.IsLive id) :=
  decidable_of_iff (0 < id.index ∧ doc.contains id = true ∧ doc.isRemoved id = false)
    ⟨fun ⟨numbered, current, kept⟩ => ⟨numbered, current, kept⟩,
      fun ⟨numbered, current, kept⟩ => ⟨numbered, current, kept⟩⟩

theorem contains_iff : doc.contains id = true ↔
    id.index < doc.slots.size ∧ (doc.slot id).generation = id.generation := by
  unfold contains slot
  by_cases inside : id.index < doc.slots.size
  · simp [inside]
  · simp [inside]

theorem isLive_iff : doc.IsLive id ↔ 0 < id.index ∧ id.index < doc.slots.size ∧
    (doc.slot id).generation = id.generation ∧ doc.isRemoved id = false := by
  constructor
  · rintro ⟨numbered, current, kept⟩
    exact ⟨numbered, (contains_iff.mp current).1, (contains_iff.mp current).2, kept⟩
  · rintro ⟨numbered, bounded, current, kept⟩
    exact ⟨numbered, contains_iff.mpr ⟨bounded, current⟩, kept⟩

/-- What a slot holds does not depend on the generation that it is asked for. -/
theorem isRemoved_of_index (same : id.index = other.index) :
    doc.isRemoved id = doc.isRemoved other := by
  rw [isRemoved, isRemoved, slot, slot, same]

namespace IsLive

theorem lt_size (live : doc.IsLive id) : id.index < doc.slots.size :=
  (contains_iff.mp live.current).1

/-- Live nodes in one slot are one node. -/
theorem eq_of_index (live : doc.IsLive id) (live' : doc.IsLive other)
    (same : id.index = other.index) : id = other := by
  have left := (contains_iff.mp live.current).2
  have right := (contains_iff.mp live'.current).2
  have shared : doc.slot id = doc.slot other := by rw [slot, slot, same]
  cases id
  cases other
  simp_all

theorem index_eq_iff (live : doc.IsLive id) (live' : doc.IsLive other) :
    id.index = other.index ↔ id = other :=
  ⟨live.eq_of_index live', fun same => by rw [same]⟩

end IsLive

/-! ## Changing one slot -/

theorem slot_modify (change : Slot → Slot) :
    (doc.modify id change).slot other =
      if other.index = id.index ∧ other.index < doc.slots.size then change (doc.slot other)
      else doc.slot other := by
  unfold modify slot
  by_cases inside : other.index < doc.slots.size
  · by_cases same : id.index = other.index
    · simp [same, inside, Array.getElem_modify]
    · simp [same, inside, Array.getElem_modify, Ne.symm same]
  · simp [inside]

@[simp] theorem size_modify (change : Slot → Slot) :
    (doc.modify id change).slots.size = doc.slots.size := by simp [modify]

@[simp] theorem free_modify (change : Slot → Slot) : (doc.modify id change).free = doc.free := rfl

/-- A part of what a slot holds, after a slot was changed. -/
theorem get_modify {α : Type} (get : Slot → α) (change : Slot → Slot) :
    get ((doc.modify id change).slot other) =
      if other.index = id.index ∧ other.index < doc.slots.size then get (change (doc.slot other))
      else get (doc.slot other) := by
  rw [slot_modify]
  exact apply_ite get _ _ _

/-! ### Part by part

What is read off a slot goes by the name of the part. -/

@[simp] theorem slot_parent : (doc.slot id).parent = doc.parent id := rfl
@[simp] theorem slot_firstChild : (doc.slot id).firstChild = doc.firstChild id := rfl
@[simp] theorem slot_lastChild : (doc.slot id).lastChild = doc.lastChild id := rfl
@[simp] theorem slot_nextSibling : (doc.slot id).nextSibling = doc.nextSibling id := rfl
@[simp] theorem slot_prevSibling : (doc.slot id).prevSibling = doc.prevSibling id := rfl
@[simp] theorem slot_kind : (doc.slot id).kind = doc.kind id := rfl
@[simp] theorem slot_removed : (doc.slot id).removed = doc.isRemoved id := rfl

@[simp] theorem parent_modify (change : Slot → Slot) : (doc.modify id change).parent other =
    if other.index = id.index ∧ other.index < doc.slots.size then (change (doc.slot other)).parent
    else doc.parent other := get_modify (·.parent) change

@[simp] theorem firstChild_modify (change : Slot → Slot) : (doc.modify id change).firstChild other =
    if other.index = id.index ∧ other.index < doc.slots.size
    then (change (doc.slot other)).firstChild
    else doc.firstChild other := get_modify (·.firstChild) change

@[simp] theorem lastChild_modify (change : Slot → Slot) : (doc.modify id change).lastChild other =
    if other.index = id.index ∧ other.index < doc.slots.size
    then (change (doc.slot other)).lastChild
    else doc.lastChild other := get_modify (·.lastChild) change

@[simp] theorem nextSibling_modify (change : Slot → Slot) :
    (doc.modify id change).nextSibling other =
      if other.index = id.index ∧ other.index < doc.slots.size
      then (change (doc.slot other)).nextSibling
      else doc.nextSibling other := get_modify (·.nextSibling) change

@[simp] theorem prevSibling_modify (change : Slot → Slot) :
    (doc.modify id change).prevSibling other =
      if other.index = id.index ∧ other.index < doc.slots.size
      then (change (doc.slot other)).prevSibling
      else doc.prevSibling other := get_modify (·.prevSibling) change

@[simp] theorem kind_modify (change : Slot → Slot) : (doc.modify id change).kind other =
    if other.index = id.index ∧ other.index < doc.slots.size then (change (doc.slot other)).kind
    else doc.kind other := get_modify (·.kind) change

@[simp] theorem isRemoved_modify (change : Slot → Slot) : (doc.modify id change).isRemoved other =
    if other.index = id.index ∧ other.index < doc.slots.size then (change (doc.slot other)).removed
    else doc.isRemoved other := get_modify (·.removed) change

end Slots

/-! ## Links in step -/

/-- The links of the live nodes are those of the given lists of children, no node stands below
itself, and the slots to be used again are the freed ones. -/
structure HasShape (doc : Document) (kids : NodeId → List NodeId) : Prop where
  root_live : doc.IsLive root
  root_top : doc.parent root = none
  forward : ∀ {id}, doc.IsLive id → Leads doc.nextSibling (doc.firstChild id) (kids id)
  backward : ∀ {id}, doc.IsLive id → Leads doc.prevSibling (doc.lastChild id) (kids id).reverse
  /-- What is listed hangs where it is listed. -/
  child : ∀ {id child}, doc.IsLive id → child ∈ kids id →
    doc.IsLive child ∧ doc.parent child = some id
  /-- What hangs somewhere is listed there. -/
  listed : ∀ {id parent}, doc.IsLive id → doc.parent id = some parent →
    doc.IsLive parent ∧ id ∈ kids parent
  alone : ∀ {id}, doc.IsLive id → doc.parent id = none →
    doc.nextSibling id = none ∧ doc.prevSibling id = none
  grounded : ∀ {id}, doc.IsLive id → ∃ path, Leads doc.parent (some id) path
  /-- The slot that is never used hangs nowhere. -/
  unused_top : doc.parent ⟨0, 0⟩ = none
  free_nodup : doc.free.Nodup
  free_pos : 0 ∉ doc.free
  free_iff : ∀ id, id.index ∈ doc.free ↔ id.index < doc.slots.size ∧ doc.isRemoved id = true

theorem kind_empty : (id : NodeId) → empty.kind id = .document
  | ⟨0, _⟩ | ⟨1, _⟩ | ⟨_ + 2, _⟩ => rfl

/-- The document without content has no children anywhere. -/
theorem hasShape_empty : empty.HasShape fun _ => [] := by
  have blank : ∀ id, empty.slot id = { kind := .document } := by
    intro id
    unfold slot empty
    rcases id with ⟨_ | _ | _, generation⟩ <;> simp
  have unlinked : ∀ id, empty.parent id = none ∧ empty.firstChild id = none ∧
      empty.lastChild id = none ∧ empty.nextSibling id = none ∧ empty.prevSibling id = none := by
    intro id
    simp [parent, firstChild, lastChild, nextSibling, prevSibling, blank]
  exact {
    root_live := by decide
    root_top := (unlinked root).1
    forward := fun {id} _ => (unlinked id).2.1
    backward := fun {id} _ => (unlinked id).2.2.1
    child := fun _ member => absurd member (by simp)
    listed := fun {id parent} _ above => absurd above (by simp [(unlinked id).1])
    alone := fun {id} _ _ => (unlinked id).2.2.2
    grounded := fun {id} _ => ⟨[id], rfl, (unlinked id).1⟩
    unused_top := (unlinked _).1
    free_nodup := List.nodup_nil
    free_pos := by simp [empty]
    free_iff := fun id => by
      rw [isRemoved, blank]
      simp [empty] }

namespace HasShape

variable {doc : Document} {kids : NodeId → List NodeId} {id parent child : NodeId}
  {path : List NodeId}

/-! ## Children -/

theorem kids_nodup (shape : doc.HasShape kids) (live : doc.IsLive id) : (kids id).Nodup :=
  (shape.forward live).nodup

theorem firstChild_eq (shape : doc.HasShape kids) (live : doc.IsLive id) :
    doc.firstChild id = (kids id).head? := (shape.forward live).start_eq

theorem lastChild_eq (shape : doc.HasShape kids) (live : doc.IsLive id) :
    doc.lastChild id = (kids id).getLast? := by
  rw [(shape.backward live).start_eq, List.head?_reverse]

theorem forward' (shape : doc.HasShape kids) (live : doc.IsLive id) :
    Leads doc.nextSibling (kids id).head? (kids id) := by
  have walk := shape.forward live
  rwa [shape.firstChild_eq live] at walk

theorem backward' (shape : doc.HasShape kids) (live : doc.IsLive id) :
    Leads doc.prevSibling (kids id).reverse.head? (kids id).reverse := by
  have walk := shape.backward live
  rwa [shape.lastChild_eq live, ← List.head?_reverse] at walk

/-- The siblings of a child are its neighbours in the list. -/
theorem siblings_eq (shape : doc.HasShape kids) (live : doc.IsLive id)
    {before after : List NodeId} (split : kids id = before ++ child :: after) :
    doc.nextSibling child = after.head? ∧ doc.prevSibling child = before.getLast? := by
  have forward := shape.forward live
  have backward := shape.backward live
  rw [split] at forward backward
  refine ⟨forward.next_eq, ?_⟩
  rw [List.reverse_append, List.reverse_cons, List.append_assoc] at backward
  rw [← List.head?_reverse]
  exact Leads.next_eq backward

/-! ## The way up -/

/-- What is met on the way up from a live node is live. -/
theorem live_of_path (shape : doc.HasShape kids) (live : doc.IsLive id)
    (walk : Leads doc.parent (some id) path) : ∀ each ∈ path, doc.IsLive each := by
  induction path generalizing id with
  | nil => simp
  | cons first rest ih =>
    obtain ⟨same, later⟩ := walk
    obtain rfl := Option.some.inj same
    intro each member
    rcases List.mem_cons.mp member with rfl | member
    · exact live
    · cases above : doc.parent id with
      | none =>
        rw [above, Leads.none_iff] at later
        simp [later] at member
      | some parent =>
        rw [above] at later
        exact ih (shape.listed live above).1 later each member

end HasShape

/-- Live nodes without repetition are fewer than slots. -/
theorem length_lt_of_live {doc : Document} {list : List NodeId} (single : list.Nodup)
    (nonempty : 0 < doc.slots.size) (live : ∀ id ∈ list, doc.IsLive id) :
    list.length < doc.slots.size := by
  have distinct : (list.map (·.index)).Nodup := by
    apply (List.nodup_map_iff_inj_on single).mpr
    intro left memberL right memberR same
    exact (live left memberL).eq_of_index (live right memberR) same
  have inside : list.map (·.index) ⊆ List.range' 1 (doc.slots.size - 1) := by
    intro index member
    obtain ⟨id, listed, rfl⟩ := List.mem_map.mp member
    have numbered := (live id listed).numbered
    have bounded := (live id listed).lt_size
    rw [List.mem_range'_1]
    omega
  have short := (distinct.subperm inside).length_le
  simp only [List.length_map, List.length_range'] at short
  omega

namespace HasShape

variable {doc : Document} {kids : NodeId → List NodeId} {id : NodeId} {list : List NodeId}
  {next : NodeId → Option NodeId} {start : Option NodeId}

/-- A walk that ends and meets live nodes is not cut off. -/
theorem along_eq (shape : doc.HasShape kids) (walk : Leads next start list)
    (live : ∀ id ∈ list, doc.IsLive id) : doc.along next start = list :=
  walk.walk_eq (length_lt_of_live walk.nodup
    (Nat.zero_lt_of_lt shape.root_live.lt_size) live).le

theorem children_eq (shape : doc.HasShape kids) (live : doc.IsLive id) :
    doc.children id = kids id :=
  shape.along_eq (shape.forward live) fun _ member => (shape.child live member).1

theorem childrenBackwards_eq (shape : doc.HasShape kids) (live : doc.IsLive id) :
    doc.childrenBackwards id = (kids id).reverse :=
  shape.along_eq (shape.backward live) fun _ member =>
    (shape.child live (List.mem_reverse.mp member)).1

/-- Going up from a live node meets its ancestors and ends. -/
theorem leads_ancestors (shape : doc.HasShape kids) (live : doc.IsLive id) :
    Leads doc.parent (some id) (doc.ancestors id) := by
  obtain ⟨path, walk⟩ := shape.grounded live
  rwa [ancestors, shape.along_eq walk (shape.live_of_path live walk)]

theorem ancestors_eq_of_leads (shape : doc.HasShape kids) (live : doc.IsLive id)
    (walk : Leads doc.parent (some id) list) : doc.ancestors id = list :=
  (shape.leads_ancestors live).unique walk

theorem live_of_mem_ancestors (shape : doc.HasShape kids) (live : doc.IsLive id) :
    ∀ each ∈ doc.ancestors id, doc.IsLive each :=
  shape.live_of_path live (shape.leads_ancestors live)

/-- The way up from a node begins with the node. -/
theorem ancestors_eq_cons (shape : doc.HasShape kids) (live : doc.IsLive id) :
    doc.ancestors id = id :: (doc.ancestors id).tail := by
  have walk := shape.leads_ancestors live
  cases path : doc.ancestors id with
  | nil => simp [path] at walk
  | cons first rest =>
    rw [path] at walk
    rw [Option.some.inj walk.1, List.tail_cons]

theorem mem_ancestors_self (shape : doc.HasShape kids) (live : doc.IsLive id) :
    id ∈ doc.ancestors id := by
  rw [shape.ancestors_eq_cons live]
  exact List.mem_cons_self

theorem ancestors_of_top (shape : doc.HasShape kids) (live : doc.IsLive id)
    (top : doc.parent id = none) : doc.ancestors id = [id] :=
  shape.ancestors_eq_of_leads live ⟨rfl, top⟩

theorem ancestors_of_parent (shape : doc.HasShape kids) (live : doc.IsLive id) {parent : NodeId}
    (above : doc.parent id = some parent) : doc.ancestors id = id :: doc.ancestors parent := by
  refine shape.ancestors_eq_of_leads live ⟨rfl, ?_⟩
  rw [above]
  exact shape.leads_ancestors (shape.listed live above).1

/-- Where live nodes hang as they did in another document, the way up is the same. -/
theorem ancestors_congr {doc' : Document} {kids' : NodeId → List NodeId}
    (shape : doc.HasShape kids) (shape' : doc'.HasShape kids')
    (same : ∀ other, doc.IsLive other → doc'.IsLive other ∧ doc'.parent other = doc.parent other)
    (live : doc.IsLive id) : doc'.ancestors id = doc.ancestors id := by
  have walk := (shape.leads_ancestors live).congr fun other above =>
    (same other (shape.live_of_mem_ancestors live other above)).2
  exact shape'.ancestors_eq_of_leads (same id live).1 walk

/-- Only the lists of live nodes matter. -/
theorem congr (shape : doc.HasShape kids) {kids' : NodeId → List NodeId}
    (same : ∀ id, doc.IsLive id → kids' id = kids id) : doc.HasShape kids' where
  root_live := shape.root_live
  root_top := shape.root_top
  forward live := by
    rw [same _ live]
    exact shape.forward live
  backward live := by
    rw [same _ live]
    exact shape.backward live
  child live member := by
    rw [same _ live] at member
    exact shape.child live member
  listed live above := by
    obtain ⟨liveP, member⟩ := shape.listed live above
    exact ⟨liveP, same _ liveP ▸ member⟩
  alone := shape.alone
  grounded := shape.grounded
  unused_top := shape.unused_top
  free_nodup := shape.free_nodup
  free_pos := shape.free_pos
  free_iff := shape.free_iff

end HasShape

/-- All links of a document are in step: it has a shape, and then the lists of children that it
shows are that shape. -/
def WellLinked (doc : Document) : Prop := doc.HasShape doc.children

theorem HasShape.wellLinked {doc : Document} {kids : NodeId → List NodeId}
    (shape : doc.HasShape kids) : doc.WellLinked :=
  shape.congr fun _ live => shape.children_eq live

theorem wellLinked_empty : empty.WellLinked := hasShape_empty.wellLinked

end Markup.Document
