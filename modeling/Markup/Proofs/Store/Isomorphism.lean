import Mathlib.Data.Set.Function
import Markup.Proofs.Store.Preorder

/-!
# Isomorphic trees

Two documents can hold the same tree in different slots. What can be said of a tree by its nodes and
by how they hang together carries over from one to the other.
-/

namespace Markup.Document

variable {doc doc' : Document} {rename : NodeId → NodeId} {id other : NodeId}

/-- A renaming of the nodes of one tree as those of another one that keeps what they are and how
they hang together. Nothing is said of slots outside of the trees. -/
structure Isomorphism (doc doc' : Document) (rename : NodeId → NodeId) : Prop where
  linked : doc.WellLinked
  linked' : doc'.WellLinked
  bijective : Set.BijOn rename {id | doc.isAttached id = true} {id | doc'.isAttached id = true}
  kind_eq {id : NodeId} : doc.isAttached id = true → doc'.kind (rename id) = doc.kind id
  parent_eq {id : NodeId} : doc.isAttached id = true →
    doc'.parent (rename id) = (doc.parent id).map rename
  children_eq {id : NodeId} : doc.isAttached id = true →
    doc'.children (rename id) = (doc.children id).map rename

namespace Isomorphism

/-- It is enough to look at the nodes in document order. -/
theorem of_order (linked : doc.WellLinked) (linked' : doc'.WellLinked)
    (renamed : doc'.order = doc.order.map rename)
    (same : ∀ id ∈ doc.order, doc'.kind (rename id) = doc.kind id ∧
      doc'.parent (rename id) = (doc.parent id).map rename ∧
      doc'.children (rename id) = (doc.children id).map rename) :
    Isomorphism doc doc' rename where
  linked := linked
  linked' := linked'
  bijective := by
    have single : (doc.order.map rename).Nodup :=
      renamed ▸ linked'.order_eq ▸ linked'.preorder_nodup linked'.root_live
    refine ⟨fun id attached => ?_, fun id attached other attached' equal => ?_,
      fun id attached => ?_⟩
    · apply linked'.mem_order_iff.mp
      rw [renamed]
      exact List.mem_map_of_mem (linked.mem_order_iff.mpr attached)
    · exact List.inj_on_of_nodup_map single (linked.mem_order_iff.mpr attached)
        (linked.mem_order_iff.mpr attached') equal
    · have met := linked'.mem_order_iff.mpr attached
      rw [renamed] at met
      obtain ⟨id, listed, equal⟩ := List.mem_map.mp met
      exact ⟨id, linked.mem_order_iff.mp listed, equal⟩
  kind_eq attached := (same _ (linked.mem_order_iff.mpr attached)).1
  parent_eq attached := (same _ (linked.mem_order_iff.mpr attached)).2.1
  children_eq attached := (same _ (linked.mem_order_iff.mpr attached)).2.2

variable (iso : Isomorphism doc doc' rename)
include iso

theorem attached (attached : doc.isAttached id = true) : doc'.isAttached (rename id) = true :=
  iso.bijective.mapsTo attached

theorem eq_of_rename_eq (attached : doc.isAttached id = true)
    (attached' : doc.isAttached other = true) (same : rename id = rename other) : id = other :=
  iso.bijective.injOn attached attached' same

theorem live' (attached : doc.isAttached id = true) : doc'.IsLive (rename id) :=
  iso.linked'.live_of_isAttached (iso.attached attached)

/-- The document nodes are the only ones of the trees that hang nowhere. -/
theorem rename_root : rename root = root := by
  have attached := iso.linked.isAttached_root
  have top : doc'.parent (rename root) = none := by
    rw [iso.parent_eq attached, iso.linked.root_top, Option.map_none]
  have hangs := (iso.linked'.isAttached_iff.mp (iso.attached attached)).2
  rw [HasShape.ancestors_of_top iso.linked' (iso.live' attached) top] at hangs
  exact (List.mem_singleton.mp hangs).symm

theorem ancestors_eq (attached : doc.isAttached id = true) :
    doc'.ancestors (rename id) = (doc.ancestors id).map rename := by
  have linked := iso.linked
  refine linked.ascent (motive := fun id => doc.isAttached id = true →
    doc'.ancestors (rename id) = (doc.ancestors id).map rename) ?_ ?_ id
      (linked.live_of_isAttached attached) attached
  · intro id live top attached
    have top' : doc'.parent (rename id) = none := by rw [iso.parent_eq attached, top]; rfl
    rw [HasShape.ancestors_of_top linked live top,
      HasShape.ancestors_of_top iso.linked' (iso.live' attached) top', List.map_singleton]
  · intro id parent live liveP hung ih attached
    have hung' : doc'.parent (rename id) = some (rename parent) := by
      rw [iso.parent_eq attached, hung]; rfl
    rw [HasShape.ancestors_of_parent linked live hung,
      HasShape.ancestors_of_parent iso.linked' (iso.live' attached) hung', List.map_cons,
      ih (linked.isAttached_parent attached hung)]

theorem preorder_eq (attached : doc.isAttached id = true) :
    doc'.preorder (rename id) = (doc.preorder id).map rename := by
  have linked := iso.linked
  refine linked.induction (motive := fun id => doc.isAttached id = true →
    doc'.preorder (rename id) = (doc.preorder id).map rename) ?_ id
      (linked.live_of_isAttached attached) attached
  intro id live ih attached
  rw [linked.preorder_eq live, iso.linked'.preorder_eq (iso.live' attached),
    iso.children_eq attached, List.flatMap_map, List.map_cons, List.map_flatMap]
  congr 1
  exact List.flatMap_congr fun child member =>
    ih child member (linked.isAttached_child attached member)

theorem descendants_eq (attached : doc.isAttached id = true) :
    doc'.descendants (rename id) = (doc.descendants id).map rename := by
  have whole := iso.preorder_eq attached
  rw [iso.linked.preorder_eq_cons (iso.linked.live_of_isAttached attached),
    iso.linked'.preorder_eq_cons (iso.live' attached)] at whole
  exact (List.cons.inj whole).2

theorem order_eq : doc'.order = doc.order.map rename := by
  have whole := iso.preorder_eq iso.linked.isAttached_root
  rwa [iso.rename_root, ← iso.linked.order_eq, ← iso.linked'.order_eq] at whole

/-- Renamed nodes come in the same place of the document order. -/
theorem idxOf_order (attached : doc.isAttached id = true) :
    doc'.order.idxOf (rename id) = doc.order.idxOf id := by
  have met := iso.linked.mem_order_iff.mpr attached
  have single : doc'.order.Nodup :=
    iso.linked'.order_eq ▸ iso.linked'.preorder_nodup iso.linked'.root_live
  have inside : doc.order.idxOf id < doc'.order.length := by
    rw [iso.order_eq, List.length_map]
    exact List.idxOf_lt_length_iff.mpr met
  have found : doc'.order[doc.order.idxOf id] = rename id := by
    simp only [iso.order_eq, List.getElem_map, List.getElem_idxOf]
  rw [← found, single.idxOf_getElem]

theorem tree_eq (attached : doc.isAttached id = true) : doc'.tree (rename id) = doc.tree id := by
  have linked := iso.linked
  refine linked.induction (motive := fun id => doc.isAttached id = true →
    doc'.tree (rename id) = doc.tree id) ?_ id (linked.live_of_isAttached attached) attached
  intro id live ih attached
  rw [linked.tree_eq live, iso.linked'.tree_eq (iso.live' attached), iso.kind_eq attached,
    iso.children_eq attached, List.map_map]
  congr 1
  exact List.map_congr_left fun child member =>
    ih child member (linked.isAttached_child attached member)

end Isomorphism

end Markup.Document
