import Markup.Document.Parse
import Markup.Proofs.Store.Preorder

/-!
# Growing documents

Documents are built by creating nodes and placing them last. A node placed that way changes no tree
but those it becomes part of, so that the trees that were built stay what they are.
-/

namespace Markup.Document

variable {doc doc' doc'' : Document} {id parent : NodeId} {kind : NodeKind}

/-! ## One more child -/

/-- A document with a new last child below a node. -/
structure Extended (doc doc' : Document) (parent id : NodeId) (kind : NodeKind) : Prop where
  linked : doc'.WellLinked
  fresh : ¬ doc.IsLive id
  live_iff : ∀ other, doc'.IsLive other ↔ other = id ∨ doc.IsLive other
  kind_new : doc'.kind id = kind
  kind_kept : ∀ other, doc.IsLive other → doc'.kind other = doc.kind other
  parent_new : doc'.parent id = some parent
  parent_kept : ∀ other, doc.IsLive other → doc'.parent other = doc.parent other
  children_new : doc'.children id = []
  children_parent : doc'.children parent = doc.children parent ++ [id]
  children_kept : ∀ other, doc.IsLive other → other ≠ parent →
    doc'.children other = doc.children other

/-- Place a new node as the last child. -/
def grow (doc : Document) (parent : NodeId) (kind : NodeKind) : Document :=
  (doc.create kind).2.appendChild parent (doc.create kind).1

theorem extended_grow (linked : doc.WellLinked) (live : doc.IsLive parent) (kind : NodeKind) :
    Extended doc (doc.grow parent kind) parent (doc.create kind).1 kind := by
  have made := created kind linked
  have shape := HasShape.create linked made
  have liveP := made.live_of_live live
  have distinct := made.ne_of_live live
  have outside := made.not_mem_ancestors linked live
  have placeable := (made.ne_of_live linked.root_live).symm
  have placed := inserted_appendChild shape liveP made.live made.parent_eq distinct.symm
  have shape' := shape.appendChild liveP made.live made.parent_eq placeable outside
  have shown : ∀ {other}, (doc.grow parent kind).IsLive other →
      (doc.grow parent kind).children other =
        Function.update (Function.update doc.children (doc.create kind).1 []) parent
          (Function.update doc.children (doc.create kind).1 [] parent ++ [(doc.create kind).1])
          other := fun live => shape'.children_eq live
  have liveIff : ∀ other, (doc.grow parent kind).IsLive other ↔
      other = (doc.create kind).1 ∨ doc.IsLive other := fun other => by
    rw [grow, placed.use.live_iff, made.live_iff]
  exact {
    linked := shape'.wellLinked
    fresh := made.fresh
    live_iff := liveIff
    kind_new := by rw [grow, kind_appendChild, made.kind_eq]
    kind_kept := fun other live => by rw [grow, kind_appendChild, made.kind_kept live]
    parent_new := by rw [grow, placed.parent_eq _ made.live, if_pos rfl]
    parent_kept := fun other live => by
      rw [grow, placed.parent_eq _ (made.live_of_live live), if_neg (made.ne_of_live live),
        made.parent_kept live]
    children_new := by
      rw [shown ((liveIff _).mpr (.inl rfl)), Function.update_of_ne distinct.symm,
        Function.update_self]
    children_parent := by
      rw [shown ((liveIff _).mpr (.inr live)), Function.update_self, Function.update_of_ne distinct]
    children_kept := fun other live other' => by
      rw [shown ((liveIff _).mpr (.inr live)), Function.update_of_ne other',
        Function.update_of_ne (made.ne_of_live live)] }

namespace Extended

variable {other : NodeId}

theorem ancestors_kept (more : Extended doc doc' parent id kind) (linked : doc.WellLinked)
    (live : doc.IsLive other) : doc'.ancestors other = doc.ancestors other := by
  refine HasShape.ancestors_congr linked more.linked ?_ live
  intro each liveE
  exact ⟨(more.live_iff each).mpr (.inr liveE), more.parent_kept each liveE⟩

theorem ancestors_new (more : Extended doc doc' parent id kind) (linked : doc.WellLinked)
    (live : doc.IsLive parent) : doc'.ancestors id = id :: doc.ancestors parent := by
  have live' : doc'.IsLive id := (more.live_iff id).mpr (.inl rfl)
  rw [HasShape.ancestors_of_parent more.linked live' more.parent_new,
    more.ancestors_kept linked live]

end Extended

/-! ## Trees that stay -/

/-- A tree is settled by what its nodes are and by their children. -/
theorem tree_congr (linked : doc.WellLinked) (linked' : doc'.WellLinked) (live : doc.IsLive id)
    (kept : ∀ other ∈ doc.preorder id, doc'.IsLive other ∧ doc'.kind other = doc.kind other ∧
      doc'.children other = doc.children other) : doc'.tree id = doc.tree id := by
  refine linked.induction (motive := fun id => (∀ other ∈ doc.preorder id, doc'.IsLive other ∧
    doc'.kind other = doc.kind other ∧ doc'.children other = doc.children other) →
      doc'.tree id = doc.tree id) ?_ id live kept
  intro id live ih kept
  rw [linked.preorder_eq live] at kept
  obtain ⟨live', sameKind, sameChildren⟩ := kept id List.mem_cons_self
  rw [linked.tree_eq live, linked'.tree_eq live', sameKind, sameChildren]
  congr 1
  refine List.map_congr_left fun child member => ih child member fun other inner => ?_
  exact kept other (List.mem_cons_of_mem _ (List.mem_flatMap.mpr ⟨child, member, inner⟩))

/-- A document with more children below a node, and nothing else. -/
structure Grown (doc doc' : Document) (parent : NodeId) (trees : List Tree) : Prop where
  linked : doc'.WellLinked
  live : ∀ other, doc.IsLive other → doc'.IsLive other
  kind_kept : ∀ other, doc.IsLive other → doc'.kind other = doc.kind other
  parent_kept : ∀ other, doc.IsLive other → doc'.parent other = doc.parent other
  children_kept : ∀ other, doc.IsLive other → other ≠ parent →
    doc'.children other = doc.children other
  added : ∃ new, doc'.children parent = doc.children parent ++ new ∧ new.map doc'.tree = trees

namespace Grown

variable {trees trees' : List Tree}

theorem refl (linked : doc.WellLinked) : Grown doc doc parent [] where
  linked := linked
  live _ live := live
  kind_kept _ _ := rfl
  parent_kept _ _ := rfl
  children_kept _ _ _ := rfl
  added := ⟨[], by simp⟩

/-- The tree of a child stays as it is while its parent gets more children. -/
theorem tree_child (linked : doc.WellLinked) (live : doc.IsLive parent)
    (grown : Grown doc doc' parent trees) (member : id ∈ doc.children parent) :
    doc'.tree id = doc.tree id := by
  have liveC := linked.live_of_mem_children live member
  apply tree_congr linked grown.linked liveC
  intro other inner
  have liveO := linked.live_of_mem_preorder liveC inner
  have above := ((linked.mem_preorder_iff liveC).mp inner).2
  refine ⟨grown.live other liveO, grown.kind_kept other liveO,
    grown.children_kept other liveO ?_⟩
  rintro rfl
  exact linked.ne_of_above live member above rfl

theorem trans (live : doc.IsLive parent) (first : Grown doc doc' parent trees)
    (second : Grown doc' doc'' parent trees') : Grown doc doc'' parent (trees ++ trees') where
  linked := second.linked
  live other live := second.live other (first.live other live)
  kind_kept other live :=
    (second.kind_kept other (first.live other live)).trans (first.kind_kept other live)
  parent_kept other live :=
    (second.parent_kept other (first.live other live)).trans (first.parent_kept other live)
  children_kept other live other' :=
    (second.children_kept other (first.live other live) other').trans
      (first.children_kept other live other')
  added := by
    obtain ⟨new, children, built⟩ := first.added
    obtain ⟨new', children', built'⟩ := second.added
    refine ⟨new ++ new', by rw [children', children, List.append_assoc], ?_⟩
    rw [List.map_append, built', ← built]
    congr 1
    apply List.map_congr_left
    intro id member
    exact tree_child first.linked (first.live parent live) second (by simp [children, member])

/-- A new child together with what grows below it. -/
theorem of_extended (live : doc.IsLive parent) (outer : Extended doc doc' parent id kind)
    (inner : Grown doc' doc'' id trees) : Grown doc doc'' parent [.node kind trees] where
  linked := inner.linked
  live other live := inner.live other ((outer.live_iff other).mpr (.inr live))
  kind_kept other live :=
    (inner.kind_kept other ((outer.live_iff other).mpr (.inr live))).trans
      (outer.kind_kept other live)
  parent_kept other live :=
    (inner.parent_kept other ((outer.live_iff other).mpr (.inr live))).trans
      (outer.parent_kept other live)
  children_kept other live other' := by
    have distinct : other ≠ id := fun same => outer.fresh (same ▸ live)
    rw [inner.children_kept other ((outer.live_iff other).mpr (.inr live)) distinct,
      outer.children_kept other live other']
  added := by
    have distinct : parent ≠ id := fun same => outer.fresh (same ▸ live)
    have liveC := (outer.live_iff id).mpr (.inl rfl)
    obtain ⟨new, children, built⟩ := inner.added
    rw [outer.children_new, List.nil_append] at children
    refine ⟨[id], ?_, ?_⟩
    · rw [inner.children_kept parent ((outer.live_iff parent).mpr (.inr live)) distinct,
        outer.children_parent]
    · rw [List.map_singleton, inner.linked.tree_eq (inner.live id liveC),
        inner.kind_kept id liveC, outer.kind_new, children, built]

end Grown

end Markup.Document
