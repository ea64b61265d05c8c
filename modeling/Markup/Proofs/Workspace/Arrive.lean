import Markup.Proofs.Workspace.Insert

/-!
# Nodes that arrive

Whether a node is moved or copied, it first hangs nowhere, beside what there is of the tree of the
document without it. Then it is placed below its new parent. Only what stands below the node is new
in the tree afterwards, and that is the tree that was taken.
-/

namespace Markup.Document

variable {doc doc' aside : Document} {host node other : NodeId} {tree : Tree}

/-! ## Beside the tree -/

/-- If what is part of one tree hangs in another one as well, the way up is the same. -/
theorem WellLinked.ancestors_eq_of_attached (linked : doc.WellLinked) (linked' : doc'.WellLinked)
    (same : ∀ each, doc'.isAttached each = true →
      doc.IsLive each ∧ doc'.parent each = doc.parent each)
    (attached : doc'.isAttached other = true) :
    doc'.ancestors other = doc.ancestors other := by
  have walk := HasShape.leads_ancestors linked' (linked'.live_of_isAttached attached)
  refine (HasShape.ancestors_eq_of_leads linked (same other attached).1 ?_).symm
  exact walk.congr fun each above => (same each (linked'.isAttached_above attached above)).2.symm

/-- A document with a node that hangs nowhere, beside nothing but what was part of the tree of
another document. -/
structure Loosened (doc aside : Document) (node : NodeId) (tree : Tree) : Prop where
  linked : aside.WellLinked
  live : aside.IsLive node
  orphan : aside.parent node = none
  distinct : node ≠ root
  tree_eq : aside.tree node = tree
  live_before : ∀ other, aside.isAttached other = true → doc.IsLive other
  kind_eq : ∀ other, aside.isAttached other = true → aside.kind other = doc.kind other
  parent_eq : ∀ other, aside.isAttached other = true → aside.parent other = doc.parent other
  fewer : ∀ other, aside.isAttached other = true → aside.children other ⊆ doc.children other

namespace Loosened

theorem ancestors_eq (loosened : Loosened doc aside node tree) (linked : doc.WellLinked)
    (attached : aside.isAttached other = true) : aside.ancestors other = doc.ancestors other :=
  linked.ancestors_eq_of_attached loosened.linked
    (fun each attached => ⟨loosened.live_before each attached, loosened.parent_eq each attached⟩)
    attached

/-- The node is not part of the tree. -/
theorem not_isAttached (loosened : Loosened doc aside node tree) :
    aside.isAttached node ≠ true := by
  intro attached
  have reached := (loosened.linked.isAttached_iff.mp attached).2
  rw [HasShape.ancestors_of_top loosened.linked loosened.live loosened.orphan] at reached
  exact loosened.distinct (List.mem_singleton.mp reached).symm

theorem not_mem_ancestors (loosened : Loosened doc aside node tree)
    (attached : aside.isAttached other = true) : node ∉ aside.ancestors other :=
  fun above => loosened.not_isAttached (loosened.linked.isAttached_above attached above)

end Loosened

theorem WellLinked.children_detach (linked : doc.WellLinked) (live : doc.IsLive node)
    (liveO : doc.IsLive other) : (doc.detach node).children other ⊆ doc.children other ∧
      (doc.parent node ≠ some other → (doc.detach node).children other = doc.children other) := by
  cases above : doc.parent node with
  | none => simp [Document.detach, above]
  | some parent =>
    obtain ⟨liveP, member⟩ := linked.listed live above
    obtain ⟨before, after, split⟩ := List.append_of_mem member
    have taken := erased_detach linked liveP split
    rw [HasShape.children_eq (HasShape.erase linked liveP split taken)
      (taken.use.live_iff.mpr liveO)]
    by_cases same : other = parent
    · subst same
      rw [Function.update_self, split]
      refine ⟨fun each listed => ?_, fun apart => absurd rfl apart⟩
      simp only [List.mem_append, List.mem_cons] at listed ⊢
      tauto
    · rw [Function.update_of_ne same]
      exact ⟨List.Subset.refl _, fun _ => rfl⟩

/-- What does not stand below a node stays in the tree when the node is taken out. -/
theorem WellLinked.isAttached_detach (linked : doc.WellLinked) (live : doc.IsLive node)
    (attached : doc.isAttached other = true) (outside : node ∉ doc.ancestors other) :
    (doc.detach node).isAttached other = true := by
  obtain ⟨liveO, reached⟩ := linked.isAttached_iff.mp attached
  have use := linked.sameUse_detach live
  have walk := HasShape.leads_ancestors linked liveO
  have path : (doc.detach node).ancestors other = doc.ancestors other := by
    refine HasShape.ancestors_eq_of_leads (linked.detach live) (use.live_iff.mpr liveO)
      (walk.congr fun each above => linked.parent_detach live ?_ ?_)
    · exact HasShape.live_of_mem_ancestors linked liveO each above
    · rintro rfl
      exact outside above
  rw [(linked.detach live).isAttached_iff, path]
  exact ⟨use.live_iff.mpr liveO, reached⟩

/-- A node that is taken out keeps its tree. -/
theorem loosened_detach (linked : doc.WellLinked) (live : doc.IsLive node) (distinct : node ≠ root) :
    Loosened doc (doc.detach node) node (doc.tree node) := by
  have linked' := linked.detach live
  have use := linked.sameUse_detach live
  have orphan := linked.top_detach live
  have apart : ∀ {other}, (doc.detach node).isAttached other = true → other ≠ node := by
    rintro other attached rfl
    have reached := (linked'.isAttached_iff.mp attached).2
    rw [HasShape.ancestors_of_top linked' (use.live_iff.mpr live) orphan] at reached
    exact distinct (List.mem_singleton.mp reached).symm
  have before : ∀ other, (doc.detach node).isAttached other = true → doc.IsLive other :=
    fun other attached => use.live_iff.mp (linked'.live_of_isAttached attached)
  refine ⟨linked', use.live_iff.mpr live, orphan, distinct, ?_, before, fun _ _ => kind_detach, ?_,
    ?_⟩
  · apply tree_congr linked linked' live
    intro other inner
    obtain ⟨liveO, above⟩ := (linked.mem_preorder_iff live).mp inner
    refine ⟨use.live_iff.mpr liveO, kind_detach, (linked.children_detach live liveO).2 ?_⟩
    intro hung
    exact linked.ne_of_above liveO (linked.listed live hung).2 above rfl
  · exact fun other attached => linked.parent_detach live (before other attached) (apart attached)
  · exact fun other attached => (linked.children_detach live (before other attached)).1

theorem Grafted.isAttached {copy : NodeId} (grafted : Grafted doc aside copy tree)
    (linked : doc.WellLinked) (attached : doc.isAttached other = true) :
    aside.isAttached other = true := by
  obtain ⟨live, reached⟩ := linked.isAttached_iff.mp attached
  rw [grafted.linked.isAttached_iff, grafted.ancestors_kept linked live]
  exact ⟨grafted.live other live, reached⟩

/-- A copy hangs nowhere, beside all that there was. -/
theorem loosened_graft (linked : doc.WellLinked) (tree : Tree) :
    Loosened doc (doc.graft tree).2 (doc.graft tree).1 tree := by
  have grafted := grafted_graft linked tree
  generalize (doc.graft tree).1 = copy at *
  generalize (doc.graft tree).2 = aside at *
  have old : ∀ other, aside.isAttached other = true → doc.IsLive other := by
    intro other attached
    obtain ⟨live, reached⟩ := grafted.linked.isAttached_iff.mp attached
    refine grafted.linked.ascent (motive := fun other =>
      root ∈ aside.ancestors other → doc.IsLive other) ?_ ?_ other live reached
    · intro other live top reached
      rw [HasShape.ancestors_of_top grafted.linked live top] at reached
      exact List.mem_singleton.mp reached ▸ linked.root_live
    · intro other parent live liveP above ih reached
      rw [HasShape.ancestors_of_parent grafted.linked live above] at reached
      rcases List.mem_cons.mp reached with rfl | reached
      · exact linked.root_live
      · have listed := (grafted.linked.listed live above).2
        rw [grafted.children_kept parent (ih reached)] at listed
        exact linked.live_of_mem_children (ih reached) listed
  exact {
    linked := grafted.linked
    live := grafted.live_new
    orphan := grafted.orphan
    distinct := fun same => grafted.fresh (same ▸ linked.root_live)
    tree_eq := grafted.tree_new
    live_before := old
    kind_eq := fun other attached => grafted.kind_kept other (old other attached)
    parent_eq := fun other attached => grafted.parent_kept other (old other attached)
    fewer := fun other attached => by
      rw [grafted.children_kept other (old other attached)]
      exact List.Subset.refl _ }

/-! ## Below the new parent -/

/-- A document in whose tree a node arrived with everything below it. -/
structure Arrived (doc doc' : Document) (host node : NodeId) (tree : Tree) : Prop where
  linked : doc'.WellLinked
  attached : doc'.isAttached node = true
  parent_eq : doc'.parent node = some host
  tree_eq : doc'.tree node = tree
  attached_before : ∀ other, doc'.isAttached other = true → node ∉ doc'.ancestors other →
    doc.isAttached other = true
  kind_eq : ∀ other, doc'.isAttached other = true → node ∉ doc'.ancestors other →
    doc'.kind other = doc.kind other
  ancestors_eq : ∀ other, doc'.isAttached other = true → node ∉ doc'.ancestors other →
    doc'.ancestors other = doc.ancestors other
  fewer : ∀ other, doc'.isAttached other = true → node ∉ doc'.ancestors other → other ≠ host →
    doc'.children other ⊆ doc.children other

theorem Loosened.arrived (loosened : Loosened doc aside node tree) (linked : doc.WellLinked)
    (placed : Placed aside doc' host node) (attached : aside.isAttached host = true) :
    Arrived doc doc' host node tree := by
  have linked' := loosened.linked
  have liveH := linked'.live_of_isAttached attached
  -- Elsewhere than below the node the way up is what it was.
  have path : ∀ other, aside.IsLive other → node ∉ doc'.ancestors other →
      aside.ancestors other = doc'.ancestors other := by
    intro other live outside
    have walk := HasShape.leads_ancestors placed.linked (placed.use.live_iff.mpr live)
    refine HasShape.ancestors_eq_of_leads linked' live (walk.congr fun each above => ?_)
    have liveE :=
      HasShape.live_of_mem_ancestors placed.linked (placed.use.live_iff.mpr live) each above
    refine (placed.parent_kept each (placed.use.live_iff.mp liveE) ?_).symm
    rintro rfl
    exact outside above
  have before : ∀ other, doc'.isAttached other = true → node ∉ doc'.ancestors other →
      aside.isAttached other = true := by
    intro other attached outside
    obtain ⟨live, reached⟩ := placed.linked.isAttached_iff.mp attached
    have live := placed.use.live_iff.mp live
    rw [linked'.isAttached_iff, path other live outside]
    exact ⟨live, reached⟩
  have node_live := placed.use.live_iff.mpr loosened.live
  have listed := (placed.linked.listed node_live placed.parent_new).2
  have outside : node ∉ doc'.ancestors host := fun above =>
    placed.linked.ne_of_above (placed.use.live_iff.mpr liveH) listed above rfl
  have attached' : doc'.isAttached node = true := by
    rw [placed.linked.isAttached_iff, HasShape.ancestors_of_parent placed.linked node_live
      placed.parent_new, ← path host liveH outside]
    exact ⟨node_live, List.mem_cons_of_mem _ (linked'.isAttached_iff.mp attached).2⟩
  exact {
    linked := placed.linked
    attached := attached'
    parent_eq := placed.parent_new
    tree_eq := (placed.tree_eq linked' loosened.live (loosened.not_mem_ancestors attached)).trans
      loosened.tree_eq
    attached_before := fun other attached outside => by
      have attachedA := before other attached outside
      rw [linked.isAttached_iff, ← loosened.ancestors_eq linked attachedA]
      exact ⟨loosened.live_before other attachedA, (linked'.isAttached_iff.mp attachedA).2⟩
    kind_eq := fun other attached outside =>
      (placed.kind_eq other).trans (loosened.kind_eq other (before other attached outside))
    ancestors_eq := fun other attached outside => by
      have attachedA := before other attached outside
      rw [← path other (linked'.live_of_isAttached attachedA) outside,
        loosened.ancestors_eq linked attachedA]
    fewer := fun other attached outside apart => by
      have attachedA := before other attached outside
      rw [placed.children_kept other (linked'.live_of_isAttached attachedA) apart]
      exact loosened.fewer other attachedA }

namespace Arrived

variable (arrived : Arrived doc doc' host node tree)
include arrived

theorem attached_host : doc'.isAttached host = true :=
  arrived.linked.isAttached_parent arrived.attached arrived.parent_eq

/-- The new parent does not stand below the node. -/
theorem not_mem_ancestors_host : node ∉ doc'.ancestors host := by
  have live := arrived.linked.live_of_isAttached arrived.attached
  obtain ⟨liveH, listed⟩ := arrived.linked.listed live arrived.parent_eq
  exact fun above => arrived.linked.ne_of_above liveH listed above rfl

/-- What stands above something that was there was there. -/
theorem not_mem_ancestors_above (attached : doc'.isAttached other = true)
    (outside : node ∉ doc'.ancestors other) {above : NodeId} (path : above ∈ doc'.ancestors other) :
    node ∉ doc'.ancestors above := fun inner =>
  outside (arrived.linked.ancestors_subset (arrived.linked.live_of_isAttached attached) path inner)

theorem declarations_eq (attached : doc'.isAttached other = true)
    (outside : node ∉ doc'.ancestors other) : doc'.declarations other = doc.declarations other := by
  rw [Document.declarations_eq, Document.declarations_eq,
    ← arrived.ancestors_eq other attached outside]
  refine List.flatMap_congr fun above path => ?_
  rw [attributes, attributes, arrived.kind_eq above (arrived.linked.isAttached_above attached path)
    (arrived.not_mem_ancestors_above attached outside path)]

end Arrived

/-- What is moved arrives below its new parent, and then what it needs is declared on it. -/
theorem exists_arrived_of_move {target : NodeId} {placement : Placement} (linked : doc.WellLinked)
    (attached : doc.isAttached target = true) (moved : doc.move target node placement = .ok doc') :
    ∃ host middle, doc.isAttached node = true ∧ doc.host? target placement = some host ∧
      (doc.kind host).isElement = true ∧ Arrived doc middle host node (doc.tree node) ∧
      doc' = middle.settle node (doc.inheritedBindings node) := by
  obtain ⟨live, reached⟩ := linked.isAttached_iff.mp attached
  obtain ⟨host, middle, attachedN, outside, hosted, isElement, placed, rfl⟩ :=
    exists_of_move linked live reached moved
  have liveN := linked.live_of_isAttached attachedN
  have distinct : node ≠ root := by
    rintro rfl
    exact outside reached
  have path := linked.mem_ancestors_host live hosted
  have attachedH : (doc.detach node).isAttached host = true :=
    linked.isAttached_detach liveN (linked.isAttached_above attached path) fun inner =>
      outside (linked.ancestors_subset live path inner)
  have arrived := (loosened_detach linked liveN distinct).arrived linked placed attachedH
  exact ⟨host, middle, attachedN, hosted, isElement, arrived, rfl⟩

/-- The copy of a tree arrives below its new parent, and then what it needs is declared on it. -/
theorem exists_arrived_of_copyIn {target copy : NodeId} {placement : Placement}
    {needed : List (Option String × String)} (linked : doc.WellLinked)
    (attached : doc.isAttached target = true)
    (copied : doc.copyIn target tree needed placement = .ok (copy, doc')) :
    ∃ host middle, doc.host? target placement = some host ∧ (doc.kind host).isElement = true ∧
      Arrived doc middle host copy tree ∧ doc' = middle.settle copy needed := by
  have live := linked.live_of_isAttached attached
  obtain ⟨host, middle, hosted, isElement, rfl, placed, rfl⟩ := exists_of_copyIn linked live copied
  have attachedH := linked.isAttached_above attached (linked.mem_ancestors_host live hosted)
  have arrived := (loosened_graft linked tree).arrived linked placed
    ((grafted_graft linked tree).isAttached linked attachedH)
  exact ⟨host, middle, hosted, isElement, arrived, rfl⟩

end Markup.Document
