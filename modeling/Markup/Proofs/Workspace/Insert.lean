import Markup.Proofs.Store.Graft
import Markup.Proofs.Workspace.Change

/-!
# Insertions

A node is moved by taking it out of its place and placing it again, and copied by copying its tree
in beside everything else and placing the copy. The element that it gets below is the target itself
or the parent of the target. Only then are the declarations added that the node relies on.
-/

namespace Markup.Document

variable {doc doc' : Document} {target node host other : NodeId} {placement : Placement}
  {tree : Tree} {needed : List (Option String × String)}

/-! ## Placing -/

/-- A document in which a node that hung nowhere was placed below another one. -/
structure Placed (doc doc' : Document) (host node : NodeId) : Prop where
  linked : doc'.WellLinked
  use : SameUse doc doc'
  kind_eq : ∀ other, doc'.kind other = doc.kind other
  parent_new : doc'.parent node = some host
  parent_kept : ∀ other, doc.IsLive other → other ≠ node → doc'.parent other = doc.parent other
  children_kept : ∀ other, doc.IsLive other → other ≠ host →
    doc'.children other = doc.children other

/-- The links after a node was put among the children of another one are those of a placed node. -/
theorem placed_of_inserted {before after list : List NodeId} (liveN : doc.IsLive node)
    (inserted : Inserted doc doc' host node before after)
    (shape : doc'.HasShape (Function.update doc.children host list))
    (kinds : ∀ other, doc'.kind other = doc.kind other) : Placed doc doc' host node where
  linked := shape.wellLinked
  use := inserted.use
  kind_eq := kinds
  parent_new := by rw [inserted.parent_eq node liveN, if_pos rfl]
  parent_kept other live apart := by rw [inserted.parent_eq other live, if_neg apart]
  children_kept other live apart := by
    rw [shape.children_eq (inserted.use.live_iff.mpr live), Function.update_of_ne apart]

section

variable (linked : doc.WellLinked) (liveT : doc.IsLive target) (liveN : doc.IsLive node)
  (orphan : doc.parent node = none) (placeable : node ≠ root)
  (outside : node ∉ doc.ancestors target)
include linked liveT liveN orphan placeable outside

theorem placed_appendChild : Placed doc (doc.appendChild target node) target node := by
  have distinct : node ≠ target := fun same =>
    outside (same.symm ▸ HasShape.mem_ancestors_self linked liveT)
  exact placed_of_inserted liveN (inserted_appendChild linked liveT liveN orphan distinct)
    (HasShape.appendChild linked liveT liveN orphan placeable outside) fun _ => kind_appendChild

theorem placed_insertBefore (above : doc.parent target = some host) :
    Placed doc (doc.insertBefore target node) host node := by
  obtain ⟨liveH, member⟩ := linked.listed liveT above
  obtain ⟨before, after, split⟩ := List.append_of_mem member
  have inserted := inserted_insertBefore linked liveH liveN orphan split
  rw [HasShape.ancestors_of_parent linked liveT above] at outside
  have shape := HasShape.insert linked liveH liveN orphan split inserted placeable
    fun inner => outside (List.mem_cons_of_mem _ inner)
  exact placed_of_inserted liveN inserted shape fun _ => kind_insertBefore

theorem placed_insertAfter (above : doc.parent target = some host) :
    Placed doc (doc.insertAfter target node) host node := by
  obtain ⟨liveH, member⟩ := linked.listed liveT above
  have path := HasShape.ancestors_of_parent linked liveT above
  have outsideH : node ∉ doc.ancestors host := fun inner =>
    outside (path ▸ List.mem_cons_of_mem _ inner)
  cases later : doc.nextSibling target with
  | none =>
    simp only [insertAfter, later, above]
    exact placed_appendChild linked liveH liveN orphan placeable outsideH
  | some next =>
    obtain ⟨before, after, split⟩ := List.append_of_mem member
    have listed : next ∈ doc.children host := by
      rw [(HasShape.siblings_eq linked liveH split).1] at later
      simp [split, List.mem_of_head? later]
    obtain ⟨liveX, aboveX⟩ := linked.child liveH listed
    simp only [insertAfter, later]
    refine placed_insertBefore linked liveX liveN orphan placeable ?_ aboveX
    rw [HasShape.ancestors_of_parent linked liveX aboveX]
    refine fun inner => (List.mem_cons.mp inner).elim (fun same => ?_) outsideH
    rw [← same, orphan] at aboveX
    cases aboveX

end

/-- What is placed keeps its tree. -/
theorem Placed.tree_eq (placed : Placed doc doc' host node) (linked : doc.WellLinked)
    (live : doc.IsLive node) (outside : node ∉ doc.ancestors host) :
    doc'.tree node = doc.tree node := by
  apply tree_congr linked placed.linked live
  intro other inner
  obtain ⟨liveO, above⟩ := (linked.mem_preorder_iff live).mp inner
  refine ⟨placed.use.live_iff.mpr liveO, placed.kind_eq other, placed.children_kept other liveO ?_⟩
  rintro rfl
  exact outside above

/-- The node that something gets below when it is placed at a target. -/
def host? (doc : Document) (target : NodeId) : Placement → Option NodeId
  | .lastChild => some target
  | .after | .before => doc.parent target

/-- Something can be placed where it gets below an element. -/
theorem demandPlace_eq_ok {passed : Unit} : doc.demandPlace target placement = .ok passed ↔
    ∃ host, doc.host? target placement = some host ∧ (doc.kind host).isElement = true := by
  cases placement with
  | lastChild =>
    rw [demandPlace, demandElement, demand_eq_ok]
    exact ⟨fun isElement => ⟨target, rfl, isElement⟩, fun ⟨_, same, isElement⟩ =>
      Option.some.inj same ▸ isElement⟩
  | after | before => rw [demandPlace, demand_eq_ok, Option.any_eq_true, host?]

theorem WellLinked.mem_ancestors_host (linked : doc.WellLinked) (liveT : doc.IsLive target)
    (hosted : doc.host? target placement = some host) : host ∈ doc.ancestors target := by
  cases placement with
  | lastChild =>
    obtain rfl := Option.some.inj hosted
    exact HasShape.mem_ancestors_self linked liveT
  | after | before =>
    rw [HasShape.ancestors_of_parent linked liveT hosted]
    exact List.mem_cons_of_mem _
      (HasShape.mem_ancestors_self linked (linked.listed liveT hosted).1)

/-- A node that hangs nowhere, and a place for it that is not below the node itself. -/
structure Placeable (doc : Document) (target host node : NodeId) (placement : Placement) : Prop where
  linked : doc.WellLinked
  live_target : doc.IsLive target
  live_node : doc.IsLive node
  orphan : doc.parent node = none
  distinct : node ≠ root
  outside : node ∉ doc.ancestors target
  hosted : doc.host? target placement = some host

theorem Placeable.placed (placeable : Placeable doc target host node placement) :
    Placed doc (doc.place target node placement) host node := by
  obtain ⟨linked, liveT, liveN, orphan, distinct, outside, hosted⟩ := placeable
  cases placement with
  | lastChild =>
    obtain rfl := Option.some.inj hosted
    exact placed_appendChild linked liveT liveN orphan distinct outside
  | after => exact placed_insertAfter linked liveT liveN orphan distinct outside hosted
  | before => exact placed_insertBefore linked liveT liveN orphan distinct outside hosted

/-! ## Moving and copying -/

/-- A node that is taken out can be placed where it could be moved. -/
theorem placeable_detach (linked : doc.WellLinked) (liveT : doc.IsLive target)
    (reached : root ∈ doc.ancestors target) (liveN : doc.IsLive node)
    (outside : node ∉ doc.ancestors target) (hosted : doc.host? target placement = some host) :
    Placeable (doc.detach node) target host node placement := by
  have use := linked.sameUse_detach liveN
  have apart : target ≠ node := fun same =>
    outside (same ▸ HasShape.mem_ancestors_self linked liveT)
  refine ⟨linked.detach liveN, use.live_iff.mpr liveT, use.live_iff.mpr liveN,
    linked.top_detach liveN, ?_, ?_, ?_⟩
  · rintro rfl
    exact outside reached
  · rwa [linked.mem_ancestors_detach liveN liveT]
  · cases placement with
    | lastChild => exact hosted
    | after | before => exact (linked.parent_detach liveN liveT apart).trans hosted

/-- A node can be moved to a place below an element and not below itself. -/
theorem move_eq_ok : doc.move target node placement = .ok doc' ↔
    (doc.isAttached node = true ∧ (∃ host, doc.host? target placement = some host ∧
      (doc.kind host).isElement = true) ∧ node ∉ doc.ancestors target) ∧
    doc' = ((doc.detach node).place target node placement).settle node
      (doc.inheritedBindings node) := by
  have outside : (!doc.isAncestorOrSelf node target) = true ↔ node ∉ doc.ancestors target := by
    simp [isAncestorOrSelf]
  constructor
  · intro moved
    obtain ⟨passed, checked, moved⟩ := bind_eq_ok.mp moved
    obtain ⟨passed', allowed, moved⟩ := bind_eq_ok.mp moved
    obtain ⟨passed'', apart, moved⟩ := bind_eq_ok.mp moved
    cases moved
    exact ⟨⟨of_demand checked, demandPlace_eq_ok.mp allowed, outside.mp (of_demand apart)⟩, rfl⟩
  · rintro ⟨⟨attached, allowed, apart⟩, rfl⟩
    refine bind_eq_ok.mpr ⟨(), demand_eq_ok.mpr attached, ?_⟩
    refine bind_eq_ok.mpr ⟨(), demandPlace_eq_ok.mpr allowed, ?_⟩
    exact bind_eq_ok.mpr ⟨(), demand_eq_ok.mpr (outside.mpr apart), rfl⟩

/-- What a move is made of. -/
theorem exists_of_move (linked : doc.WellLinked) (liveT : doc.IsLive target)
    (reached : root ∈ doc.ancestors target) (moved : doc.move target node placement = .ok doc') :
    ∃ host middle, doc.isAttached node = true ∧ node ∉ doc.ancestors target ∧
      doc.host? target placement = some host ∧ (doc.kind host).isElement = true ∧
      Placed (doc.detach node) middle host node ∧
      doc' = middle.settle node (doc.inheritedBindings node) := by
  obtain ⟨⟨attached, ⟨host, hosted, isElement⟩, outside⟩, rfl⟩ := move_eq_ok.mp moved
  have placeable :=
    placeable_detach linked liveT reached (linked.live_of_isAttached attached) outside hosted
  exact ⟨host, _, attached, outside, hosted, isElement, placeable.placed, rfl⟩

theorem Grafted.ancestors_kept {copy : NodeId} (grafted : Grafted doc doc' copy tree)
    (linked : doc.WellLinked) (live : doc.IsLive other) :
    doc'.ancestors other = doc.ancestors other := by
  refine HasShape.ancestors_congr linked grafted.linked ?_ live
  exact fun each live => ⟨grafted.live each live, grafted.parent_kept each live⟩

/-- A copy can be placed where there was a place before. -/
theorem placeable_graft (linked : doc.WellLinked) (liveT : doc.IsLive target) (tree : Tree)
    (hosted : doc.host? target placement = some host) :
    Placeable (doc.graft tree).2 target host (doc.graft tree).1 placement := by
  have grafted := grafted_graft linked tree
  refine ⟨grafted.linked, grafted.live target liveT, grafted.live_new, grafted.orphan, ?_, ?_, ?_⟩
  · exact fun same => grafted.fresh (same ▸ linked.root_live)
  · rw [grafted.ancestors_kept linked liveT]
    exact fun inner => grafted.fresh (HasShape.live_of_mem_ancestors linked liveT _ inner)
  · cases placement with
    | lastChild => exact hosted
    | after | before => exact (grafted.parent_kept target liveT).trans hosted

/-- A tree can be copied to a place below an element. -/
theorem copyIn_eq_ok {result : NodeId × Document} :
    doc.copyIn target tree needed placement = .ok result ↔
    (∃ host, doc.host? target placement = some host ∧ (doc.kind host).isElement = true) ∧
      result = ((doc.graft tree).1,
        ((doc.graft tree).2.place target (doc.graft tree).1 placement).settle (doc.graft tree).1
          needed) := by
  constructor
  · intro copied
    obtain ⟨passed, allowed, copied⟩ := bind_eq_ok.mp copied
    cases copied
    exact ⟨demandPlace_eq_ok.mp allowed, rfl⟩
  · rintro ⟨allowed, rfl⟩
    exact bind_eq_ok.mpr ⟨(), demandPlace_eq_ok.mpr allowed, rfl⟩

/-- What copying in is made of. -/
theorem exists_of_copyIn (linked : doc.WellLinked) (liveT : doc.IsLive target) {copy : NodeId}
    (copied : doc.copyIn target tree needed placement = .ok (copy, doc')) :
    ∃ host middle, doc.host? target placement = some host ∧ (doc.kind host).isElement = true ∧
      copy = (doc.graft tree).1 ∧ Placed (doc.graft tree).2 middle host copy ∧
      doc' = middle.settle copy needed := by
  obtain ⟨⟨host, hosted, isElement⟩, same⟩ := copyIn_eq_ok.mp copied
  cases same
  exact ⟨host, _, hosted, isElement, rfl, (placeable_graft linked liveT tree hosted).placed, rfl⟩

end Markup.Document
