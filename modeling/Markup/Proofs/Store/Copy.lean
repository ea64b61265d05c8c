import Mathlib
import Markup.Proofs.Store.Graft
import Markup.Proofs.Store.Remove

/-!
# Copies between documents

A node of one document is copied into another with everything below it. A stack holds the nodes
whose children are still to be copied, each with its copy. The new nodes are the copy and what is
below it, whichever slots they take, and nothing that the document held before is touched.
-/

namespace Markup

/-- What a slot holds is settled by its parts. -/
theorem Slot.eq_of_parts {left right : Slot} (kind : left.kind = right.kind)
    (generation : left.generation = right.generation) (parent : left.parent = right.parent)
    (firstChild : left.firstChild = right.firstChild) (lastChild : left.lastChild = right.lastChild)
    (nextSibling : left.nextSibling = right.nextSibling)
    (prevSibling : left.prevSibling = right.prevSibling) (removed : left.removed = right.removed) :
    left = right := by
  cases left
  cases right
  cases kind
  cases generation
  cases parent
  cases firstChild
  cases lastChild
  cases nextSibling
  cases prevSibling
  cases removed
  rfl

namespace Document

variable {source doc doc' : Document} {id other parent copy original : NodeId} {tree : Tree}
  {trees : List Tree} {row work : List (NodeId × List Tree)} {stack : List (NodeId × NodeId)}

/-! ## What was there before -/

namespace Grafted

/-- A node that was there before keeps its siblings. -/
theorem siblings_kept (copied : Grafted doc doc' id tree) (linked : doc.WellLinked)
    (live : doc.IsLive other) : doc'.nextSibling other = doc.nextSibling other ∧
      doc'.prevSibling other = doc.prevSibling other := by
  have live' := copied.live other live
  have sameParent := copied.parent_kept other live
  cases above : doc.parent other with
  | none =>
    obtain ⟨noNext, noPrev⟩ := linked.alone live above
    obtain ⟨noNext', noPrev'⟩ := copied.linked.alone live' (sameParent.trans above)
    exact ⟨noNext'.trans noNext.symm, noPrev'.trans noPrev.symm⟩
  | some parent =>
    obtain ⟨liveP, listed⟩ := linked.listed live above
    obtain ⟨before, after, split⟩ := List.append_of_mem listed
    have split' := (copied.children_kept parent liveP).trans split
    obtain ⟨later, earlier⟩ := HasShape.siblings_eq linked liveP split
    obtain ⟨later', earlier'⟩ :=
      HasShape.siblings_eq copied.linked (copied.live parent liveP) split'
    exact ⟨later'.trans later.symm, earlier'.trans earlier.symm⟩

/-- The slot of a node that was there before holds what it held: the same node with the same links,
for the same time. -/
theorem slot_kept (copied : Grafted doc doc' id tree) (linked : doc.WellLinked)
    (live : doc.IsLive other) : doc'.slot other = doc.slot other := by
  have live' := copied.live other live
  have sameChildren := copied.children_kept other live
  obtain ⟨sameNext, samePrev⟩ := copied.siblings_kept linked live
  have sameFirst : doc'.firstChild other = doc.firstChild other := by
    rw [HasShape.firstChild_eq copied.linked live', HasShape.firstChild_eq linked live,
      sameChildren]
  have sameLast : doc'.lastChild other = doc.lastChild other := by
    rw [HasShape.lastChild_eq copied.linked live', HasShape.lastChild_eq linked live,
      sameChildren]
  have sameGeneration : (doc'.slot other).generation = (doc.slot other).generation :=
    (contains_iff.mp live'.current).2.trans (contains_iff.mp live.current).2.symm
  exact Slot.eq_of_parts (copied.kind_kept other live) sameGeneration
    (copied.parent_kept other live) sameFirst sameLast sameNext samePrev
    (live'.kept.trans live.kept.symm)

/-- Nothing below the copy was there before: what was there stands below what was there. -/
theorem fresh_below (copied : Grafted doc doc' id tree) (linked : doc.WellLinked)
    (below : other ∈ doc'.preorder id) : ¬ doc.IsLive other := by
  intro live
  obtain ⟨-, above⟩ := (copied.linked.mem_preorder_iff copied.live_new).mp below
  rw [HasShape.ancestors_congr linked copied.linked
    (fun each live => ⟨copied.live each live, copied.parent_kept each live⟩) live] at above
  exact copied.fresh (HasShape.live_of_mem_ancestors linked live id above)

end Grafted

/-! ## What is new -/

/-- One more copy as the last child of a node, with the trees to go below it. -/
def plantOne (parent : NodeId) (planted : List (NodeId × List Tree) × Document) (tree : Tree) :
    List (NodeId × List Tree) × Document :=
  let (id, doc) := planted.2.create tree.kind
  ((id, tree.children) :: planted.1, doc.appendChild parent id)

theorem plant_eq : doc.plant parent trees = trees.foldl (plantOne parent) ([], doc) := rfl

/-- All that is new after a row of children are these children. -/
theorem live_plant (linked : doc.WellLinked) (live : doc.IsLive parent)
    (liveO : (doc.plant parent trees).2.IsLive other) :
    doc.IsLive other ∨ other ∈ (doc.plant parent trees).1.map (·.1) := by
  let Known (planted : List (NodeId × List Tree) × Document) : Prop :=
    planted.2.WellLinked ∧ planted.2.IsLive parent ∧
      ∀ other, planted.2.IsLive other → doc.IsLive other ∨ other ∈ planted.1.map (·.1)
  have known : Known (doc.plant parent trees) := by
    rw [plant_eq]
    refine List.foldlRecOn (motive := Known) trees _
      ⟨linked, live, fun _ live => .inl live⟩ fun planted known tree _ => ?_
    obtain ⟨linked, live, known⟩ := known
    have extended := extended_grow linked live tree.kind
    refine ⟨extended.linked, (extended.live_iff parent).mpr (.inr live), fun other liveO => ?_⟩
    rcases (extended.live_iff other).mp liveO with rfl | before
    · exact .inr List.mem_cons_self
    · exact (known other before).imp_right (List.mem_cons_of_mem _)
  exact known.2.2 other liveO

/-- All that is new after trees were copied in stands below the nodes they were copied below. -/
theorem Ready.live_plantAll (ready : Ready doc work) (liveO : (doc.plantAll work).IsLive other) :
    doc.IsLive other ∨ ∃ entry ∈ work, other ∈ (doc.plantAll work).preorder entry.1 := by
  fun_induction doc.plantAll work with
  | case1 doc => exact .inl liveO
  | case2 doc parent trees rest planted ih =>
    have liveP : doc.IsLive parent := ready.live (parent, trees) List.mem_cons_self
    have row := plantedRow_plant ready.linked liveP trees
    have all := ready.plant.plantedAll
    have liveP' := all.live parent (row.live parent liveP)
    -- What stands below a child of the row stands below the parent of the row.
    have below : ∀ child ∈ planted.1.map (·.1), ∀ other,
        other ∈ (planted.2.plantAll (planted.1 ++ rest)).preorder child →
          other ∈ (planted.2.plantAll (planted.1 ++ rest)).preorder parent := by
      intro child member other inner
      have listed : child ∈ planted.2.children parent := by
        rw [row.children_parent]
        exact List.mem_append_right _ (List.mem_reverse.mpr member)
      obtain ⟨liveC, hung⟩ := row.linked.child (row.live parent liveP) listed
      have liveC' := all.live child liveC
      have hung' := (all.parent_kept child liveC).trans hung
      obtain ⟨liveO, above⟩ := (all.linked.mem_preorder_iff liveC').mp inner
      refine (all.linked.mem_preorder_iff liveP').mpr
        ⟨liveO, all.linked.ancestors_subset liveO above ?_⟩
      rw [HasShape.ancestors_of_parent all.linked liveC' hung']
      exact List.mem_cons_of_mem _ (HasShape.mem_ancestors_self all.linked liveP')
    rcases ih ready.plant liveO with before | ⟨entry, member, inner⟩
    · rcases live_plant ready.linked liveP before with before | inRow
      · exact .inl before
      · have self : other ∈ (planted.2.plantAll (planted.1 ++ rest)).preorder other := by
          rw [all.linked.preorder_eq liveO]
          exact List.mem_cons_self
        exact .inr ⟨_, List.mem_cons_self, below other inRow other self⟩
    · rcases List.mem_append.mp member with inRow | inRest
      · exact .inr ⟨_, List.mem_cons_self,
          below entry.1 (List.mem_map_of_mem inRow) other inner⟩
      · exact .inr ⟨entry, List.mem_cons_of_mem _ inRest, inner⟩

/-- The nodes of a document after a tree was copied in are those that it had and those of the
copy. -/
theorem live_graft_iff (linked : doc.WellLinked) (tree : Tree) :
    (doc.graft tree).2.IsLive other ↔
      doc.IsLive other ∨ other ∈ (doc.graft tree).2.preorder (doc.graft tree).1 := by
  have copied := grafted_graft linked tree
  constructor
  · intro live
    rcases (ready_create linked tree).live_plantAll live with made | ⟨entry, member, below⟩
    · rcases ((created tree.kind linked).live_iff other).mp made with rfl | before
      · right
        rw [copied.linked.preorder_eq copied.live_new]
        exact List.mem_cons_self
      · exact .inl before
    · obtain rfl := List.mem_singleton.mp member
      exact .inr below
  · rintro (live | below)
    · exact copied.live other live
    · exact copied.linked.live_of_mem_preorder copied.live_new below

/-! ## The stack of nodes still to be copied -/

/-- One child is copied as the last child of a node, and waits on the stack with its copy. -/
def copyOne (source : Document) (copy : NodeId) (state : List (NodeId × NodeId) × Document)
    (child : NodeId) : List (NodeId × NodeId) × Document :=
  let (id, doc) := state.2.create (source.kind child)
  ((child, id) :: state.1, doc.appendChild copy id)

/-- One round of copying: the node on top of the stack is taken off, and its children are copied
below its copy. -/
def copyRound (source : Document) (state : List (NodeId × NodeId) × Document) :
    List (NodeId × NodeId) × Document :=
  match state with
  | ([], doc) => ([], doc)
  | ((original, copy) :: rest, doc) =>
    (source.children original).foldl (copyOne source copy) (rest, doc)

/-- What a stack stands for: below each copy, the trees of the children of the original. -/
def pending (source : Document) (stack : List (NodeId × NodeId)) : List (NodeId × List Tree) :=
  stack.map fun (original, copy) => (copy, (source.children original).map source.tree)

theorem pending_cons : pending source ((original, copy) :: stack) =
    (copy, (source.children original).map source.tree) :: pending source stack := rfl

theorem foldl_plantOne :
    trees.foldl (plantOne parent) (row, doc) =
      ((doc.plant parent trees).1 ++ row, (doc.plant parent trees).2) := by
  have general : ∀ (trees : List Tree) (first : List (NodeId × List Tree)) (doc : Document),
      trees.foldl (plantOne parent) (first ++ row, doc) =
        ((trees.foldl (plantOne parent) (first, doc)).1 ++ row,
          (trees.foldl (plantOne parent) (first, doc)).2) := by
    intro trees
    induction trees with
    | nil => exact fun first doc => rfl
    | cons tree rest ih => exact fun first doc => ih ((_, tree.children) :: first) _
  exact general trees [] doc

theorem foldl_copyOne (linked : source.WellLinked) {children : List NodeId}
    (live : ∀ child ∈ children, source.IsLive child) (copy : NodeId)
    (state : List (NodeId × NodeId) × Document) :
    (pending source (children.foldl (copyOne source copy) state).1,
        (children.foldl (copyOne source copy) state).2) =
      (children.map source.tree).foldl (plantOne copy) (pending source state.1, state.2) := by
  induction children generalizing state with
  | nil => rfl
  | cons child rest ih =>
    obtain ⟨first, later⟩ := List.forall_mem_cons.mp live
    rw [List.foldl_cons, ih later, List.map_cons, List.foldl_cons, linked.tree_eq first]
    rfl

theorem live_foldl_copyOne {children : List NodeId}
    (live : ∀ child ∈ children, source.IsLive child) {state : List (NodeId × NodeId) × Document}
    (stacked : ∀ entry ∈ state.1, source.IsLive entry.1) :
    ∀ entry ∈ (children.foldl (copyOne source copy) state).1, source.IsLive entry.1 := by
  let Stacked (state : List (NodeId × NodeId) × Document) : Prop :=
    ∀ entry ∈ state.1, source.IsLive entry.1
  exact List.foldlRecOn (motive := Stacked) children _ stacked fun state stacked child member =>
    List.forall_mem_cons.mpr ⟨live child member, stacked⟩

/-- A round copies one row of children. -/
theorem copyRound_cons (linked : source.WellLinked) (live : source.IsLive original)
    (stacked : ∀ entry ∈ stack, source.IsLive entry.1) (copy : NodeId) (doc : Document) :
    ∃ stack' doc', copyRound source ((original, copy) :: stack, doc) = (stack', doc') ∧
      (∀ entry ∈ stack', source.IsLive entry.1) ∧
      doc.plantAll (pending source ((original, copy) :: stack)) =
        doc'.plantAll (pending source stack') ∧
      outstanding (pending source ((original, copy) :: stack)) =
        outstanding (pending source stack') + 1 := by
  have liveC : ∀ child ∈ source.children original, source.IsLive child := fun child member =>
    linked.live_of_mem_children live member
  have row := foldl_copyOne linked liveC copy (stack, doc)
  rw [foldl_plantOne] at row
  obtain ⟨sameWork, sameDoc⟩ := Prod.mk.inj row
  refine ⟨((source.children original).foldl (copyOne source copy) (stack, doc)).1,
    ((source.children original).foldl (copyOne source copy) (stack, doc)).2, rfl,
    live_foldl_copyOne liveC stacked, ?_, ?_⟩
  · rw [sameWork, sameDoc, pending_cons, plantAll]
  · simp only [sameWork, outstanding_append, outstanding_plant, pending_cons, outstanding]
    omega

/-- The stack is empty after as many rounds as there are nodes to be copied below, and all of them
are copied then. -/
theorem iterate_copyRound (linked : source.WellLinked)
    (stacked : ∀ entry ∈ stack, source.IsLive entry.1) :
    (copyRound source)^[outstanding (pending source stack)] (stack, doc) =
      ([], doc.plantAll (pending source stack)) := by
  generalize count : outstanding (pending source stack) = rounds
  induction rounds generalizing stack doc with
  | zero =>
    cases stack with
    | nil => rw [Function.iterate_zero, id, pending, List.map_nil, plantAll]
    | cons entry rest =>
      rw [pending, List.map_cons, outstanding] at count
      omega
  | succ rounds ih =>
    cases stack with
    | nil => cases count
    | cons entry rest =>
      obtain ⟨original, copy⟩ := entry
      have live : source.IsLive original := stacked _ List.mem_cons_self
      obtain ⟨stack', doc', round, stacked', sameDoc, fewer⟩ :=
        copyRound_cons linked live (List.forall_mem_cons.mp stacked).2 copy doc
      have fewer' : outstanding (pending source stack') = rounds := by omega
      rw [Function.iterate_succ_apply, round, ih stacked' fewer', ← sameDoc]

/-! ## Exact copies -/

/-- A document that holds a copy of a node of another one, with everything below it, beside what it
held before. -/
structure Copied (source doc doc' : Document) (original copy : NodeId) : Prop where
  linked : doc'.WellLinked
  live : doc'.IsLive copy
  orphan : doc'.parent copy = none
  tree_eq : doc'.tree copy = source.tree original
  single : (doc'.preorder copy).Nodup
  fresh : ∀ other ∈ doc'.preorder copy, ¬ doc.IsLive other
  live_iff : ∀ other, doc'.IsLive other ↔ doc.IsLive other ∨ other ∈ doc'.preorder copy
  slot_kept : ∀ other, doc.IsLive other → doc'.slot other = doc.slot other

/-- After one round for each node to be copied the stack is empty, and the document that is left
holds an exact copy: a new node that hangs nowhere, with the same tree as the original below it, of
nodes that were not there before. What was there before holds what it held, and all links are in
step. -/
theorem copied_graft (linked : doc.WellLinked) (linked' : source.WellLinked)
    (live : source.IsLive original) :
    let made := doc.create (source.kind original)
    let result := doc.graft (source.tree original)
    result.1 = made.1 ∧
      (copyRound source)^[(source.tree original).size] ([(original, made.1)], made.2) =
        ([], result.2) ∧
      Copied source doc result.2 original result.1 := by
  intro made result
  have copied : Grafted doc result.2 result.1 (source.tree original) :=
    grafted_graft linked (source.tree original)
  have tree : source.tree original =
      .node (source.kind original) ((source.children original).map source.tree) :=
    linked'.tree_eq live
  have count : (source.tree original).size =
      outstanding (pending source [(original, made.1)]) := by
    rw [tree, Tree.size]
    rfl
  have name : result.1 = made.1 := by
    show (doc.graft (source.tree original)).1 = _
    rw [tree]
    rfl
  have run : (copyRound source)^[(source.tree original).size] ([(original, made.1)], made.2) =
      ([], result.2) := by
    rw [count, iterate_copyRound linked' (List.forall_mem_singleton.mpr live)]
    show _ = (_, (doc.graft (source.tree original)).2)
    rw [tree]
    rfl
  refine ⟨name, run, ?_⟩
  exact {
    linked := copied.linked
    live := copied.live_new
    orphan := copied.orphan
    tree_eq := copied.tree_new
    single := copied.linked.preorder_nodup copied.live_new
    fresh := fun other below => copied.fresh_below linked below
    live_iff := fun other => live_graft_iff linked (source.tree original)
    slot_kept := fun other live => copied.slot_kept linked live }

/-- An element with two elements in it, the first with an attribute and a text. -/
def nestedSample : Document :=
  (((empty.grow root (.plainElement "x")).grow ⟨2, 0⟩ (.element ⟨none, "y"⟩ none
    [.plain "k" "v"])).grow ⟨3, 0⟩ (.text "t")).grow ⟨2, 0⟩ (.plainElement "z")

/-- A document whose only element was removed again. -/
def freedSample : Document := ((empty.grow root (.plainElement "r")).remove ⟨2, 0⟩).2

/-- The copy takes the slot of the removed element, and the copies of its children new slots, before
the text that is in the first of them. -/
theorem copied_graft_nested :
    Copied nestedSample freedSample (freedSample.graft (nestedSample.tree ⟨2, 0⟩)).2
      ⟨2, 0⟩ ⟨2, 1⟩ ∧
    (freedSample.graft (nestedSample.tree ⟨2, 0⟩)).2.preorder ⟨2, 1⟩ =
      [⟨2, 1⟩, ⟨3, 0⟩, ⟨5, 0⟩, ⟨4, 0⟩] := by
  have linked : freedSample.WellLinked := by
    have grown := extended_grow wellLinked_empty wellLinked_empty.root_live (.plainElement "r")
    exact grown.linked.remove (by decide) (by decide)
  have linked' : nestedSample.WellLinked := by
    have outer := extended_grow wellLinked_empty wellLinked_empty.root_live (.plainElement "x")
    have liveX := (outer.live_iff ⟨2, 0⟩).mpr (.inl rfl)
    have first := extended_grow outer.linked liveX (.element ⟨none, "y"⟩ none [.plain "k" "v"])
    have text := extended_grow first.linked ((first.live_iff ⟨3, 0⟩).mpr (.inl rfl)) (.text "t")
    have liveX' := (text.live_iff _).mpr (.inr ((first.live_iff _).mpr (.inr liveX)))
    exact (extended_grow text.linked liveX' (.plainElement "z")).linked
  obtain ⟨-, -, copied⟩ := copied_graft linked linked' (show nestedSample.IsLive ⟨2, 0⟩ by decide)
  exact ⟨copied, by cbv⟩

end Document
end Markup
