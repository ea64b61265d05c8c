import Markup.Proofs.Store.Links
import Mathlib.Logic.Function.Basic

/-!
# Placing and taking out

The lists of children after a node was put among those of another one, and after it was taken out.
-/

namespace Markup.Document

variable {doc doc' : Document} {kids : NodeId → List NodeId} {id parent child : NodeId}
  {before after : List NodeId}

namespace HasShape

/-- What hangs somewhere is not the orphan. -/
theorem ne_of_orphan {above : NodeId} (orphan : doc.parent child = none)
    (hung : doc.parent id = some above) : id ≠ child := by
  rintro rfl
  simp [orphan] at hung

/-- What does not hang below a node is none of its children. -/
theorem not_neighbour (shape : doc.HasShape kids) (liveP : doc.IsLive parent)
    {list : List NodeId} (inner : list ⊆ kids parent) (elsewhere : doc.parent id ≠ some parent) :
    list.getLast? ≠ some id ∧ list.head? ≠ some id := by
  have outside : id ∉ list := fun member => elsewhere (shape.child liveP (inner member)).2
  exact ⟨fun last => outside (List.mem_of_getLast? last),
    fun first => outside (List.mem_of_head? first)⟩

section Insert

variable (shape : doc.HasShape kids) (liveP : doc.IsLive parent) (liveC : doc.IsLive child)
  (orphan : doc.parent child = none) (split : kids parent = before ++ after)
  (placed : Inserted doc doc' parent child before after)
include shape liveP liveC split

private theorem live_of_mem_insert (member : id ∈ before ++ child :: after) : doc.IsLive id := by
  by_cases same : id = child
  · exact same ▸ liveC
  · exact (shape.child liveP (split ▸ by simpa [same] using member)).1

include orphan placed

private theorem forward_insert (live : doc.IsLive id) :
    Leads doc'.nextSibling (doc'.firstChild id)
      (Function.update kids parent (before ++ child :: after) id) := by
  rw [placed.first_eq id live]
  by_cases same : id = parent
  · subst same
    rw [if_pos rfl, Function.update_self]
    have walk := shape.forward' live
    rw [split] at walk
    have fresh : child ∉ before ++ after := fun member =>
      ne_of_orphan orphan (shape.child live (split ▸ member)).2 rfl
    exact walk.insert fresh fun each member =>
      placed.next_eq each (shape.live_of_mem_insert live liveC split member)
  · rw [if_neg same, Function.update_of_ne same]
    apply (shape.forward live).congr
    intro each member
    obtain ⟨liveE, hung⟩ := shape.child live member
    have apart := shape.not_neighbour liveP (show before ⊆ kids parent by simp [split])
      (by simp [hung, same] : doc.parent each ≠ some parent)
    rw [placed.next_eq each liveE, if_neg (ne_of_orphan orphan hung), if_neg apart.1]

private theorem backward_insert (live : doc.IsLive id) :
    Leads doc'.prevSibling (doc'.lastChild id)
      (Function.update kids parent (before ++ child :: after) id).reverse := by
  rw [placed.last_eq id live]
  by_cases same : id = parent
  · subst same
    rw [if_pos rfl, Function.update_self, ← List.head?_reverse]
    have walk := shape.backward' live
    have fresh : child ∉ before ++ after := fun member =>
      ne_of_orphan orphan (shape.child live (split ▸ member)).2 rfl
    rw [split] at walk
    simp only [List.reverse_append, List.reverse_cons, List.append_assoc, List.singleton_append]
      at walk ⊢
    apply walk.insert (by simpa [or_comm] using fresh)
    intro each member
    have inner : each ∈ before ++ child :: after := by
      simp only [List.mem_append, List.mem_cons, List.mem_reverse] at member ⊢
      tauto
    rw [placed.prev_eq each (shape.live_of_mem_insert live liveC split inner)]
    simp
  · rw [if_neg same, Function.update_of_ne same]
    apply (shape.backward live).congr
    intro each member
    obtain ⟨liveE, hung⟩ := shape.child live (List.mem_reverse.mp member)
    have apart := shape.not_neighbour liveP (show after ⊆ kids parent by simp [split])
      (by simp [hung, same] : doc.parent each ≠ some parent)
    rw [placed.prev_eq each liveE, if_neg (ne_of_orphan orphan hung), if_neg apart.2]

private theorem child_insert {each : NodeId} (live : doc.IsLive id)
    (member : each ∈ Function.update kids parent (before ++ child :: after) id) :
    doc.IsLive each ∧ doc'.parent each = some id := by
  by_cases same : id = parent
  · subst same
    rw [Function.update_self] at member
    have liveE := shape.live_of_mem_insert live liveC split member
    refine ⟨liveE, ?_⟩
    rw [placed.parent_eq each liveE]
    by_cases isChild : each = child
    · rw [if_pos isChild]
    · rw [if_neg isChild]
      exact (shape.child live (split ▸ by simpa [isChild] using member)).2
  · rw [Function.update_of_ne same] at member
    obtain ⟨liveE, hung⟩ := shape.child live member
    exact ⟨liveE, by rw [placed.parent_eq each liveE, if_neg (ne_of_orphan orphan hung), hung]⟩

omit liveC orphan in
private theorem listed_insert {above : NodeId} (live : doc.IsLive id)
    (hung : doc'.parent id = some above) : doc.IsLive above ∧
      id ∈ Function.update kids parent (before ++ child :: after) above := by
  rw [placed.parent_eq id live] at hung
  by_cases isChild : id = child
  · rw [if_pos isChild] at hung
    obtain rfl := Option.some.inj hung
    exact ⟨liveP, by simp [isChild]⟩
  · rw [if_neg isChild] at hung
    obtain ⟨liveA, member⟩ := shape.listed live hung
    refine ⟨liveA, ?_⟩
    by_cases same : above = parent
    · subst same
      rw [split] at member
      rw [Function.update_self]
      simpa [isChild] using member
    · rwa [Function.update_of_ne same]

omit liveC orphan in
private theorem alone_insert (live : doc.IsLive id) (top : doc'.parent id = none) :
    doc'.nextSibling id = none ∧ doc'.prevSibling id = none := by
  rw [placed.parent_eq id live] at top
  by_cases isChild : id = child
  · simp [isChild] at top
  · rw [if_neg isChild] at top
    have elsewhere : doc.parent id ≠ some parent := by simp [top]
    have apartB := shape.not_neighbour liveP (show before ⊆ kids parent by simp [split]) elsewhere
    have apartA := shape.not_neighbour liveP (show after ⊆ kids parent by simp [split]) elsewhere
    rw [placed.next_eq id live, placed.prev_eq id live, if_neg isChild, if_neg isChild,
      if_neg apartB.1, if_neg apartA.2]
    exact shape.alone live top

omit orphan split in
/-- The way up from what stands below the new child goes on with the way up from its parent. -/
private theorem grounded_insert (outside : child ∉ doc.ancestors parent) (live : doc.IsLive id) :
    ∃ path, Leads doc'.parent (some id) path := by
  have liveUp := shape.live_of_mem_ancestors live
  have walk := shape.leads_ancestors live
  have same : ∀ each ∈ doc.ancestors id, each ≠ child → doc'.parent each = doc.parent each :=
    fun each member other => by rw [placed.parent_eq each (liveUp each member), if_neg other]
  by_cases below : child ∈ doc.ancestors id
  · obtain ⟨inner, outer, path⟩ := List.append_of_mem below
    rw [path] at walk same
    have single := walk.nodup
    refine ⟨inner ++ child :: doc.ancestors parent, walk.splice (fun each member => ?_) ?_⟩
    · apply same each (by simp [member])
      intro loop
      exact (List.nodup_append.mp single).2.2 each member child (by simp) loop
    · refine ⟨rfl, ?_⟩
      rw [placed.parent_eq child liveC, if_pos rfl]
      apply (shape.leads_ancestors liveP).congr
      intro each member
      have other : each ≠ child := fun loop => outside (loop ▸ member)
      rw [placed.parent_eq each (shape.live_of_mem_ancestors liveP each member), if_neg other]
  · refine ⟨_, walk.congr fun each member => same each member fun loop => below ?_⟩
    rwa [← loop]

/-- A node that hangs nowhere and does not hold its new parent can be put among the children. -/
theorem insert (placeable : child ≠ root) (outside : child ∉ doc.ancestors parent) :
    doc'.HasShape (Function.update kids parent (before ++ child :: after)) where
  root_live := placed.use.live_iff.mpr shape.root_live
  root_top := by
    rw [placed.parent_eq root shape.root_live, if_neg placeable.symm, shape.root_top]
  forward live := shape.forward_insert liveP liveC orphan split placed (placed.use.live_iff.mp live)
  backward live :=
    shape.backward_insert liveP liveC orphan split placed (placed.use.live_iff.mp live)
  child live member := by
    rw [placed.use.live_iff] at live ⊢
    exact shape.child_insert liveP liveC orphan split placed live member
  listed live hung := by
    rw [placed.use.live_iff] at live ⊢
    exact shape.listed_insert liveP split placed live hung
  alone live := shape.alone_insert liveP split placed (placed.use.live_iff.mp live)
  grounded live := shape.grounded_insert liveP liveC placed outside (placed.use.live_iff.mp live)
  unused_top := (congrArg Slot.parent placed.use.unused).trans shape.unused_top
  free_nodup := placed.use.free ▸ shape.free_nodup
  free_pos := placed.use.free ▸ shape.free_pos
  free_iff id := by rw [placed.use.free, placed.use.size, placed.use.removed, shape.free_iff]

end Insert

section Erase

variable (shape : doc.HasShape kids) (liveP : doc.IsLive parent)
  (split : kids parent = before ++ child :: after)
  (taken : Erased doc doc' parent child before after)
include shape liveP split

private theorem ne_of_mem_erase (member : id ∈ before ++ after) : id ≠ child := by
  rintro rfl
  have single := shape.kids_nodup liveP
  rw [split] at single
  exact (List.nodup_cons.mp (List.nodup_middle.mp single)).1 member

/-- Only the child that is taken out, and its neighbours, hang below its parent. -/
private theorem apart_erase (elsewhere : doc.parent id ≠ some parent) :
    id ≠ child ∧ before.getLast? ≠ some id ∧ after.head? ≠ some id := by
  refine ⟨?_, (shape.not_neighbour liveP (by simp [split]) elsewhere).1,
    (shape.not_neighbour liveP (by simp [split]) elsewhere).2⟩
  rintro rfl
  exact elsewhere (shape.child liveP (by simp [split])).2

include taken

private theorem forward_erase (live : doc.IsLive id) :
    Leads doc'.nextSibling (doc'.firstChild id)
      (Function.update kids parent (before ++ after) id) := by
  rw [taken.first_eq id live]
  by_cases same : id = parent
  · subst same
    rw [if_pos rfl, Function.update_self]
    have walk := shape.forward' live
    rw [split] at walk
    apply walk.erase
    intro each member
    have inner : each ∈ kids id := by
      rw [split]
      simp only [List.mem_append, List.mem_cons] at member ⊢
      tauto
    rw [taken.next_eq each (shape.child live inner).1,
      if_neg (shape.ne_of_mem_erase live split member)]
  · rw [if_neg same, Function.update_of_ne same]
    apply (shape.forward live).congr
    intro each member
    obtain ⟨liveE, hung⟩ := shape.child live member
    obtain ⟨other, last, -⟩ := shape.apart_erase liveP split
      (by simp [hung, same] : doc.parent each ≠ some parent)
    rw [taken.next_eq each liveE, if_neg other, if_neg last]

private theorem backward_erase (live : doc.IsLive id) :
    Leads doc'.prevSibling (doc'.lastChild id)
      (Function.update kids parent (before ++ after) id).reverse := by
  rw [taken.last_eq id live]
  by_cases same : id = parent
  · subst same
    rw [if_pos rfl, Function.update_self, ← List.head?_reverse]
    have walk := shape.backward' live
    rw [split] at walk
    simp only [List.reverse_append, List.reverse_cons, List.append_assoc, List.singleton_append]
      at walk ⊢
    apply walk.erase
    intro each member
    have listed : each ∈ before ++ after := by simpa [or_comm] using member
    have inner : each ∈ kids id := by
      rw [split]
      simp only [List.mem_append, List.mem_cons] at listed ⊢
      tauto
    rw [taken.prev_eq each (shape.child live inner).1,
      if_neg (shape.ne_of_mem_erase live split listed)]
    simp
  · rw [if_neg same, Function.update_of_ne same]
    apply (shape.backward live).congr
    intro each member
    obtain ⟨liveE, hung⟩ := shape.child live (List.mem_reverse.mp member)
    obtain ⟨other, -, first⟩ := shape.apart_erase liveP split
      (by simp [hung, same] : doc.parent each ≠ some parent)
    rw [taken.prev_eq each liveE, if_neg other, if_neg first]

private theorem child_erase {each : NodeId} (live : doc.IsLive id)
    (member : each ∈ Function.update kids parent (before ++ after) id) :
    doc.IsLive each ∧ doc'.parent each = some id := by
  have listed : each ∈ kids id ∧ each ≠ child := by
    by_cases same : id = parent
    · subst same
      rw [Function.update_self] at member
      refine ⟨?_, shape.ne_of_mem_erase live split member⟩
      rw [split]
      simp only [List.mem_append, List.mem_cons] at member ⊢
      tauto
    · rw [Function.update_of_ne same] at member
      refine ⟨member, (shape.apart_erase liveP split ?_).1⟩
      simp [(shape.child live member).2, same]
  obtain ⟨liveE, hung⟩ := shape.child live listed.1
  exact ⟨liveE, by rw [taken.parent_eq each liveE, if_neg listed.2, hung]⟩

omit liveP in
private theorem listed_erase {above : NodeId} (live : doc.IsLive id)
    (hung : doc'.parent id = some above) : doc.IsLive above ∧
      id ∈ Function.update kids parent (before ++ after) above := by
  rw [taken.parent_eq id live] at hung
  by_cases isChild : id = child
  · simp [isChild] at hung
  · rw [if_neg isChild] at hung
    obtain ⟨liveA, member⟩ := shape.listed live hung
    refine ⟨liveA, ?_⟩
    by_cases same : above = parent
    · subst same
      rw [split] at member
      rw [Function.update_self]
      simpa [isChild] using member
    · rwa [Function.update_of_ne same]

private theorem alone_erase (live : doc.IsLive id) (top : doc'.parent id = none) :
    doc'.nextSibling id = none ∧ doc'.prevSibling id = none := by
  rw [taken.parent_eq id live] at top
  rw [taken.next_eq id live, taken.prev_eq id live]
  by_cases isChild : id = child
  · simp [isChild]
  · rw [if_neg isChild] at top
    obtain ⟨-, last, first⟩ := shape.apart_erase liveP split
      (by simp [top] : doc.parent id ≠ some parent)
    rw [if_neg isChild, if_neg isChild, if_neg last, if_neg first]
    exact shape.alone live top

/-- The way up from what stands below the node that was taken out ends there. -/
private theorem grounded_erase (live : doc.IsLive id) :
    ∃ path, Leads doc'.parent (some id) path := by
  have liveUp := shape.live_of_mem_ancestors live
  have walk := shape.leads_ancestors live
  have liveC := (shape.child liveP (show child ∈ kids parent by simp [split])).1
  have same : ∀ each ∈ doc.ancestors id, each ≠ child → doc'.parent each = doc.parent each :=
    fun each member other => by rw [taken.parent_eq each (liveUp each member), if_neg other]
  by_cases below : child ∈ doc.ancestors id
  · obtain ⟨inner, outer, path⟩ := List.append_of_mem below
    rw [path] at walk same
    have single := walk.nodup
    refine ⟨inner ++ [child], walk.splice (fun each member => ?_) ?_⟩
    · apply same each (by simp [member])
      intro loop
      exact (List.nodup_append.mp single).2.2 each member child (by simp) loop
    · exact ⟨rfl, by rw [taken.parent_eq child liveC, if_pos rfl]; rfl⟩
  · refine ⟨_, walk.congr fun each member => same each member fun loop => below ?_⟩
    rwa [← loop]

/-- A child can be taken out of the children of its parent. -/
theorem erase : doc'.HasShape (Function.update kids parent (before ++ after)) where
  root_live := taken.use.live_iff.mpr shape.root_live
  root_top := by
    rw [taken.parent_eq root shape.root_live, shape.root_top, ite_self]
  forward live := shape.forward_erase liveP split taken (taken.use.live_iff.mp live)
  backward live := shape.backward_erase liveP split taken (taken.use.live_iff.mp live)
  child live member := by
    rw [taken.use.live_iff] at live ⊢
    exact shape.child_erase liveP split taken live member
  listed live hung := by
    rw [taken.use.live_iff] at live ⊢
    exact shape.listed_erase split taken live hung
  alone live := shape.alone_erase liveP split taken (taken.use.live_iff.mp live)
  grounded live := shape.grounded_erase liveP split taken (taken.use.live_iff.mp live)
  unused_top := (congrArg Slot.parent taken.use.unused).trans shape.unused_top
  free_nodup := taken.use.free ▸ shape.free_nodup
  free_pos := taken.use.free ▸ shape.free_pos
  free_iff id := by rw [taken.use.free, taken.use.size, taken.use.removed, shape.free_iff]

end Erase

/-! ## The operations -/

theorem appendChild (shape : doc.HasShape kids) (liveP : doc.IsLive parent)
    (liveC : doc.IsLive child) (orphan : doc.parent child = none) (placeable : child ≠ root)
    (outside : child ∉ doc.ancestors parent) :
    (doc.appendChild parent child).HasShape
      (Function.update kids parent (kids parent ++ [child])) := by
  have distinct : child ≠ parent := fun same =>
    outside (same.symm ▸ shape.mem_ancestors_self liveP)
  exact shape.insert liveP liveC orphan (by simp)
    (inserted_appendChild shape liveP liveC orphan distinct) placeable outside

end HasShape

namespace WellLinked

theorem appendChild (linked : doc.WellLinked) (liveP : doc.IsLive parent)
    (liveC : doc.IsLive child) (orphan : doc.parent child = none) (placeable : child ≠ root)
    (outside : child ∉ doc.ancestors parent) : (doc.appendChild parent child).WellLinked :=
  (HasShape.appendChild linked liveP liveC orphan placeable outside).wellLinked

theorem insertBefore (linked : doc.WellLinked) {reference : NodeId}
    (liveR : doc.IsLive reference) (liveC : doc.IsLive child) (orphan : doc.parent child = none)
    (placeable : child ≠ root) (outside : child ∉ doc.ancestors reference) :
    (doc.insertBefore reference child).WellLinked := by
  cases above : doc.parent reference with
  | none => simpa only [Document.insertBefore, above] using linked
  | some parent =>
    obtain ⟨liveP, member⟩ := linked.listed liveR above
    obtain ⟨before, after, split⟩ := List.append_of_mem member
    have placed := inserted_insertBefore linked liveP liveC orphan split
    rw [HasShape.ancestors_of_parent linked liveR above] at outside
    exact (linked.insert liveP liveC orphan split placed placeable
      fun member => outside (List.mem_cons_of_mem _ member)).wellLinked

theorem sameUse_insertBefore (linked : doc.WellLinked) {reference : NodeId}
    (liveR : doc.IsLive reference) (liveC : doc.IsLive child) (orphan : doc.parent child = none) :
    SameUse doc (doc.insertBefore reference child) := by
  cases above : doc.parent reference with
  | none =>
    simp only [Document.insertBefore, above]
    exact .refl
  | some parent =>
    obtain ⟨liveP, member⟩ := linked.listed liveR above
    obtain ⟨before, after, split⟩ := List.append_of_mem member
    exact (inserted_insertBefore linked liveP liveC orphan split).use

theorem insertAfter (linked : doc.WellLinked) {reference : NodeId}
    (liveR : doc.IsLive reference) (liveC : doc.IsLive child) (orphan : doc.parent child = none)
    (placeable : child ≠ root) (outside : child ∉ doc.ancestors reference) :
    (doc.insertAfter reference child).WellLinked := by
  cases later : doc.nextSibling reference with
  | some next =>
    have hung : doc.parent reference ≠ none := fun top => by
      simp [(linked.alone liveR top).1] at later
    obtain ⟨parent, above⟩ := Option.ne_none_iff_exists'.mp hung
    obtain ⟨liveP, member⟩ := linked.listed liveR above
    obtain ⟨before, after, split⟩ := List.append_of_mem member
    rw [(HasShape.siblings_eq linked liveP split).1] at later
    have listed : next ∈ doc.children parent := by
      rw [split]
      simp [List.mem_of_head? later]
    obtain ⟨liveN, aboveN⟩ := linked.child liveP listed
    rw [HasShape.ancestors_of_parent linked liveR above] at outside
    have distinct : child ≠ next := fun same => by simp [← same, orphan] at aboveN
    simp only [Document.insertAfter, (HasShape.siblings_eq linked liveP split).1, later]
    apply linked.insertBefore liveN liveC orphan placeable
    rw [HasShape.ancestors_of_parent linked liveN aboveN]
    simp only [List.mem_cons, not_or] at outside ⊢
    exact ⟨distinct, outside.2⟩
  | none =>
    cases above : doc.parent reference with
    | none => simpa only [Document.insertAfter, later, above] using linked
    | some parent =>
      rw [HasShape.ancestors_of_parent linked liveR above] at outside
      simp only [Document.insertAfter, later, above]
      exact linked.appendChild (linked.listed liveR above).1 liveC orphan placeable
        fun member => outside (List.mem_cons_of_mem _ member)

theorem prependChild (linked : doc.WellLinked) (liveP : doc.IsLive parent)
    (liveC : doc.IsLive child) (orphan : doc.parent child = none) (placeable : child ≠ root)
    (outside : child ∉ doc.ancestors parent) : (doc.prependChild parent child).WellLinked := by
  cases initial : doc.firstChild parent with
  | none =>
    simp only [Document.prependChild, initial]
    exact linked.appendChild liveP liveC orphan placeable outside
  | some first =>
    simp only [Document.prependChild, initial]
    rw [HasShape.firstChild_eq linked liveP] at initial
    obtain ⟨liveF, above⟩ := linked.child liveP (List.mem_of_head? initial)
    have distinct : child ≠ first := fun same => by simp [← same, orphan] at above
    apply linked.insertBefore liveF liveC orphan placeable
    rw [HasShape.ancestors_of_parent linked liveF above]
    simp only [List.mem_cons, not_or]
    exact ⟨distinct, outside⟩

theorem detach (linked : doc.WellLinked) (live : doc.IsLive id) : (doc.detach id).WellLinked := by
  cases above : doc.parent id with
  | none => simpa only [Document.detach, above] using linked
  | some parent =>
    obtain ⟨liveP, member⟩ := linked.listed live above
    obtain ⟨before, after, split⟩ := List.append_of_mem member
    exact (linked.erase liveP split (erased_detach linked liveP split)).wellLinked

end WellLinked
end Markup.Document
