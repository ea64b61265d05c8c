import Markup.Proofs.XPath.Axes
import Markup.XPath.Order

/-!
# Arranging nodes

Nodes that were found from several nodes are sorted by their places, which are looked up in a
table, and repeats are dropped. For nodes that are part of the document that is document order.
-/

namespace Markup.XPath

open Document

variable {doc : Document} {id : NodeId} {nodes : List Node}

/-! ## Places -/

private theorem getElem?_insertAll (ids : List NodeId) (single : ids.Nodup) (start : Nat)
    (places : Std.HashMap NodeId Nat) :
    ((ids.zipIdx start).foldl (fun places (id, place) => places.insert id place) places)[id]? =
      if id ∈ ids then some (start + ids.idxOf id) else places[id]? := by
  induction ids generalizing start places with
  | nil => simp
  | cons first rest ih =>
    obtain ⟨other, single⟩ := List.nodup_cons.mp single
    rw [List.zipIdx_cons, List.foldl_cons, ih single]
    by_cases same : id = first
    · subst same
      simp [other]
    · have apart : ¬ first = id := fun equal => same equal.symm
      have shift : start + 1 + rest.idxOf id = start + (rest.idxOf id + 1) := by omega
      simp [same, apart, Std.HashMap.getElem?_insert, shift]

/-- The table has an entry for each node of the tree and for no other. -/
theorem getElem?_ofDocument (linked : doc.WellLinked) :
    (Ranks.ofDocument doc).places[id]? =
      if doc.isAttached id then some (doc.order.idxOf id) else none := by
  have single : doc.order.Nodup := linked.order_eq ▸ linked.preorder_nodup linked.root_live
  rw [Ranks.ofDocument, getElem?_insertAll doc.order single]
  simp [linked.mem_order_iff]

/-- The table holds the place of each node of the tree. -/
theorem place_ofDocument (linked : doc.WellLinked) (attached : doc.isAttached id = true) :
    (Ranks.ofDocument doc).place id = doc.order.idxOf id := by
  rw [Ranks.place, getElem?_ofDocument linked, if_pos attached, Option.getD_some]

theorem key_ofDocument (linked : doc.WellLinked) {node : Node} (present : node.IsPresent doc) :
    (Ranks.ofDocument doc).key node = node.rank doc := by
  cases node with
  | tree id => rw [Ranks.key, Node.rank, place_ofDocument linked present]
  | attr owner index => rw [Ranks.key, Node.rank, place_ofDocument linked present.1]

/-- Nodes of the document that stand in one place are one node. -/
theorem eq_of_rank (linked : doc.WellLinked) {left right : Node} (present : left.IsPresent doc)
    (present' : right.IsPresent doc) (same : left.rank doc = right.rank doc) : left = right := by
  have owners : ∀ {left right : NodeId}, doc.isAttached left = true →
      doc.order.idxOf left = doc.order.idxOf right → left = right := by
    intro left right attached equal
    exact (List.idxOf_inj (linked.mem_order_iff.mpr attached)).mp equal
  cases left with
  | tree id =>
    cases right with
    | tree id' => rw [owners present (Prod.mk.inj same).1]
    | attr owner index => exact absurd (Prod.mk.inj same).2 (Nat.succ_ne_zero _).symm
  | attr owner index =>
    cases right with
    | tree id' => exact absurd (Prod.mk.inj same).2 (Nat.succ_ne_zero _)
    | attr owner' index' =>
      obtain ⟨place, number⟩ := Prod.mk.inj same
      rw [owners present.1 place, Nat.succ.inj number]

/-! ## Sorting -/

theorem before_trans (ranks : Ranks) (a b c : Node) (first : ranks.before a b = true)
    (second : ranks.before b c = true) : ranks.before a c = true := by
  simp only [Ranks.before, Bool.or_eq_true, Bool.and_eq_true, decide_eq_true_eq, beq_iff_eq]
    at first second ⊢
  omega

theorem before_total (ranks : Ranks) (a b : Node) :
    (ranks.before a b || ranks.before b a) = true := by
  simp only [Ranks.before, Bool.or_eq_true, Bool.and_eq_true, decide_eq_true_eq, beq_iff_eq]
  omega

theorem withoutRepeats_subset (nodes : List Node) : withoutRepeats nodes ⊆ nodes := by
  fun_induction withoutRepeats nodes with
  | case1 => simp
  | case2 node => simp
  | case3 second rest ih => exact fun node member => List.mem_cons_of_mem _ (ih member)
  | case4 first second rest other ih =>
    intro node member
    rcases List.mem_cons.mp member with rfl | member
    · exact List.mem_cons_self
    · exact List.mem_cons_of_mem _ (ih member)

/-- What is left of sorted nodes without repeats increases strictly: a node that differs from the
next one comes before it, and so before all that is not before the next one. -/
theorem pairwise_withoutRepeats {before precedes : Node → Node → Prop}
    (strict : ∀ a ∈ nodes, ∀ b ∈ nodes, before a b → a ≠ b → precedes a b)
    (trans : ∀ a ∈ nodes, ∀ b ∈ nodes, ∀ c ∈ nodes, precedes a b → before b c → precedes a c)
    (sorted : nodes.Pairwise before) : (withoutRepeats nodes).Pairwise precedes := by
  fun_induction withoutRepeats nodes with
  | case1 => exact .nil
  | case2 node => exact List.pairwise_singleton _ _
  | case3 second rest ih =>
    obtain ⟨-, sorted⟩ := List.pairwise_cons.mp sorted
    exact ih (fun a memberA b memberB => strict a (by simp [memberA]) b (by simp [memberB]))
      (fun a memberA b memberB c memberC =>
        trans a (by simp [memberA]) b (by simp [memberB]) c (by simp [memberC])) sorted
  | case4 first second rest other ih =>
    obtain ⟨least, sorted⟩ := List.pairwise_cons.mp sorted
    have later := ih
      (fun a memberA b memberB => strict a (by simp [memberA]) b (by simp [memberB]))
      (fun a memberA b memberB c memberC =>
        trans a (by simp [memberA]) b (by simp [memberB]) c (by simp [memberC])) sorted
    refine List.pairwise_cons.mpr ⟨fun node member => ?_, later⟩
    have next := strict first (by simp) second (by simp) (least second (by simp)) other
    rcases List.mem_cons.mp (withoutRepeats_subset _ member) with rfl | behind
    · exact next
    · exact trans first (by simp) second (by simp) node (by simp [behind]) next
        ((List.pairwise_cons.mp sorted).1 node behind)

/-- Arranged nodes of the document are in document order, each once. -/
theorem inOrder_arrange (linked : doc.WellLinked) (present : ∀ node ∈ nodes, node.IsPresent doc) :
    InOrder doc ((Ranks.ofDocument doc).arrange nodes) := by
  have sorted : (nodes.mergeSort (Ranks.ofDocument doc).before).Pairwise fun left right =>
      (Ranks.ofDocument doc).before left right = true :=
    List.pairwise_mergeSort (before_trans _) (before_total _) nodes
  have present' : ∀ node ∈ nodes.mergeSort (Ranks.ofDocument doc).before, node.IsPresent doc :=
    fun node member => present node (List.mem_mergeSort.mp member)
  refine ⟨fun node member => present' node (withoutRepeats_subset _ member), ?_⟩
  refine pairwise_withoutRepeats (fun a memberA b memberB before other => ?_)
    (fun a memberA b memberB c memberC precedes before => ?_) sorted
  · simp only [Ranks.before, key_ofDocument linked (present' a memberA),
      key_ofDocument linked (present' b memberB), Bool.or_eq_true, Bool.and_eq_true,
      decide_eq_true_eq, beq_iff_eq] at before
    have apart : a.rank doc ≠ b.rank doc :=
      mt (eq_of_rank linked (present' a memberA) (present' b memberB)) other
    rw [Ne, Prod.ext_iff] at apart
    rw [Node.Precedes]
    omega
  · simp only [Ranks.before, key_ofDocument linked (present' b memberB),
      key_ofDocument linked (present' c memberC), Bool.or_eq_true, Bool.and_eq_true,
      decide_eq_true_eq, beq_iff_eq] at before
    rw [Node.Precedes] at precedes ⊢
    omega

end Markup.XPath
