import Markup.Proofs.Store.Grow
import Markup.Proofs.Store.Remove
import Markup.Proofs.XPath.Arrange
import Mathlib.Data.Set.Function
import Mathlib.Order.Interval.Set.Defs

/-!
# Traversals

Everything below a node is met by walking: down to a first child, or else up until there is a
sibling to turn to, but not past the node where the walk began. The same nodes in the same order are
listed by recursion, child by child. The nodes of the tree are those that a walk down from the
document node meets, and those from where a walk up ends at the document node.
-/

namespace Markup.Document

variable {doc : Document} {id parent child other top : NodeId} {start next next' : Option NodeId}
  {list list' : List NodeId}

/-! ## The walk as it is made -/

/-- A walk below `top` that is done with everything below a node goes up until it can turn to a
sibling. It ends if it comes back to `top` or gets out of the tree. -/
inductive Climbs (doc : Document) (top : NodeId) : Option NodeId → Option NodeId → Prop
  | out : Climbs doc top none none
  | back : Climbs doc top (some top) none
  | turn {id sibling : NodeId} (inside : id ≠ top) (beside : doc.nextSibling id = some sibling) :
      Climbs doc top (some id) (some sibling)
  | up {id : NodeId} {next : Option NodeId} (inside : id ≠ top)
      (last : doc.nextSibling id = none) (above : Climbs doc top (doc.parent id) next) :
      Climbs doc top (some id) next

/-- A walk below `top` meets some nodes and ends. -/
inductive Meets (doc : Document) (top : NodeId) : Option NodeId → List NodeId → Prop
  | done : Meets doc top none []
  | down {id child : NodeId} {list : List NodeId} (below : doc.firstChild id = some child)
      (rest : Meets doc top (some child) list) : Meets doc top (some id) (id :: list)
  | onward {id : NodeId} {next : Option NodeId} {list : List NodeId}
      (leaf : doc.firstChild id = none) (climb : Climbs doc top (some id) next)
      (rest : Meets doc top next list) : Meets doc top (some id) (id :: list)

/-- A node and the siblings after it, each before everything below it. -/
inductive Lists (doc : Document) : Option NodeId → List NodeId → Prop
  | nothing : Lists doc none []
  | node {id : NodeId} {below beside : List NodeId} (inner : Lists doc (doc.firstChild id) below)
      (outer : Lists doc (doc.nextSibling id) beside) : Lists doc (some id) (id :: below ++ beside)

/-- There is one way up. -/
theorem Climbs.unique (left : doc.Climbs top start next) (right : doc.Climbs top start next') :
    next = next' := by
  induction left with
  | out =>
    cases right
    rfl
  | back =>
    cases right with
    | back => rfl
    | turn inside _ => exact absurd rfl inside
    | up inside _ _ => exact absurd rfl inside
  | turn inside beside =>
    cases right with
    | back => exact absurd rfl inside
    | turn _ beside' => exact beside.symm.trans beside'
    | up _ last _ => exact absurd (beside.symm.trans last) (Option.some_ne_none _)
  | up inside last above ih =>
    cases right with
    | back => exact absurd rfl inside
    | turn _ beside => exact absurd (beside.symm.trans last) (Option.some_ne_none _)
    | up _ _ above' => exact ih above'

/-- A walk meets one list of nodes. -/
theorem Meets.unique (left : doc.Meets top start list) (right : doc.Meets top start list') :
    list = list' := by
  induction left generalizing list' with
  | done =>
    cases right
    rfl
  | down below rest ih =>
    cases right with
    | down below' rest' =>
      obtain rfl := Option.some.inj (below.symm.trans below')
      rw [ih rest']
    | onward leaf _ _ => exact absurd (below.symm.trans leaf) (Option.some_ne_none _)
  | onward leaf climb rest ih =>
    cases right with
    | down below _ => exact absurd (below.symm.trans leaf) (Option.some_ne_none _)
    | onward _ climb' rest' =>
      obtain rfl := climb.unique climb'
      rw [ih rest']

/-! ## Where the walk goes -/

namespace WellLinked

/-- Going up finds the node after everything below a node. -/
theorem climbs_after (linked : doc.WellLinked) (live : doc.IsLive id) :
    doc.Climbs top (some id) (doc.after top id) := by
  refine linked.ascent (motive := fun id => doc.Climbs top (some id) (doc.after top id))
    (fun id live hung => ?_) (fun id parent live liveP hung ih => ?_) id live
  · by_cases same : id = top
    · rw [same, linked.after_self (same ▸ live)]
      exact .back
    · have last := (HasShape.alone linked live hung).1
      have ends : doc.after top id = none := by
        simp [after, HasShape.ancestors_of_top linked live hung, same, last]
      rw [ends]
      refine .up same last ?_
      rw [hung]
      exact .out
  · by_cases same : id = top
    · rw [same, linked.after_self (same ▸ live)]
      exact .back
    · rw [linked.after_child liveP (linked.listed live hung).2 same]
      cases beside : doc.nextSibling id with
      | some sibling => exact .turn same beside
      | none => exact .up same beside (hung ▸ ih)

/-- The walk from node to node is made by going down and up. -/
theorem meets_of_leads (linked : doc.WellLinked) (live : ∀ each ∈ list, doc.IsLive each)
    (walk : Leads (doc.nextWithin top) start list) : doc.Meets top start list := by
  induction list generalizing start with
  | nil => exact Leads.nil_iff.mp walk ▸ .done
  | cons id rest ih =>
    obtain ⟨rfl, later⟩ := walk
    have onward := ih (fun each member => live each (List.mem_cons_of_mem _ member)) later
    rw [nextWithin_eq] at onward
    cases below : doc.firstChild id with
    | some child =>
      rw [below] at onward
      exact .down below onward
    | none =>
      rw [below] at onward
      exact .onward below (linked.climbs_after (live id List.mem_cons_self)) onward

theorem live_of_mem_descendants (linked : doc.WellLinked) (live : doc.IsLive id)
    (met : other ∈ doc.descendants id) : doc.IsLive other := by
  apply linked.live_of_mem_preorder live
  rw [linked.preorder_eq_cons live]
  exact List.mem_cons_of_mem _ met

/-- The walk below a node meets everything below it, and ends. -/
theorem meets_iff (linked : doc.WellLinked) (live : doc.IsLive id) :
    doc.Meets id (doc.firstChild id) list ↔ list = doc.descendants id := by
  have met : doc.Meets id (doc.firstChild id) (doc.descendants id) := by
    refine linked.meets_of_leads (fun each => linked.live_of_mem_descendants live) ?_
    rw [linked.descendants_eq live]
    exact linked.leads_descendants live
  exact ⟨fun walk => walk.unique met, fun same => same ▸ met⟩

/-- Recursion over the children lists everything below a node. -/
theorem lists_descendants (linked : doc.WellLinked) (live : doc.IsLive id) :
    doc.Lists (doc.firstChild id) (doc.descendants id) := by
  refine linked.induction (motive := fun id =>
    doc.Lists (doc.firstChild id) (doc.descendants id)) (fun id live ih => ?_) id live
  -- The children from any of them on are listed after the same fashion.
  have later : ∀ before last, doc.children id = before ++ last →
      doc.Lists last.head? (last.flatMap doc.preorder) := by
    intro before last
    induction last generalizing before with
    | nil => exact fun _ => .nothing
    | cons child others beside =>
      intro split
      have member : child ∈ doc.children id := by simp [split]
      rw [List.flatMap_cons, linked.preorder_eq_cons (linked.live_of_mem_children live member)]
      refine .node (ih child member) ?_
      rw [(HasShape.siblings_eq linked live split).1]
      exact beside (before ++ [child]) (by simp [split])
  rw [HasShape.firstChild_eq linked live, linked.descendants_eq live]
  exact later [] _ rfl

theorem descendants_nodup (linked : doc.WellLinked) (live : doc.IsLive id) :
    (doc.descendants id).Nodup := by
  have single := linked.preorder_nodup live
  rw [linked.preorder_eq_cons live] at single
  exact (List.nodup_cons.mp single).2

/-- Below a node is what it is met above, itself apart. -/
theorem mem_descendants (linked : doc.WellLinked) (live : doc.IsLive id) :
    other ∈ doc.descendants id ↔ doc.IsLive other ∧ other ≠ id ∧ id ∈ doc.ancestors other := by
  have single := linked.preorder_nodup live
  have whole : other ∈ doc.preorder id ↔ doc.IsLive other ∧ id ∈ doc.ancestors other :=
    linked.mem_preorder_iff live
  rw [linked.preorder_eq_cons live] at single whole
  have apart := (List.nodup_cons.mp single).1
  constructor
  · intro met
    obtain ⟨liveO, above⟩ := whole.mp (List.mem_cons_of_mem _ met)
    exact ⟨liveO, fun same => apart (same ▸ met), above⟩
  · rintro ⟨liveO, distinct, above⟩
    exact (List.mem_cons.mp (whole.mpr ⟨liveO, above⟩)).resolve_left distinct

/-! ## Up and down -/

/-- The walk up from a slot in use ends. -/
theorem leads_up (linked : doc.WellLinked) (inside : doc.contains id = true)
    (kept : doc.isRemoved id = false) : Leads doc.parent (some id) (doc.ancestors id) := by
  rcases Nat.eq_zero_or_pos id.index with zero | numbered
  · have unused : doc.parent id = none := by
      rw [← linked.unused_top, parent, parent, slot, slot, zero]
    have walk : Leads doc.parent (some id) [id] := ⟨rfl, unused⟩
    rw [ancestors, along, walk.walk_eq (Nat.zero_lt_of_lt linked.root_live.lt_size)]
    exact walk
  · exact HasShape.leads_ancestors linked ⟨numbered, inside, kept⟩

/-- A node has the place where the walk down from the document node meets it. -/
theorem place_iff (linked : doc.WellLinked) {place : Nat} :
    (XPath.Ranks.ofDocument doc).places[id]? = some place ↔ doc.order[place]? = some id := by
  have single : doc.order.Nodup := linked.order_eq ▸ linked.preorder_nodup linked.root_live
  rw [XPath.getElem?_ofDocument linked]
  constructor
  · intro found
    have attached : doc.isAttached id = true := by
      by_contra missing
      simp [missing] at found
    rw [if_pos attached, Option.some.injEq] at found
    rw [← found]
    exact List.getElem?_idxOf (linked.mem_order_iff.mpr attached)
  · intro met
    obtain ⟨short, rfl⟩ := List.getElem?_eq_some_iff.mp met
    rw [if_pos (linked.mem_order_iff.mp (List.getElem_mem short)), single.idxOf_getElem]

/-- The places of the nodes of the tree are the numbers from nought on, each taken once. -/
theorem bijOn_place (linked : doc.WellLinked) :
    Set.BijOn (XPath.Ranks.ofDocument doc).place { id | doc.isAttached id = true }
      (Set.Iio doc.order.length) := by
  have at_place : ∀ {id}, doc.isAttached id = true →
      doc.order[(XPath.Ranks.ofDocument doc).place id]? = some id := by
    intro id attached
    rw [XPath.place_ofDocument linked attached]
    exact List.getElem?_idxOf (linked.mem_order_iff.mpr attached)
  refine ⟨fun id attached => ?_, fun id attached other attached' same => ?_,
    fun place short => ?_⟩
  · exact (List.getElem?_eq_some_iff.mp (at_place attached)).1
  · have met := at_place attached
    rw [same, at_place attached'] at met
    exact (Option.some.inj met).symm
  · have met : doc.order[place]? = some doc.order[place] := List.getElem?_eq_getElem short
    refine ⟨doc.order[place], linked.mem_order_iff.mp (List.getElem_mem short), ?_⟩
    rw [XPath.Ranks.place, linked.place_iff.mpr met, Option.getD_some]

end WellLinked

/-- Below each live node the walk ends, and it meets what recursion lists: all that stands below it,
each node once and nothing else. From the document node on it numbers the nodes of the tree without
a gap. Whatever an id stands for, the way up from it ends at the document node exactly if the walk
down has numbered it. -/
theorem traversals_agree (linked : doc.WellLinked) :
    (∀ id, doc.IsLive id →
      (∀ list, doc.Meets id (doc.firstChild id) list ↔ list = doc.descendants id) ∧
      doc.Lists (doc.firstChild id) (doc.descendants id) ∧
      (doc.descendants id).Nodup ∧
      ∀ other, other ∈ doc.descendants id ↔
        doc.IsLive other ∧ other ≠ id ∧ id ∈ doc.ancestors other) ∧
    (∀ id (place : Nat), (XPath.Ranks.ofDocument doc).places[id]? = some place ↔
      (root :: doc.descendants root)[place]? = some id) ∧
    Set.BijOn (XPath.Ranks.ofDocument doc).place { id | doc.isAttached id = true }
      (Set.Iio ((doc.descendants root).length + 1)) ∧
    (∀ id, doc.contains id = true → doc.isRemoved id = false →
      Leads doc.parent (some id) (doc.ancestors id)) ∧
    ∀ id, doc.isAttached id = true ↔ id ∈ (XPath.Ranks.ofDocument doc).places := by
  refine ⟨fun id live => ⟨fun list => linked.meets_iff live, linked.lists_descendants live,
    linked.descendants_nodup live, fun other => linked.mem_descendants live⟩,
    fun id place => linked.place_iff, ?_, fun id => linked.leads_up, fun id => ?_⟩
  · exact linked.bijOn_place
  · rw [← Std.HashMap.isSome_getElem?_iff_mem, XPath.getElem?_ofDocument linked]
    cases doc.isAttached id <;> simp

/-- One of two elements was removed with its text. One of their slots is used again in the tree, the
other by an element that is not yet placed. -/
def reusedSample : Document :=
  ((((((empty.grow root (.plainElement "r")).grow ⟨2, 0⟩ (.plainElement "a")).grow ⟨3, 0⟩
    (.text "t")).grow ⟨2, 0⟩ (.plainElement "b")).remove ⟨3, 0⟩).2.grow ⟨5, 0⟩ (.text "u")).create
      (.plainElement "c") |>.2

/-- The walk goes through the node that took a slot over. The removed nodes have no place, nor has
the one that hangs nowhere. -/
theorem traversals_agree_reused :
    (∀ list, reusedSample.Meets ⟨2, 0⟩ (reusedSample.firstChild ⟨2, 0⟩) list ↔
      list = [⟨5, 0⟩, ⟨4, 1⟩]) ∧
    (XPath.Ranks.ofDocument reusedSample).places[(⟨4, 1⟩ : NodeId)]? = some 3 ∧
    (∀ id ∈ [⟨3, 0⟩, ⟨4, 0⟩, ⟨3, 1⟩], id ∉ (XPath.Ranks.ofDocument reusedSample).places) := by
  have linked : reusedSample.WellLinked := by
    have grown {doc : Document} (linked : doc.WellLinked) (parent : NodeId) (kind : NodeKind)
        (live : doc.IsLive parent) : (doc.grow parent kind).WellLinked :=
      (extended_grow linked live kind).linked
    have outer := grown wellLinked_empty root (.plainElement "r") (by decide)
    have first := grown outer ⟨2, 0⟩ (.plainElement "a") (by decide)
    have text := grown first ⟨3, 0⟩ (.text "t") (by decide)
    have second := grown text ⟨2, 0⟩ (.plainElement "b") (by decide)
    have removed := second.remove (show 0 < NodeId.index ⟨3, 0⟩ by decide) (by decide)
    exact (grown removed ⟨5, 0⟩ (.text "u") (by decide)).create _
  obtain ⟨below, places, -, -, attached⟩ := traversals_agree linked
  refine ⟨fun list => ?_, ?_, ?_⟩
  · rw [(below ⟨2, 0⟩ (by decide)).1 list]
    have met : reusedSample.descendants ⟨2, 0⟩ = [⟨5, 0⟩, ⟨4, 1⟩] := by decide
    rw [met]
  · rw [places]
    decide
  · intro id listed met
    have outside : ∀ id ∈ [⟨3, 0⟩, ⟨4, 0⟩, ⟨3, 1⟩], reusedSample.isAttached id = false := by decide
    rw [← attached, outside id listed] at met
    exact Bool.false_ne_true met

end Markup.Document
