import Markup.Proofs.Html.Built
import Markup.Proofs.Store.Graft
import Markup.Proofs.Store.Remove
import Mathlib.Logic.Relation

/-!
# Runs of changes

A document starts out empty or parsed and is then changed by one operation after the other. As long
as nodes are only placed where that makes sense, its links stay in step however long the run is.
-/

namespace Markup.Document

variable {doc : Document} {id other : NodeId}

/-! ## Consistent links -/

/-- The five links of a node. -/
def links (doc : Document) (id : NodeId) : List (Option NodeId) :=
  [doc.parent id, doc.firstChild id, doc.lastChild id, doc.nextSibling id, doc.prevSibling id]

/-- What can be said of the links of a document without knowing how it came about. -/
structure IsConsistent (doc : Document) : Prop where
  /-- From the first child on, the next siblings are the children. -/
  forward : ∀ id, doc.IsLive id → Leads doc.nextSibling (doc.firstChild id) (doc.children id)
  /-- From the last child on, the previous siblings are the children in reverse order. -/
  backward : ∀ id, doc.IsLive id →
    Leads doc.prevSibling (doc.lastChild id) (doc.children id).reverse
  single : ∀ id, doc.IsLive id → (doc.children id).Nodup
  parent_of_child : ∀ id, doc.IsLive id → ∀ child ∈ doc.children id, doc.parent child = some id
  child_of_parent : ∀ id, doc.IsLive id → ∀ parent, doc.parent id = some parent →
    id ∈ doc.children parent
  alone : ∀ id, doc.IsLive id → doc.parent id = none →
    doc.nextSibling id = none ∧ doc.prevSibling id = none
  acyclic : ∀ id, doc.IsLive id →
    ¬ Relation.TransGen (fun child parent => doc.parent child = some parent) id id
  /-- Every freed slot waits once to be used again, and no other slot does. -/
  free_nodup : doc.free.Nodup
  free_iff : ∀ index, index ∈ doc.free ↔
    ∃ inside : index < doc.slots.size, doc.slots[index].removed = true
  /-- No link of a live node leads to a freed slot or to an earlier use of a slot. -/
  links_live : ∀ id, doc.IsLive id → ∀ target, some target ∈ doc.links id → doc.IsLive target

namespace WellLinked

theorem mem_ancestors_of_transGen (linked : doc.WellLinked) (live : doc.IsLive id)
    (path : Relation.TransGen (fun child parent => doc.parent child = some parent) id other) :
    ∃ parent, doc.parent id = some parent ∧ other ∈ doc.ancestors parent := by
  induction path using Relation.TransGen.head_induction_on with
  | single above =>
    exact ⟨_, above, HasShape.mem_ancestors_self linked (linked.listed live above).1⟩
  | head above _ ih =>
    have liveP := (linked.listed live above).1
    obtain ⟨grand, above', member⟩ := ih liveP
    refine ⟨_, above, ?_⟩
    rw [HasShape.ancestors_of_parent linked liveP above']
    exact List.mem_cons_of_mem _ member

theorem live_of_sibling (linked : doc.WellLinked) (live : doc.IsLive id)
    (sibling : doc.nextSibling id = some other ∨ doc.prevSibling id = some other) :
    doc.IsLive other := by
  have hung : doc.parent id ≠ none := by
    intro top
    obtain ⟨later, earlier⟩ := linked.alone live top
    simp [later, earlier] at sibling
  obtain ⟨parent, above⟩ := Option.ne_none_iff_exists'.mp hung
  obtain ⟨liveP, member⟩ := linked.listed live above
  obtain ⟨before, after, split⟩ := List.append_of_mem member
  obtain ⟨later, earlier⟩ := HasShape.siblings_eq linked liveP split
  apply linked.live_of_mem_children liveP
  rw [split]
  rcases sibling with next | prev
  · rw [later] at next
    simp [List.mem_of_head? next]
  · rw [earlier] at prev
    simp [List.mem_of_getLast? prev]

theorem isConsistent (linked : doc.WellLinked) : doc.IsConsistent where
  forward _ live := linked.forward live
  backward _ live := linked.backward live
  single _ live := HasShape.kids_nodup linked live
  parent_of_child _ live _ member := (linked.child live member).2
  child_of_parent _ live _ above := (linked.listed live above).2
  alone _ live top := linked.alone live top
  acyclic id live cycle := by
    obtain ⟨parent, above, member⟩ := linked.mem_ancestors_of_transGen live cycle
    have listed := (linked.listed live above).2
    exact linked.ne_of_above (linked.listed live above).1 listed member rfl
  free_nodup := linked.free_nodup
  free_iff index := by
    rw [linked.free_iff ⟨index, 0⟩]
    constructor
    · rintro ⟨inside, removed⟩
      exact ⟨inside, by simpa [isRemoved, slot, inside] using removed⟩
    · rintro ⟨inside, removed⟩
      exact ⟨inside, by simpa [isRemoved, slot, inside] using removed⟩
  links_live id live target linkedTo := by
    simp only [links, List.mem_cons, List.not_mem_nil, or_false] at linkedTo
    rcases linkedTo with above | first | last | next | prev
    · exact (linked.listed live above.symm).1
    · rw [HasShape.firstChild_eq linked live] at first
      exact linked.live_of_mem_children live (List.mem_of_head? first.symm)
    · rw [HasShape.lastChild_eq linked live] at last
      exact linked.live_of_mem_children live (List.mem_of_getLast? last.symm)
    · exact linked.live_of_sibling live (.inl next.symm)
    · exact linked.live_of_sibling live (.inr prev.symm)

end WellLinked

/-! ## Operations -/

/-- A change of a document. -/
inductive Operation where
  | create (kind : NodeKind)
  | appendChild (parent child : NodeId)
  | prependChild (parent child : NodeId)
  | insertBefore (reference node : NodeId)
  | insertAfter (reference node : NodeId)
  | detach (id : NodeId)
  | remove (id : NodeId)
  | removeChildren (id : NodeId)
  | graft (tree : Tree)
  | rename (id : NodeId) (name : QName) (uri : Option String)
  | setAttribute (id : NodeId) (attr : Attribute)
  | removeAttribute (id : NodeId) (localName : String) (uri : Option String)
  | setContent (id : NodeId) (content : String)

namespace Operation

/-- The document after a change. -/
def run (doc : Document) : Operation → Document
  | create kind => (doc.create kind).2
  | appendChild parent child => doc.appendChild parent child
  | prependChild parent child => doc.prependChild parent child
  | insertBefore reference node => doc.insertBefore reference node
  | insertAfter reference node => doc.insertAfter reference node
  | detach id => doc.detach id
  | remove id => (doc.remove id).2
  | removeChildren id => (doc.removeChildren id).2
  | graft tree => (doc.graft tree).2
  | rename id name uri => doc.rename id name uri
  | setAttribute id attr => doc.setAttribute id attr
  | removeAttribute id localName uri => (doc.removeAttribute id localName uri).2
  | setContent id content => doc.setContent id content

/-- Whether a node can be placed at a target: it hangs nowhere, is not the document node and does
not hold the target. -/
structure CanPlace (doc : Document) (target node : NodeId) : Prop where
  target_live : doc.IsLive target
  node_live : doc.IsLive node
  orphan : doc.parent node = none
  not_root : node ≠ root
  outside : doc.isAncestorOrSelf node target = false

instance (target node : NodeId) : Decidable (CanPlace doc target node) :=
  decidable_of_iff (doc.IsLive target ∧ doc.IsLive node ∧ doc.parent node = none ∧ node ≠ root ∧
      doc.isAncestorOrSelf node target = false)
    ⟨fun ⟨target, node, orphan, other, outside⟩ => ⟨target, node, orphan, other, outside⟩,
      fun ⟨target, node, orphan, other, outside⟩ => ⟨target, node, orphan, other, outside⟩⟩

/-- What a change may be asked for. Only `remove` may be given the name of a node that is gone. -/
def Admissible (doc : Document) : Operation → Prop
  | create _ | graft _ => True
  | appendChild target node | prependChild target node
  | insertBefore target node | insertAfter target node => CanPlace doc target node
  | remove id => 0 < id.index ∧ id ≠ root
  | detach id | removeChildren id | rename id _ _ | setAttribute id _ | removeAttribute id _ _
  | setContent id _ => doc.IsLive id

instance : (operation : Operation) → Decidable (operation.Admissible doc)
  | create _ | graft _ => inferInstanceAs (Decidable True)
  | appendChild target node | prependChild target node
  | insertBefore target node | insertAfter target node =>
    inferInstanceAs (Decidable (CanPlace doc target node))
  | remove id => inferInstanceAs (Decidable (0 < id.index ∧ id ≠ root))
  | detach id | removeChildren id | rename id _ _ | setAttribute id _ | removeAttribute id _ _
  | setContent id _ => inferInstanceAs (Decidable (doc.IsLive id))

/-- Every change keeps the links in step. -/
theorem wellLinked_run (linked : doc.WellLinked) {operation : Operation}
    (admissible : operation.Admissible doc) : (operation.run doc).WellLinked := by
  have unlisted : ∀ {target node}, CanPlace doc target node → node ∉ doc.ancestors target := by
    intro target node place
    have outside := place.outside
    simpa only [isAncestorOrSelf, List.contains_eq_mem, decide_eq_false_iff_not] using outside
  cases operation with
  | create kind => exact linked.create kind
  | appendChild parent child =>
    exact linked.appendChild admissible.target_live admissible.node_live admissible.orphan
      admissible.not_root (unlisted admissible)
  | prependChild parent child =>
    exact linked.prependChild admissible.target_live admissible.node_live admissible.orphan
      admissible.not_root (unlisted admissible)
  | insertBefore reference node =>
    exact linked.insertBefore admissible.target_live admissible.node_live admissible.orphan
      admissible.not_root (unlisted admissible)
  | insertAfter reference node =>
    exact linked.insertAfter admissible.target_live admissible.node_live admissible.orphan
      admissible.not_root (unlisted admissible)
  | detach id => exact linked.detach admissible
  | remove id => exact linked.remove admissible.1 admissible.2
  | removeChildren id => exact linked.removeChildren admissible
  | graft tree => exact linked.graft tree
  | rename id name uri => exact (SameLinks.rename admissible name uri).wellLinked linked
  | setAttribute id attr => exact (SameLinks.modifyAttributes admissible _).wellLinked linked
  | removeAttribute id localName uri =>
    exact (SameLinks.modifyAttributes admissible _).wellLinked linked
  | setContent id content => exact (SameLinks.setContent admissible content).wellLinked linked

end Operation

/-! ## Runs -/

/-- The documents that runs of changes lead to. -/
inductive Reachable : Document → Prop
  | empty : Reachable empty
  | xml {options : Xml.ParseOptions} {text : String} {doc : Document}
      (parsed : ofXml options text = .ok doc) : Reachable doc
  | bytes {bytes : List UInt8} {doc : Document} (parsed : ofBytes bytes = .ok doc) : Reachable doc
  | html {options : Html.ParseOptions} {text : String} {doc : Document}
      (parsed : Html.parse options text = .ok doc) : Reachable doc
  | step {doc : Document} (operation : Operation) (reached : Reachable doc)
      (admissible : operation.Admissible doc) : Reachable (operation.run doc)

theorem wellLinked_ofBytes {bytes : List UInt8} (parsed : ofBytes bytes = .ok doc) :
    doc.WellLinked := by
  unfold ofBytes at parsed
  split at parsed
  · simp at parsed
  · obtain ⟨middle, read, rfl⟩ := map_eq_ok.mp parsed
    refine SameLinks.wellLinked ?_ (wellLinked_ofXml read)
    exact .of_slots rfl rfl

theorem Reachable.wellLinked (reached : Reachable doc) : doc.WellLinked := by
  induction reached with
  | empty => exact wellLinked_empty
  | xml parsed => exact wellLinked_ofXml parsed
  | bytes parsed => exact wellLinked_ofBytes parsed
  | html parsed => exact Html.wellLinked_parse parsed
  | step operation _ admissible ih => exact operation.wellLinked_run ih admissible

/-- However a document was read and changed, its links are consistent. -/
theorem isConsistent_of_reachable (reached : Reachable doc) : doc.IsConsistent :=
  reached.wellLinked.isConsistent

/-- An element is created and removed again, and a text takes over its slot. -/
theorem isConsistent_reusing : IsConsistent <|
    [.create (.plainElement "a"), .appendChild root ⟨2, 0⟩, .remove ⟨2, 0⟩, .create (.text "t"),
      .prependChild root ⟨2, 1⟩].foldl Operation.run empty := by
  have created := Reachable.step (.create (.plainElement "a")) .empty (by decide)
  have placed := Reachable.step (.appendChild root ⟨2, 0⟩) created (by decide)
  have removed := Reachable.step (.remove ⟨2, 0⟩) placed (by decide)
  have reused := Reachable.step (.create (.text "t")) removed (by decide)
  exact isConsistent_of_reachable (.step (.prependChild root ⟨2, 1⟩) reused (by decide))

end Markup.Document
