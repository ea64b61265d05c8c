import Markup.Proofs.Xml.Dropping
import Markup.Proofs.Xml.RoundTrip

/-!
# Texts that are maximal

Character data may come in pieces: one piece ends where replacement text with markup in it begins,
and another where it ends. A piece that is put after a text goes into that text. So no text of a
document is empty and none follows another, however deep replacement texts are nested, whether or
not problems are stepped over and blank text is dropped. No character is lost or moved by that.
-/

namespace Markup

namespace Tree

mutual

/-- Whether no text in a tree is empty or stands beside another. -/
def TextsMaximal : Tree → Prop
  | .node kind children =>
    kind ≠ .text "" ∧ TextsMaximalAll children ∧ children.IsChain Xml.Apart

/-- Whether no text in any of some trees is empty or stands beside another there. -/
def TextsMaximalAll : List Tree → Prop
  | [] => True
  | tree :: rest => TextsMaximal tree ∧ TextsMaximalAll rest

end

theorem textsMaximalAll_iff {trees : List Tree} :
    TextsMaximalAll trees ↔ ∀ tree ∈ trees, tree.TextsMaximal := by
  induction trees with
  | nil => simp [TextsMaximalAll]
  | cons tree rest ih => rw [TextsMaximalAll, ih, List.forall_mem_cons]

end Tree

namespace Xml

open Markup.Tree

variable {tree : Tree} {trees before : List Tree}

/-! ## Texts that are joined are maximal -/

/-- What is put after others stands apart from the last of them, or goes into it. -/
theorem isChain_putAfter (chain : before.IsChain Apart) : (putAfter before tree).IsChain Apart := by
  rcases putAfter_eq before tree with ⟨put, apart⟩ |
    ⟨earlier, content, left, right, rest, rfl, rfl, put⟩
  · rw [put, List.isChain_cons]
    exact ⟨fun last mem => (apart last mem).symm, chain⟩
  · rw [put]
    apply chain.imp_head
    intro other apart
    exact (show Apart (.leaf (.text (earlier ++ content))) other from apart)

theorem isChain_joinedOnto (chain : before.IsChain Apart) :
    (joinedOnto before trees).IsChain Apart := by
  induction trees generalizing before with
  | nil => exact chain
  | cons tree rest ih => exact ih (isChain_putAfter chain)

/-- Pieces of text that are not empty are maximal once they are joined. -/
theorem textsMaximal_joined (solid : Solid tree) : (joined tree).TextsMaximal := by
  induction tree using Tree.induction with
  | node kind children ih =>
    have filled : kind ≠ .text "" := by
      rintro rfl
      exact solid.1 rfl
    have merge (earlier content : String) (left right : List Tree)
        (first : (Tree.node (.text earlier) left).TextsMaximal)
        (_ : (Tree.node (.text content) right).TextsMaximal) :
        (Tree.leaf (.text (earlier ++ content))).TextsMaximal := by
      refine ⟨fun nothing => first.1 ?_, trivial, .nil⟩
      rw [(String.append_eq_empty_iff.mp (NodeKind.text.inj nothing)).1]
    have each : ∀ found ∈ joinedOnto [] children, found.TextsMaximal :=
      forall_mem_joinedOnto merge (List.forall_mem_nil _) fun child mem =>
        ih child mem (solidAll_iff.mp solid.below child mem)
    refine ⟨filled, textsMaximalAll_iff.mpr fun found mem => ?_, ?_⟩
    · exact each found (List.mem_reverse.mp mem)
    · rw [List.isChain_reverse]
      exact (isChain_joinedOnto .nil).imp fun _ _ apart => apart.symm

/-! ## Where texts are joined, every character stays -/

theorem atomsAll_putAfter :
    atomsAll (putAfter before tree).reverse = atomsAll before.reverse ++ tree.atoms := by
  rcases putAfter_eq before tree with ⟨put, -⟩ |
    ⟨earlier, content, left, right, rest, rfl, rfl, put⟩
  · rw [put, List.reverse_cons, atomsAll_append, atomsAll, atomsAll, List.append_nil]
  · have text (content : String) (children : List Tree) :
        atomsAll [.node (.text content) children] = singles content.toList := List.append_nil _
    rw [put, List.reverse_cons, List.reverse_cons, atomsAll_append, atomsAll_append, Tree.leaf,
      text, text, String.toList_append, singles_append, List.append_assoc]
    rfl

theorem atomsAll_joinedOnto (each : ∀ tree ∈ trees, (joined tree).atoms = tree.atoms) :
    atomsAll (joinedOnto before trees).reverse = atomsAll before.reverse ++ atomsAll trees := by
  induction trees generalizing before with
  | nil => exact (List.append_nil _).symm
  | cons tree rest ih =>
    obtain ⟨here, others⟩ := List.forall_mem_cons.mp each
    rw [joinedOnto, ih others, atomsAll_putAfter, here, atomsAll, List.append_assoc]

theorem atoms_joined (tree : Tree) : (joined tree).atoms = tree.atoms := by
  induction tree using Tree.induction with
  | node kind children ih =>
    have below : atomsAll (joinedOnto [] children).reverse = atomsAll children :=
      atomsAll_joinedOnto ih
    rw [joined]
    cases kind with
    | text => rfl
    | _ => rw [atoms_of_not_isText rfl, atoms_of_not_isText rfl, below]

end Xml

/-! ## Texts of documents -/

/-- Along a walk each node is related to the next exactly if the list of its nodes is a chain. -/
theorem Leads.isChain_iff {next : NodeId → Option NodeId} {start : Option NodeId}
    {list : List NodeId} {related : NodeId → NodeId → Prop} (walk : Leads next start list) :
    list.IsChain related ↔ ∀ id ∈ list, ∀ after, next id = some after → related id after := by
  induction list generalizing start with
  | nil => simp
  | cons id rest ih =>
    rw [List.isChain_cons, List.forall_mem_cons, ih walk.2, walk.2.start_eq]
    rfl

namespace Document

variable {doc : Document} {id next : NodeId}

/-- No text of a document is empty, and none is followed by another. -/
structure TextsMaximal (doc : Document) : Prop where
  filled : ∀ id, doc.isAttached id = true → doc.kind id ≠ .text ""
  apart : ∀ id next, doc.isAttached id = true → doc.nextSibling id = some next →
    ∀ earlier later, doc.kind id = .text earlier → doc.kind next ≠ .text later

theorem isText_tree_iff :
    Xml.isText (doc.tree id) = true ↔ ∃ content, doc.kind id = .text content := by
  rw [Xml.isText, kind_tree]
  cases doc.kind id <;> simp

theorem apart_tree_iff : Xml.Apart (doc.tree id) (doc.tree next) ↔
    ∀ earlier later, doc.kind id = .text earlier → doc.kind next ≠ .text later := by
  rw [Xml.Apart, ← Bool.not_eq_true, ← Bool.not_eq_true, isText_tree_iff, isText_tree_iff]
  constructor
  · rintro (first | second) earlier later left right
    · exact first ⟨earlier, left⟩
    · exact second ⟨later, right⟩
  · intro apart
    by_cases text : ∃ earlier, doc.kind id = .text earlier
    · obtain ⟨earlier, left⟩ := text
      exact .inr fun ⟨later, right⟩ => apart earlier later left right
    · exact .inl text

/-- The texts below a node are those in its tree. -/
theorem textsMaximal_tree_iff (linked : doc.WellLinked) (live : doc.IsLive id) :
    (doc.tree id).TextsMaximal ↔ ∀ other ∈ doc.preorder id, doc.kind other ≠ .text "" ∧
      ∀ child ∈ doc.children other, ∀ next, doc.nextSibling child = some next →
        Xml.Apart (doc.tree child) (doc.tree next) := by
  refine linked.induction (motive := fun id => (doc.tree id).TextsMaximal ↔
    ∀ other ∈ doc.preorder id, doc.kind other ≠ .text "" ∧
      ∀ child ∈ doc.children other, ∀ next, doc.nextSibling child = some next →
        Xml.Apart (doc.tree child) (doc.tree next)) ?_ id live
  intro id live ih
  rw [linked.tree_eq live, linked.preorder_eq live, Tree.TextsMaximal, Tree.textsMaximalAll_iff,
    List.forall_mem_map, List.isChain_map, (linked.forward live).isChain_iff, List.forall_mem_cons,
    List.forall_mem_flatMap, and_assoc]
  refine and_congr_right fun _ => and_comm.trans ?_
  exact and_congr_right fun _ => forall₂_congr ih

/-- The texts of a document are those in its tree. -/
theorem WellLinked.textsMaximal_iff (linked : doc.WellLinked) :
    doc.TextsMaximal ↔ (doc.tree root).TextsMaximal := by
  rw [textsMaximal_tree_iff linked linked.root_live, ← linked.order_eq]
  constructor
  · intro maximal other listed
    have attached := linked.mem_order_iff.mp listed
    refine ⟨maximal.filled other attached, fun child member next beside => ?_⟩
    exact apart_tree_iff.mpr
      (maximal.apart child next (linked.isAttached_child attached member) beside)
  · intro each
    refine ⟨fun id attached => (each id (linked.mem_order_iff.mpr attached)).1,
      fun id next attached beside => ?_⟩
    have live := linked.live_of_isAttached attached
    -- A node with a sibling hangs somewhere, and there the two are children one after the other.
    obtain ⟨parent, above⟩ : ∃ parent, doc.parent id = some parent := by
      rw [← Option.ne_none_iff_exists']
      intro top
      rw [(linked.alone live top).1] at beside
      cases beside
    have inTree := linked.mem_order_iff.mpr (linked.isAttached_parent attached above)
    exact apart_tree_iff.mp ((each parent inTree).2 id (linked.listed live above).2 next beside)

end Document

namespace Xml

open Markup.Tree

/-- The texts of a document that is read are maximal. It holds the characters of the pieces of text
that are kept, each in its place. -/
theorem textsMaximal_ofXml {options : ParseOptions} {text : String} {doc : Document}
    (parsed : Document.ofXml options text = .ok doc) :
    doc.TextsMaximal ∧ ∃ reading : Reading options text, (doc.tree Document.root).atoms =
      (reading.pieces.without (drops options.noBlanks)).atoms := by
  obtain ⟨reading, rfl⟩ := Reading.exists_of_ofXml parsed
  have linked := Document.wellLinked_ofXml reading.ofXml_eq_ok
  obtain ⟨pieces, same, joins⟩ := reading.isJoined
  have solid : Solid reading.pieces := same ▸ joins.solid
  rw [linked.textsMaximal_iff, reading.tree_eq]
  exact ⟨textsMaximal_joined solid.without, reading, atoms_joined _⟩

/-- The blank after the reference goes into the text that the entity begins. -/
theorem textsMaximal_ofXml_marked : ∃ doc, Document.ofXml {} markedText = .ok doc ∧
    doc.tree Document.root = .node .document [.leaf (.doctype "a" none none),
      .node (.plainElement "a") [.leaf (.plainElement "b"), .leaf (.text "x ")]] ∧
    doc.TextsMaximal ∧ ∃ reading : Reading {} markedText, (doc.tree Document.root).atoms =
      (reading.pieces.without (drops false)).atoms := by
  obtain ⟨reading, nodes, tag, events, -, late⟩ := exists_reading_marked
  have tree_eq := reading.tree_eq
  rw [Reading.pieces, nodes, tag, events, late] at tree_eq
  exact ⟨_, reading.ofXml_eq_ok, tree_eq.trans rfl, textsMaximal_ofXml reading.ofXml_eq_ok⟩

end Xml
end Markup
