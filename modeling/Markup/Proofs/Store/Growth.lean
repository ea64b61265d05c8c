import Markup.Document.Draft
import Markup.Proofs.Store.Grow

/-!
# What growth keeps

A document grows in three steps: a node is created, it is placed, and an element gets an attribute.
What each step keeps is kept by all that is built in such steps: by copies of trees and by drafts.
-/

namespace Markup

/-- Whether all attributes in a tree are of some sort. -/
inductive Tree.HasOnly (sort : Attribute → Prop) : Tree → Prop
  | node {kind : NodeKind} {children : List Tree} (own : ∀ attr ∈ kind.attributes, sort attr)
      (below : ∀ child ∈ children, child.HasOnly sort) : HasOnly sort (.node kind children)

namespace Tree.HasOnly

variable {sort : Attribute → Prop} {tree : Tree}

theorem kind (only : tree.HasOnly sort) : ∀ attr ∈ tree.kind.attributes, sort attr := by
  cases only with
  | node own _ => exact own

theorem children (only : tree.HasOnly sort) : ∀ child ∈ tree.children, child.HasOnly sort := by
  cases only with
  | node _ below => exact below

/-- Attributes of a sort that all are of are all that a tree has. -/
theorem of_all (all : ∀ attr, sort attr) (tree : Tree) : tree.HasOnly sort := by
  induction tree using Tree.induction with
  | node kind children ih => exact .node (fun attr _ => all attr) ih

end Tree.HasOnly

theorem Xml.Draft.hasOnly_toTrees {sort : Attribute → Prop} {drafts : List Draft}
    (only : ∀ tree ∈ toTrees drafts, tree.HasOnly sort) :
    ∀ draft ∈ drafts, draft.toTree.HasOnly sort := by
  induction drafts with
  | nil => nofun
  | cons draft rest ih =>
    obtain ⟨first, later⟩ := List.forall_mem_cons.mp only
    exact List.forall_mem_cons.mpr ⟨first, ih later⟩

namespace Document

/-- What stays true of a document while nodes are created and placed, as long as all attributes that
come in are of some sort. -/
structure IsKept (sort : Attribute → Prop) (motive : Document → Prop) : Prop where
  create : ∀ {doc} {kind : NodeKind}, motive doc → (∀ attr ∈ kind.attributes, sort attr) →
    motive (doc.create kind).2
  appendChild : ∀ {doc} parent child, motive doc → motive (doc.appendChild parent child)
  insertBefore : ∀ {doc} reference node, motive doc → motive (doc.insertBefore reference node)
  setAttribute : ∀ {doc} id {attr}, motive doc → sort attr → motive (doc.setAttribute id attr)

namespace IsKept

variable {sort : Attribute → Prop} {motive : Document → Prop} {doc : Document} {parent : NodeId}
  {work : List (NodeId × List Tree)}
variable (kept : IsKept sort motive)
include kept

theorem grow {kind : NodeKind} (before : motive doc) (own : ∀ attr ∈ kind.attributes, sort attr) :
    motive (doc.grow parent kind) :=
  kept.appendChild _ _ (kept.create before own)

/-- A row of children is planted, and what is still to be planted below them has no other
attributes either. -/
theorem plant {trees : List Tree} (before : motive doc) (only : ∀ tree ∈ trees, tree.HasOnly sort) :
    motive (doc.plant parent trees).2 ∧
      ∀ entry ∈ (doc.plant parent trees).1, ∀ tree ∈ entry.2, tree.HasOnly sort := by
  rw [Document.plant]
  have none : ∀ entry ∈ ([] : List (NodeId × List Tree)), ∀ tree ∈ entry.2, tree.HasOnly sort :=
    List.forall_mem_nil _
  generalize ([] : List (NodeId × List Tree)) = row at none ⊢
  induction trees generalizing doc row with
  | nil => exact ⟨before, none⟩
  | cons tree rest ih =>
    obtain ⟨first, later⟩ := List.forall_mem_cons.mp only
    exact ih (kept.grow before first.kind) later _
      (List.forall_mem_cons.mpr ⟨first.children, none⟩)

theorem plantAll (before : motive doc)
    (only : ∀ entry ∈ work, ∀ tree ∈ entry.2, tree.HasOnly sort) : motive (doc.plantAll work) := by
  fun_induction Document.plantAll doc work with
  | case1 doc => exact before
  | case2 doc parent trees rest planted ih =>
    obtain ⟨first, later⟩ := List.forall_mem_cons.mp only
    obtain ⟨after, below⟩ := kept.plant before first
    exact ih after (List.forall_mem_append.mpr ⟨below, later⟩)

theorem graft {tree : Tree} (before : motive doc) (only : tree.HasOnly sort) :
    motive (doc.graft tree).2 :=
  kept.plantAll (kept.create before only.kind) (List.forall_mem_singleton.mpr only.children)

omit kept in
mutual

theorem addDraft (kept : IsKept sort motive) : (draft : Xml.Draft) → {doc : Document} →
    {parent : NodeId} → motive doc → draft.toTree.HasOnly sort → motive (doc.addDraft parent draft)
  | .written kind children, _, parent, before, only => by
    rw [Document.addDraft]
    exact addDrafts kept children (kept.grow before only.kind)
      (Xml.Draft.hasOnly_toTrees only.children)
  | .copied tree, _, parent, before, only => by
    rw [Document.addDraft]
    exact kept.appendChild _ _ (kept.graft before only)

/-- What growth keeps holds after drafts were added. -/
theorem addDrafts (kept : IsKept sort motive) : (drafts : List Xml.Draft) → {doc : Document} →
    {parent : NodeId} → motive doc → (∀ draft ∈ drafts, draft.toTree.HasOnly sort) →
      motive (doc.addDrafts parent drafts)
  | [], _, parent, before, _ => by
    rw [Document.addDrafts]
    exact before
  | draft :: rest, _, parent, before, only => by
    obtain ⟨first, later⟩ := List.forall_mem_cons.mp only
    rw [Document.addDrafts]
    exact addDrafts kept rest (addDraft kept draft before first) later

end

end IsKept
end Document
end Markup
