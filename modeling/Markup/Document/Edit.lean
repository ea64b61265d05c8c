import Markup.Document.Basic

/-!
# Changing a document

Nodes are created detached and then placed. Removing a node removes everything below it and hands
its slots out again, the slot freed last first. Placing a node expects that it hangs nowhere yet.
-/

namespace Markup.Document

/-- Change what a slot holds. -/
def modify (doc : Document) (id : NodeId) (change : Slot → Slot) : Document :=
  { doc with slots := doc.slots.modify id.index change }

/-! ## Creating -/

/-- Create a detached node, in a freed slot if there is one. -/
def create (doc : Document) (kind : NodeKind) : NodeId × Document :=
  match doc.free with
  | index :: free =>
    let generation := (doc.slots.getD index { kind := .document }).generation + 1
    (⟨index, generation⟩,
      { doc with slots := doc.slots.setIfInBounds index { kind, generation }, free })
  | [] => (⟨doc.slots.size, 0⟩, { doc with slots := doc.slots.push { kind } })

/-! ## Placing -/

/-- Place a node as the last child. -/
def appendChild (doc : Document) (parent child : NodeId) : Document :=
  let last := doc.lastChild parent
  let doc := doc.modify child fun slot => { slot with parent := some parent }
  match last with
  | some last =>
    ((doc.modify last fun slot => { slot with nextSibling := some child }).modify child
      fun slot => { slot with prevSibling := some last }).modify parent
      fun slot => { slot with lastChild := some child }
  | none =>
    doc.modify parent fun slot => { slot with firstChild := some child, lastChild := some child }

/-- Place a node before another one. Nothing is done if that one hangs nowhere. -/
def insertBefore (doc : Document) (reference node : NodeId) : Document :=
  match doc.parent reference with
  | none => doc
  | some parent =>
    let before := doc.prevSibling reference
    let doc := doc.modify node fun slot => { slot with parent := some parent }
    let doc := match before with
      | some before =>
        (doc.modify before fun slot => { slot with nextSibling := some node }).modify node
          fun slot => { slot with prevSibling := some before }
      | none => doc.modify parent fun slot => { slot with firstChild := some node }
    (doc.modify node fun slot => { slot with nextSibling := some reference }).modify reference
      fun slot => { slot with prevSibling := some node }

/-- Place a node after another one. Nothing is done if that one hangs nowhere. -/
def insertAfter (doc : Document) (reference node : NodeId) : Document :=
  match doc.nextSibling reference with
  | some next => doc.insertBefore next node
  | none =>
    match doc.parent reference with
    | some parent => doc.appendChild parent node
    | none => doc

/-- Place a node as the first child. -/
def prependChild (doc : Document) (parent child : NodeId) : Document :=
  match doc.firstChild parent with
  | some first => doc.insertBefore first child
  | none => doc.appendChild parent child

/-- Take a node, with everything below it, out of the children of its parent. -/
def detach (doc : Document) (id : NodeId) : Document :=
  match doc.parent id with
  | none => doc
  | some parent =>
    let before := doc.prevSibling id
    let after := doc.nextSibling id
    let doc := match before with
      | some before => doc.modify before fun slot => { slot with nextSibling := after }
      | none => doc.modify parent fun slot => { slot with firstChild := after }
    let doc := match after with
      | some after => doc.modify after fun slot => { slot with prevSibling := before }
      | none => doc.modify parent fun slot => { slot with lastChild := before }
    doc.modify id fun slot =>
      { slot with parent := none, prevSibling := none, nextSibling := none }

/-! ## Removing -/

/-- Drop what a slot holds and have it used again. -/
def release (doc : Document) (id : NodeId) : Document :=
  let doc := doc.modify id fun slot => { slot with removed := true, kind := .document }
  { doc with free := id.index :: doc.free }

/-- Remove a node with everything below it, and count the removed nodes. -/
def remove (doc : Document) (id : NodeId) : Nat × Document :=
  if !doc.contains id || doc.isRemoved id then (0, doc)
  else
    let doc := doc.detach id
    let gone := id :: doc.descendants id
    (gone.length, gone.foldl release doc)

/-- Remove several nodes, one after the other, and count the removed nodes. -/
def removeAll (doc : Document) (ids : List NodeId) : Nat × Document :=
  ids.foldl (fun (count, doc) id =>
    let (more, doc) := doc.remove id
    (count + more, doc)) (0, doc)

/-- Remove everything below a node, and count the removed nodes. -/
def removeChildren (doc : Document) (id : NodeId) : Nat × Document :=
  doc.removeAll (doc.children id)

/-! ## Changing what a node holds -/

/-- Change what a node is and holds. -/
def modifyKind (doc : Document) (id : NodeId) (change : NodeKind → NodeKind) : Document :=
  doc.modify id fun slot => { slot with kind := change slot.kind }

/-- Give an element another name. -/
def rename (doc : Document) (id : NodeId) (name : QName) (uri : Option String) : Document :=
  doc.modifyKind id fun
    | .element _ _ attributes => .element name uri attributes
    | other => other

/-- Change the attributes of an element. -/
def modifyAttributes (doc : Document) (id : NodeId)
    (change : List Attribute → List Attribute) : Document :=
  doc.modifyKind id fun
    | .element name uri attributes => .element name uri (change attributes)
    | other => other

/-- Give an element an attribute. -/
def setAttribute (doc : Document) (id : NodeId) (attr : Attribute) : Document :=
  doc.modifyAttributes id attr.putIn

/-- Take attributes from an element, and say whether there were any. Declarations stay. -/
def removeAttribute (doc : Document) (id : NodeId) (localName : String)
    (uri : Option String) : Bool × Document :=
  ((doc.attributes id).any (·.isNamed localName uri),
    doc.modifyAttributes id fun attributes =>
      attributes.filter fun attr => !attr.isNamed localName uri)

/-- Replace the text that a text, CDATA or comment node holds. -/
def setContent (doc : Document) (id : NodeId) (content : String) : Document :=
  doc.modifyKind id fun
    | .text _ => .text content
    | .cdata _ => .cdata content
    | .comment _ => .comment content
    | other => other

/-! ## Copying trees in -/

/-- Create copies of trees as the last children of a node. Each copy comes with the trees still to
be copied below it, the last copy first. -/
def plant (doc : Document) (parent : NodeId) (trees : List Tree) :
    List (NodeId × List Tree) × Document :=
  trees.foldl (fun (planted, doc) tree =>
    let (id, doc) := doc.create tree.kind
    ((id, tree.children) :: planted, doc.appendChild parent id)) ([], doc)

/-- The number of nodes still to be copied, with one for every node to copy them below. -/
def outstanding : List (NodeId × List Tree) → Nat
  | [] => 0
  | entry :: rest => 1 + Tree.sizeAll entry.2 + outstanding rest

theorem outstanding_append (left right : List (NodeId × List Tree)) :
    outstanding (left ++ right) = outstanding left + outstanding right := by
  induction left with
  | nil => simp [outstanding]
  | cons entry rest ih => simp only [List.cons_append, outstanding, ih]; omega

theorem outstanding_plant (doc : Document) (parent : NodeId) (trees : List Tree) :
    outstanding (doc.plant parent trees).1 = Tree.sizeAll trees := by
  have general : ∀ (trees : List Tree) (start : List (NodeId × List Tree) × Document),
      outstanding (trees.foldl (fun (planted, doc) tree =>
        let (id, doc) := doc.create tree.kind
        ((id, tree.children) :: planted, doc.appendChild parent id)) start).1 =
      Tree.sizeAll trees + outstanding start.1 := by
    intro trees
    induction trees with
    | nil => intro start; simp [Tree.sizeAll]
    | cons tree rest ih =>
      intro start
      rw [List.foldl_cons, ih]
      cases tree
      simp [outstanding, Tree.sizeAll, Tree.size, Tree.children]
      omega
  simpa [plant, outstanding] using general trees ([], doc)

/-- Copy trees below nodes. The children of a node are copied together, and then what is below the
last of them comes first. -/
def plantAll (doc : Document) (work : List (NodeId × List Tree)) : Document :=
  match work with
  | [] => doc
  | (parent, trees) :: rest =>
    let planted := doc.plant parent trees
    plantAll planted.2 (planted.1 ++ rest)
  termination_by outstanding work
  decreasing_by
    have count := outstanding_plant doc parent trees
    simp only [outstanding_append, outstanding]
    omega

/-- Copy a tree into a document. The copy is detached. -/
def graft (doc : Document) (tree : Tree) : NodeId × Document :=
  let (id, doc) := doc.create tree.kind
  (id, doc.plantAll [(id, tree.children)])

end Markup.Document
