import Markup.Proofs.Workspace.Placement

/-!
# Changes in place

A document can be changed in place, one step after the other, and then nothing takes back the steps
before a refusal. The calls on handles do not need that: each of them checks all that it may be
refused for before its first step. So it makes no difference that they are made in place, and a call
that is refused leaves no trace in any open document.
-/

namespace Markup

open Document

/-! ## Programs

A program goes by the name of the function that makes the same change at one stroke. Every look at
the document and every step is by itself. -/

/-- A program that changes a document in place. When it is refused, its steps so far stay done. -/
abbrev Edit := ExceptT Refusal (StateM Document)

namespace Edit

variable {α β : Type}

/-- Read something off the document, which may be a reason to refuse. -/
def look (test : Document → Except Refusal α) : Edit α := do
  match test (← get) with
  | .ok value => return value
  | .error refusal => throw refusal

/-- Change the document and tell something of it. -/
def step (change : Document → α × Document) : Edit α := modifyGet change

/-- Change the document. -/
def change (change : Document → Document) : Edit Unit := step fun doc => ((), change doc)

/-! ### Names and attributes -/

def retag (id : NodeId) (written : String) : Edit Unit := do
  match ← look fun doc => .ok (doc.kind id) with
  | .element current uri _ => do
    let name ← look fun _ => demandName written
    match name.nsPrefix with
    | some nsPrefix => do
      let found ← look fun doc => doc.demandNamespace id nsPrefix
      change fun doc => doc.rename id name (some found)
    | none => change fun doc => doc.rename id ⟨current.nsPrefix, name.localName⟩ uri
  | _ => throw (.misuse .noTag)

def assign (id : NodeId) (written : String) (given : Option String) (value : String) :
    Edit Unit := do
  look fun doc => demand (doc.kind id).isElement (.misuse .attributeOfOther)
  look fun _ => demandWritable value
  let name ← look fun doc => doc.attributeName id written given
  look fun _ => demand (!(Attribute.mk name none value).isDeclaration) (.invalidName written)
  match name.nsPrefix with
  | some nsPrefix => do
    let uri ← look fun doc => doc.demandNamespace id nsPrefix
    change fun doc => doc.setAttribute id ⟨name, some uri, value⟩
  | none => change fun doc => doc.setAttribute id ⟨name, none, value⟩

def unassign (id : NodeId) (written : String) : Edit Unit := do
  match QName.ofText written with
  | ⟨none, localName⟩ => change fun doc => (doc.removeAttribute id localName none).2
  | ⟨some nsPrefix, localName⟩ =>
    match ← look fun doc => .ok (doc.namespaceOf? id (some nsPrefix)) with
    | some uri => change fun doc => (doc.removeAttribute id localName (some uri)).2
    | none => return ()

def unassignIn (id : NodeId) (localName given : String) : Edit Unit := do
  let uri ← look fun doc => .ok (doc.namespaceMeant id given)
  change fun doc => (doc.removeAttribute id localName (some uri)).2

/-! ### Nodes -/

def removeEach (ids : List NodeId) : Edit Unit :=
  ids.forM fun id => change fun doc => (doc.remove id).2

def removeChildren (id : NodeId) : Edit Unit := do
  removeEach (← look fun doc => .ok (doc.children id))

def removeNamed (id : NodeId) (localName given : Option String) : Edit Unit := do
  let uri ← look fun doc => .ok (given.map (doc.namespaceMeant id))
  removeEach (← look fun doc => .ok (doc.elementsNamed id localName uri))

def extend (id : NodeId) (kind : NodeKind) : Edit NodeId := do
  let child ← step fun doc => doc.create kind
  change fun doc => doc.appendChild id child
  return child

def extendElement (id : NodeId) (written : String) : Edit NodeId := do
  look fun doc => doc.demandElement id
  let name ← look fun _ => demandName written
  match name.nsPrefix with
  | some nsPrefix => do
    let uri ← look fun doc => doc.demandNamespace id nsPrefix
    extend id (.element name (some uri) [])
  | none => do
    let uri ← look fun doc => .ok (doc.namespaceOf? id none)
    extend id (.element name uri [])

def extendText (id : NodeId) (value : String) : Edit NodeId := do
  look fun doc => doc.demandElement id
  look fun _ => demandWritable value
  extend id (.text value)

def replaceText (id : NodeId) (value : String) : Edit Unit := do
  look fun _ => demandWritable value
  match ← look fun doc => .ok (doc.kind id) with
  | .element .. => do
    removeChildren id
    if value.isEmpty then return () else discard (extend id (.text value))
  | .text _ | .cdata _ => change fun doc => doc.setContent id value
  | .comment _ => do
    look fun _ => demand (fitsComment value) (.misuse .commentText)
    change fun doc => doc.setContent id value
  | _ => throw (.misuse .noText)

/-! ### Moving and copying -/

/-- Place a detached node and declare what it needs there. -/
def settleAt (target node : NodeId) (placement : Placement)
    (needed : List (Option String × String)) : Edit Unit := do
  change fun doc => doc.place target node placement
  let missing ← look fun doc => .ok (doc.missingDeclarations node needed)
  change fun doc => doc.modifyAttributes node fun attributes => missing ++ attributes

def move (target node : NodeId) (placement : Placement) : Edit Unit := do
  look fun doc => demand (doc.isAttached node) .gone
  look fun doc => doc.demandPlace target placement
  look fun doc => demand (!doc.isAncestorOrSelf node target) (.misuse .ownSubtree)
  let needed ← look fun doc => .ok (doc.inheritedBindings node)
  change fun doc => doc.detach node
  settleAt target node placement needed

def copyIn (target : NodeId) (tree : Tree) (needed : List (Option String × String))
    (placement : Placement) : Edit NodeId := do
  look fun doc => doc.demandPlace target placement
  let copy ← step fun doc => doc.graft tree
  settleAt target copy placement needed
  return copy

/-! ## Runs of programs -/

variable {γ : Type} {doc : Document} {id : NodeId}

/-- What is left when a document is changed at one stroke or not at all: what an outcome tells and
the changed document, or after a refusal the document as it was. -/
def conclude (doc : Document) (tell : γ → α × Document) :
    Except Refusal γ → Except Refusal α × Document
  | .ok value => (.ok (tell value).1, (tell value).2)
  | .error refusal => (.error refusal, doc)

/-- A change that tells nothing. -/
def silent (changed : Document) : Unit × Document := ((), changed)

/-- A change that tells something. -/
def told (result : α × Document) : α × Document := result

theorem run_look (test : Document → Except Refusal α) (doc : Document) :
    (look test).run doc = (test doc, doc) := by
  have unfolded : (look test).run doc =
      (match test doc with
        | .ok value => pure value
        | .error refusal => throw refusal : Edit α).run doc := rfl
  rw [unfolded]
  cases test doc <;> rfl

theorem run_read_bind (read : Document → α) (next : α → Edit β) (doc : Document) :
    ((look fun doc => .ok (read doc)) >>= next).run doc = (next (read doc)).run doc := by
  rw [run_bind, run_look]

/-- A look may be a reason to refuse, but it changes nothing. -/
theorem run_look_bind {test : Document → Except Refusal α} {next : α → Edit β}
    {result : α → Except Refusal γ} {tell : γ → β × Document}
    (rest : ∀ value, (next value).run doc = conclude doc tell (result value)) :
    (look test >>= next).run doc = conclude doc tell (test doc >>= result) := by
  rw [run_bind, run_look]
  cases test doc with
  | ok value => exact rest value
  | error refusal => rfl

theorem run_step_bind (change : Document → α × Document) (next : α → Edit β) (doc : Document) :
    (step change >>= next).run doc = (next (change doc).1).run (change doc).2 := rfl

theorem run_retag (doc : Document) (id : NodeId) (written : String) :
    (retag id written).run doc = conclude doc silent (doc.retag id written) := by
  rw [retag, run_read_bind]
  unfold Document.retag
  cases doc.kind id with
  | element current uri attributes =>
    refine run_look_bind fun name => ?_
    cases name.nsPrefix with
    | none => rfl
    | some nsPrefix => exact run_look_bind fun found => rfl
  | _ => rfl

theorem run_assign (doc : Document) (id : NodeId) (written : String) (given : Option String)
    (value : String) :
    (assign id written given value).run doc =
      conclude doc silent (doc.assign id written given value) := by
  refine run_look_bind fun _ => run_look_bind fun _ => run_look_bind fun name =>
    run_look_bind fun _ => ?_
  cases name.nsPrefix with
  | none => rfl
  | some nsPrefix => exact run_look_bind fun uri => rfl

theorem run_unassign (doc : Document) (id : NodeId) (written : String) :
    (unassign id written).run doc = (.ok (), doc.unassign id written) := by
  rw [unassign, Document.unassign]
  obtain ⟨nsPrefix | nsPrefix, localName⟩ := QName.ofText written
  · rfl
  · dsimp only
    rw [run_read_bind]
    cases doc.namespaceOf? id (some nsPrefix) <;> rfl

theorem run_unassignIn (doc : Document) (id : NodeId) (localName given : String) :
    (unassignIn id localName given).run doc = (.ok (), doc.unassignIn id localName given) :=
  run_read_bind _ _ doc

theorem run_removeEach (ids : List NodeId) (doc : Document) :
    (removeEach ids).run doc = (.ok (), (doc.removeAll ids).2) := by
  rw [Document.removeAll]
  generalize 0 = count
  induction ids generalizing doc count with
  | nil => rfl
  | cons id rest ih => exact ih (doc.remove id).2 _

theorem run_removeChildren (doc : Document) (id : NodeId) :
    (removeChildren id).run doc = (.ok (), (doc.removeChildren id).2) := by
  rw [removeChildren, run_read_bind, run_removeEach, Document.removeChildren]

theorem run_removeNamed (doc : Document) (id : NodeId) (localName given : Option String) :
    (removeNamed id localName given).run doc = (.ok (),
      (doc.removeAll (doc.elementsNamed id localName (given.map (doc.namespaceMeant id)))).2) := by
  rw [removeNamed, run_read_bind, run_read_bind, run_removeEach]

theorem run_extendElement (doc : Document) (id : NodeId) (written : String) :
    (extendElement id written).run doc =
      conclude doc told (doc.extendElement id written) := by
  refine run_look_bind fun _ => run_look_bind fun name => ?_
  cases name.nsPrefix with
  | none => exact run_read_bind _ _ doc
  | some nsPrefix => exact run_look_bind fun uri => rfl

theorem run_extendText (doc : Document) (id : NodeId) (value : String) :
    (extendText id value).run doc = conclude doc told (doc.extendText id value) :=
  run_look_bind fun _ => run_look_bind fun _ => rfl

theorem run_replaceText (doc : Document) (id : NodeId) (value : String) :
    (replaceText id value).run doc = conclude doc silent (doc.replaceText id value) := by
  refine run_look_bind fun _ => ?_
  rw [run_read_bind]
  cases doc.kind id with
  | element name uri attributes =>
    dsimp only
    rw [run_bind, run_removeChildren]
    cases value.isEmpty <;> rfl
  | comment content => exact run_look_bind fun _ => rfl
  | _ => rfl

theorem run_settleAt (doc : Document) (target node : NodeId) (placement : Placement)
    (needed : List (Option String × String)) :
    (settleAt target node placement needed).run doc =
      (.ok (), (doc.place target node placement).settle node needed) := by
  rw [settleAt, change, run_step_bind, run_read_bind]
  rfl

theorem run_move (doc : Document) (target node : NodeId) (placement : Placement) :
    (move target node placement).run doc = conclude doc silent (doc.move target node placement) := by
  refine run_look_bind fun _ => run_look_bind fun _ => run_look_bind fun _ => ?_
  rw [run_read_bind, change, run_step_bind, run_settleAt]
  rfl

theorem run_copyIn (doc : Document) (target : NodeId) (tree : Tree)
    (needed : List (Option String × String)) (placement : Placement) :
    (copyIn target tree needed placement).run doc =
      conclude doc told (doc.copyIn target tree needed placement) := by
  refine run_look_bind fun _ => ?_
  rw [run_step_bind, run_bind, run_settleAt]
  rfl

end Edit

/-! ## Calls on handles -/

namespace Handle

variable {α : Type} {handle : Handle}

/-- Run a program on the document of a handle that holds. What the program leaves is kept, whether
or not it was refused. -/
def write (handle : Handle) (program : NodeId → Edit α) : Session α := do
  let doc ← Session.tree handle.document
  if doc.isAttached handle.node then
    let (outcome, left) := (program handle.node).run doc
    Session.modifyOpened handle.document fun opened => { opened with tree := left }
    Session.ofExcept outcome
  else throw .gone

/-- A node that was created before a refusal stays. -/
example : ((((Handle.mk 0 root).write fun _ => do
    let _ ← Edit.step fun doc => doc.create .document
    throw .gone : Session Unit).effect { documents := #[default] }).tree 0).nodeCount = 2 := rfl

theorem run_write (handle : Handle) (program : NodeId → Edit α) (workspace : Workspace) :
    (handle.write program).run workspace =
      if (workspace.tree handle.document).isAttached handle.node then
        (((program handle.node).run (workspace.tree handle.document)).1,
          workspace.put handle.document
            ((program handle.node).run (workspace.tree handle.document)).2)
      else (.error .gone, workspace) := by
  have unfolded : (handle.write program).run workspace =
      (if (workspace.tree handle.document).isAttached handle.node then do
        Session.modifyOpened handle.document fun opened =>
          { opened with tree := ((program handle.node).run (workspace.tree handle.document)).2 }
        Session.ofExcept ((program handle.node).run (workspace.tree handle.document)).1
      else throw .gone : Session α).run workspace := rfl
  rw [unfolded]
  split
  · cases ((program handle.node).run (workspace.tree handle.document)).1 <;> rfl
  · rfl

/-- A program that does what a change tells, or nothing, may be run in place of the change. -/
theorem write_eq_edit {program : NodeId → Edit α}
    {change : Document → NodeId → Except Refusal (α × Document)}
    (does : ∀ doc id, (program id).run doc = Edit.conclude doc Edit.told (change doc id)) :
    handle.write program = handle.edit change := by
  funext workspace
  refine (run_write handle program workspace).trans (.trans ?_ (run_edit handle change workspace).symm)
  rw [does]
  cases change (workspace.tree handle.document) handle.node with
  | ok result => rfl
  | error refusal => rw [Edit.conclude, Workspace.put_tree]

theorem write_eq_editOnly {program : NodeId → Edit Unit}
    {change : Document → NodeId → Except Refusal Document}
    (does : ∀ doc id, (program id).run doc = Edit.conclude doc Edit.silent (change doc id)) :
    handle.write program = handle.editOnly change := by
  refine write_eq_edit fun doc id => ?_
  rw [does]
  cases change doc id <;> rfl

theorem write_eq_editOnly_ok {program : NodeId → Edit Unit} {change : Document → NodeId → Document}
    (does : ∀ doc id, (program id).run doc = (.ok (), change doc id)) :
    handle.write program = handle.editOnly fun doc id => .ok (change doc id) :=
  write_eq_editOnly does

/-- Insert a node in place. Out of another document it is copied first. -/
def insertInPlace (handle : Handle) (node : Handle) (placement : Placement) : Session Handle := do
  if handle.document = node.document then
    handle.write fun target => Edit.move target node.node placement
    return node
  else
    let (tree, needed) ← node.readOff fun doc id => (doc.tree id, doc.inheritedBindings id)
    return handle.sibling
      (← handle.write fun target => Edit.copyIn target tree needed placement)

theorem insertInPlace_eq (handle node : Handle) (placement : Placement) :
    handle.insertInPlace node placement = handle.insert node placement := by
  have moved : (handle.write fun target => Edit.move target node.node placement) =
      handle.editOnly fun doc target => doc.move target node.node placement :=
    write_eq_editOnly fun doc target => Edit.run_move doc target node.node placement
  have copied : ∀ tree needed,
      (handle.write fun target => Edit.copyIn target tree needed placement) =
        handle.edit fun doc target => doc.copyIn target tree needed placement := fun tree needed =>
    write_eq_edit fun doc target => Edit.run_copyIn doc target tree needed placement
  simp only [insertInPlace, insert, moved, copied]

end Handle

/-- Make a call on a handle in place. -/
def Mutation.inPlace (handle : Handle) : Mutation → Session Unit
  | setTag written => handle.write fun id => Edit.retag id written
  | setAttribute written given value => handle.write fun id => Edit.assign id written given value
  | removeAttribute written => handle.write fun id => Edit.unassign id written
  | removeAttributeIn localName given => handle.write fun id => Edit.unassignIn id localName given
  | setText value => handle.write fun id => Edit.replaceText id value
  | addText value => discard do
    return handle.sibling (← handle.write fun id => Edit.extendText id value)
  | addElement written => discard do
    return handle.sibling (← handle.write fun id => Edit.extendElement id written)
  | empty => handle.write Edit.removeChildren
  | removeChildren localName given => handle.write fun id => Edit.removeNamed id localName given
  | remove => handle.write fun id => Edit.change fun doc => (doc.remove id).2

theorem Mutation.inPlace_eq (handle : Handle) (mutation : Mutation) :
    mutation.inPlace handle = mutation.call handle := by
  cases mutation with
  | setTag written =>
    rw [inPlace, call, Handle.setTag]
    exact Handle.write_eq_editOnly fun doc id => Edit.run_retag doc id written
  | setAttribute written given value =>
    rw [inPlace, call, Handle.setAttribute]
    exact Handle.write_eq_editOnly fun doc id => Edit.run_assign doc id written given value
  | removeAttribute written =>
    rw [inPlace, call, Handle.removeAttribute]
    exact Handle.write_eq_editOnly_ok fun doc id => Edit.run_unassign doc id written
  | removeAttributeIn localName given =>
    rw [inPlace, call, Handle.removeAttributeIn]
    exact Handle.write_eq_editOnly_ok fun doc id => Edit.run_unassignIn doc id localName given
  | setText value =>
    rw [inPlace, call, Handle.setText]
    exact Handle.write_eq_editOnly fun doc id => Edit.run_replaceText doc id value
  | addText value =>
    rw [inPlace, call, Handle.addText, Handle.write_eq_edit fun doc id => Edit.run_extendText doc id value]
  | addElement written =>
    rw [inPlace, call, Handle.addElement,
      Handle.write_eq_edit fun doc id => Edit.run_extendElement doc id written]
  | empty =>
    rw [inPlace, call, Handle.empty]
    exact Handle.write_eq_editOnly_ok Edit.run_removeChildren
  | removeChildren localName given =>
    rw [inPlace, call, Handle.removeChildren]
    exact Handle.write_eq_editOnly_ok fun doc id => Edit.run_removeNamed doc id localName given
  | remove =>
    rw [inPlace, call, Handle.remove]
    exact Handle.write_eq_editOnly_ok fun doc id => rfl

/-- A call on a handle that changes a document: a change of its own node, or the insertion of
another one. -/
inductive HandleCall where
  | mutate (mutation : Mutation)
  | insert (node : Handle) (placement : Placement)

namespace HandleCall

def make (handle : Handle) : HandleCall → Session Unit
  | mutate mutation => mutation.call handle
  | insert node placement => discard (handle.insert node placement)

/-- Make a call in place. -/
def inPlace (handle : Handle) : HandleCall → Session Unit
  | mutate mutation => mutation.inPlace handle
  | insert node placement => discard (handle.insertInPlace node placement)

theorem inPlace_eq (handle : Handle) (call : HandleCall) : call.inPlace handle = call.make handle := by
  cases call with
  | mutate mutation => exact mutation.inPlace_eq handle
  | insert node placement => rw [inPlace, make, Handle.insertInPlace_eq]

end HandleCall

/-! ## Refusals -/

namespace Session

variable {α β : Type} {session : Session α}

/-- Whether a session has no effect when it is refused. -/
def IsAtomic (session : Session α) : Prop :=
  ∀ workspace refusal after, session.run workspace = (.error refusal, after) → after = workspace

theorem IsAtomic.tell (atomic : session.IsAtomic) (tell : α → β) :
    IsAtomic (do return tell (← session)) := by
  intro workspace refusal after refused
  rw [run_bind] at refused
  cases done : session.run workspace with
  | mk outcome left =>
    rw [done] at refused
    cases outcome with
    | ok value => cases refused
    | error refusal =>
      cases refused
      exact atomic workspace refusal _ done

theorem IsAtomic.discard (atomic : session.IsAtomic) : IsAtomic (discard session) :=
  atomic.tell fun _ => ()

end Session

theorem Handle.isAtomic_edit {α : Type} (handle : Handle)
    (change : Document → NodeId → Except Refusal (α × Document)) : (handle.edit change).IsAtomic := by
  intro workspace refusal after refused
  rw [run_edit] at refused
  split at refused
  · cases outcome : change (workspace.tree handle.document) handle.node with
    | ok result =>
      rw [outcome] at refused
      cases refused
    | error refusal =>
      rw [outcome] at refused
      cases refused
      rfl
  · cases refused
    rfl

theorem Handle.isAtomic_insert (handle node : Handle) (placement : Placement) :
    (handle.insert node placement).IsAtomic := by
  intro workspace refusal after refused
  rcases run_insert_cases handle node placement workspace with ⟨-, result, left, done⟩ |
    ⟨-, other, done⟩
  · rw [done] at refused
    cases refused
  · rw [done] at refused
    cases refused
    rfl

theorem Mutation.isAtomic_call (handle : Handle) (mutation : Mutation) :
    (mutation.call handle).IsAtomic := by
  cases mutation with
  | addText value => exact ((handle.isAtomic_edit _).tell handle.sibling).discard
  | addElement written => exact ((handle.isAtomic_edit _).tell handle.sibling).discard
  | _ =>
    simp only [call, Handle.setTag, Handle.setAttribute, Handle.removeAttribute,
      Handle.removeAttributeIn, Handle.setText, Handle.empty, Handle.removeChildren, Handle.remove,
      Handle.editOnly]
    exact handle.isAtomic_edit _

theorem HandleCall.isAtomic_make (handle : Handle) (call : HandleCall) :
    (call.make handle).IsAtomic := by
  cases call with
  | mutate mutation => exact mutation.isAtomic_call handle
  | insert node placement => exact (handle.isAtomic_insert node placement).discard

/-- A call may be made in place. When it is refused, all open documents are what they were, although
nothing is taken back: no node was created, freed, moved or changed before the refusal. -/
theorem HandleCall.refused_without_trace (handle : Handle) (call : HandleCall) :
    call.inPlace handle = call.make handle ∧
    ∀ workspace refusal after,
      (call.inPlace handle).run workspace = (.error refusal, after) → after = workspace := by
  have same := call.inPlace_eq handle
  refine ⟨same, ?_⟩
  rw [same]
  exact call.isAtomic_make handle

/-- A node is not moved below itself, an attribute gets no prefix that is not bound, and a node that
is gone cannot be changed. -/
theorem HandleCall.refused_without_trace_twins :
    (HandleCall.inPlace ⟨0, ⟨3, 0⟩⟩ (.insert ⟨0, ⟨2, 0⟩⟩ .lastChild)).run Handle.twins =
      (.error (.misuse .ownSubtree), Handle.twins) ∧
    (HandleCall.inPlace ⟨1, ⟨3, 0⟩⟩ (.mutate (.setAttribute "p:x" none ""))).run Handle.twins =
      (.error (.unknownNamespace "p"), Handle.twins) ∧
    (HandleCall.inPlace ⟨1, ⟨9, 0⟩⟩ (.mutate .remove)).run Handle.twins =
      (.error .gone, Handle.twins) := by
  have unchanged : ∀ handle call refusal,
      ((HandleCall.inPlace handle call).run Handle.twins).1 = .error refusal →
        (HandleCall.inPlace handle call).run Handle.twins = (.error refusal, Handle.twins) :=
    fun handle call refusal refused =>
      Prod.ext refused ((refused_without_trace handle call).2 _ _ _ (Prod.ext refused rfl))
  exact ⟨unchanged _ _ _ (by cbv), unchanged _ _ _ (by cbv), unchanged _ _ _ (by cbv)⟩

end Markup
