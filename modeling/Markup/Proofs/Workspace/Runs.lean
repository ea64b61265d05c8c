import Markup.Proofs.Store.Runs
import Markup.Proofs.Workspace.Change
import Markup.Proofs.Workspace.Reread
import Markup.Workspace.Element

/-!
# Runs of calls on handles

Handles are changed through calls that may be refused, in any order and on any handles. A refused
call changes nothing, a call on another document leaves a document alone, and what the others do
keeps it whole. So the root element can be written and read again as long as it is there. What else
can be done to open documents is an operation on one of them, or an insertion, which moves a node
within its document or copies it into another one. Such a deed changes one document, or it is refused
and changes none.
-/

namespace Markup

/-! ## Calls -/

/-- A call that changes the node of a handle. -/
inductive Mutation where
  | setTag (written : String)
  | setAttribute (written : String) (given : Option String) (value : String)
  | removeAttribute (written : String)
  | removeAttributeIn (localName given : String)
  | setText (value : String)
  | addText (value : String)
  | addElement (written : String)
  | empty
  | removeChildren (localName given : Option String)
  | remove
  deriving Repr, DecidableEq

/-- Make a call on a handle. -/
def Mutation.call (handle : Handle) : Mutation → Session Unit
  | setTag written => handle.setTag written
  | setAttribute written given value => handle.setAttribute written given value
  | removeAttribute written => handle.removeAttribute written
  | removeAttributeIn localName given => handle.removeAttributeIn localName given
  | setText value => handle.setText value
  | addText value => discard (handle.addText value)
  | addElement written => discard (handle.addElement written)
  | empty => handle.empty
  | removeChildren localName given => handle.removeChildren localName given
  | remove => handle.remove

namespace Session

variable {α β : Type}

/-- The open documents after something was tried with them. -/
def effect (session : Session α) (workspace : Workspace) : Workspace := (session.run workspace).2

/-- What is told of a result has no effect. -/
theorem effect_bind_pure (session : Session α) (tell : α → β) (workspace : Workspace) :
    (do return tell (← session) : Session β).effect workspace = session.effect workspace := by
  rw [effect, effect, run_bind]
  rcases session.run workspace with ⟨_ | value, after⟩ <;> rfl

theorem effect_discard (session : Session α) (workspace : Workspace) :
    (discard session).effect workspace = session.effect workspace :=
  effect_bind_pure session (fun _ => ()) workspace

end Session

namespace Workspace

variable {workspace : Workspace} {number other : Nat}

/-- The tree of an open document. -/
def tree (workspace : Workspace) (number : Nat) : Document :=
  (workspace.documents.getD number default).tree

/-- The open documents with another tree for one of them. -/
def put (workspace : Workspace) (number : Nat) (changed : Document) : Workspace :=
  { workspace with documents := workspace.documents.modify number fun opened =>
    { opened with tree := changed } }

/-- The open documents after calls were made on handles, one after the other. -/
def after (workspace : Workspace) (calls : List (Handle × Mutation)) : Workspace :=
  calls.foldl (fun workspace call => (call.2.call call.1).effect workspace) workspace

/-- Where no document is open, there is an empty one to look at. -/
theorem tree_of_size_le (outside : workspace.documents.size ≤ number) :
    workspace.tree number = .empty := by
  rw [tree, Array.getD_eq_getD_getElem?, Array.getElem?_eq_none outside]
  rfl

/-- A document with an element is open. -/
theorem opened_of_isElement {id : NodeId}
    (isElement : ((workspace.tree number).kind id).isElement = true) :
    number < workspace.documents.size := by
  refine Nat.lt_of_not_le fun outside => ?_
  rw [tree_of_size_le outside, Document.kind_empty] at isElement
  cases isElement

theorem tree_put (workspace : Workspace) (number other : Nat) (changed : Document) :
    (workspace.put number changed).tree other = workspace.tree other ∨
      number = other ∧ (workspace.put number changed).tree other = changed := by
  by_cases inside : other < workspace.documents.size
  · by_cases same : number = other
    · right
      simp [tree, put, inside, same, Array.getElem_modify]
    · left
      simp [tree, put, inside, same, Array.getElem_modify]
  · left
    simp [tree, put, inside]

theorem tree_put_self (opened : number < workspace.documents.size) (changed : Document) :
    (workspace.put number changed).tree number = changed := by
  simp [tree, put, opened, Array.getElem_modify]

theorem tree_put_of_ne (distinct : number ≠ other) (changed : Document) :
    (workspace.put number changed).tree other = workspace.tree other :=
  (workspace.tree_put number other changed).resolve_right fun same => distinct same.1

/-- A document may be put where it is. -/
theorem put_tree (workspace : Workspace) (number : Nat) :
    workspace.put number (workspace.tree number) = workspace := by
  have same : workspace.documents.modify number ({ · with tree := workspace.tree number }) =
      workspace.documents := by
    refine Array.ext (by simp) fun index small small' => ?_
    rw [Array.getElem_modify]
    split
    · rename_i here
      subst here
      simp [tree, small']
    · rfl
  exact congrArg (Workspace.mk · workspace.compiled) same

/-- The open documents after one of them was changed, unless that was refused. -/
def follow (workspace : Workspace) (number : Nat) : Except Refusal Document → Workspace
  | .ok changed => workspace.put number changed
  | .error _ => workspace

@[simp] theorem size_follow (workspace : Workspace) (number : Nat)
    (outcome : Except Refusal Document) :
    (workspace.follow number outcome).documents.size = workspace.documents.size := by
  cases outcome <;> simp [follow, put]

/-- An outcome is what a document is afterwards, or nothing has changed. -/
theorem follow_cases (workspace : Workspace) (number : Nat) (outcome : Except Refusal Document) :
    workspace.follow number outcome = workspace ∨
      ∃ changed, outcome = .ok changed ∧ (workspace.follow number outcome).tree number = changed := by
  cases outcome with
  | error => exact .inl rfl
  | ok changed =>
    by_cases opened : number < workspace.documents.size
    · exact .inr ⟨changed, rfl, tree_put_self opened changed⟩
    · have same : workspace.documents.modify number ({ · with tree := changed }) =
          workspace.documents := by
        refine Array.ext (by simp) fun index small _ => ?_
        rw [Array.size_modify] at small
        rw [Array.getElem_modify, if_neg (by omega)]
      exact .inl (congrArg (Workspace.mk · workspace.compiled) same)

end Workspace

namespace Handle

variable {α : Type} {handle : Handle} {workspace : Workspace}

theorem run_edit (handle : Handle) (change : Document → NodeId → Except Refusal (α × Document))
    (workspace : Workspace) : (handle.edit change).run workspace =
      if (workspace.tree handle.document).isAttached handle.node then
        match change (workspace.tree handle.document) handle.node with
        | .ok (value, changed) => (.ok value, workspace.put handle.document changed)
        | .error refusal => (.error refusal, workspace)
      else (.error .gone, workspace) := by
  have step : (handle.edit change).run workspace =
      (if (workspace.tree handle.document).isAttached handle.node then do
        let result ← Session.ofExcept (change (workspace.tree handle.document) handle.node)
        Session.modifyOpened handle.document fun opened => { opened with tree := result.2 }
        return result.1
      else throw .gone : Session α).run workspace := rfl
  rw [step]
  split
  · cases change (workspace.tree handle.document) handle.node <;> rfl
  · rfl

theorem run_editOnly (handle : Handle) (change : Document → NodeId → Except Refusal Document)
    (workspace : Workspace) : (handle.editOnly change).run workspace =
      if (workspace.tree handle.document).isAttached handle.node then
        match change (workspace.tree handle.document) handle.node with
        | .ok changed => (.ok (), workspace.put handle.document changed)
        | .error refusal => (.error refusal, workspace)
      else (.error .gone, workspace) := by
  rw [editOnly, run_edit]
  cases change (workspace.tree handle.document) handle.node <;> rfl

/-- What comes of a change that is made through a handle. -/
def outcome (handle : Handle) (workspace : Workspace)
    (change : Document → NodeId → Except Refusal Document) : Except Refusal Document :=
  if (workspace.tree handle.document).isAttached handle.node then
    change (workspace.tree handle.document) handle.node
  else .error .gone

theorem effect_edit (handle : Handle)
    (change : Document → NodeId → Except Refusal (α × Document)) (workspace : Workspace) :
    (handle.edit change).effect workspace =
      workspace.follow handle.document
        (handle.outcome workspace fun doc id => (change doc id).map (·.2)) := by
  rw [Session.effect, run_edit, outcome]
  split
  · cases change (workspace.tree handle.document) handle.node <;> rfl
  · rfl

theorem effect_editOnly (handle : Handle)
    (change : Document → NodeId → Except Refusal Document) (workspace : Workspace) :
    (handle.editOnly change).effect workspace =
      workspace.follow handle.document (handle.outcome workspace change) := by
  rw [Session.effect, run_editOnly, outcome]
  split
  · cases change (workspace.tree handle.document) handle.node <;> rfl
  · rfl

/-- Asking for the text of a node that is part of a document has an answer and no effect. -/
theorem run_markup (attached : (workspace.tree handle.document).isAttached handle.node = true) :
    handle.markup.run workspace =
      (.ok ((workspace.tree handle.document).writeNode {} handle.node), workspace) := by
  have step : handle.markup.run workspace =
      (if (workspace.tree handle.document).isAttached handle.node then
        pure ((workspace.tree handle.document).writeNode {} handle.node)
      else throw .gone : Session String).run workspace := rfl
  rw [step, if_pos attached]
  rfl

end Handle

/-! ## One call -/

/-- What a call does to the document of its handle. -/
def Mutation.change (doc : Document) (id : NodeId) : Mutation → Except Refusal Document
  | setTag written => doc.retag id written
  | setAttribute written given value => doc.assign id written given value
  | removeAttribute written => .ok (doc.unassign id written)
  | removeAttributeIn localName given => .ok (doc.unassignIn id localName given)
  | setText value => doc.replaceText id value
  | addText value => (doc.extendText id value).map (·.2)
  | addElement written => (doc.extendElement id written).map (·.2)
  | empty => .ok (doc.removeChildren id).2
  | removeChildren localName given =>
    .ok (doc.removeAll (doc.elementsNamed id localName (given.map (doc.namespaceMeant id)))).2
  | remove => .ok (doc.remove id).2

theorem Mutation.effect_call (handle : Handle) (mutation : Mutation) (workspace : Workspace) :
    (mutation.call handle).effect workspace = workspace.follow handle.document
      (handle.outcome workspace fun doc id => mutation.change doc id) := by
  cases mutation with
  | addText value =>
    rw [call, Session.effect_discard, Handle.addText, Session.effect_bind_pure, Handle.effect_edit]
    simp only [change]
  | addElement written =>
    rw [call, Session.effect_discard, Handle.addElement, Session.effect_bind_pure,
      Handle.effect_edit]
    simp only [change]
  | _ =>
    simp only [call, Handle.setTag, Handle.setAttribute, Handle.removeAttribute,
      Handle.removeAttributeIn, Handle.setText, Handle.empty, Handle.removeChildren, Handle.remove,
      Handle.effect_editOnly, change]

open Document

/-- Where bound prefixes are names, a call does nothing but revise the document, or it removes the
document node and leaves nothing in the tree. -/
theorem Mutation.revised {doc doc' : Document} {id : NodeId} (linked : doc.WellLinked)
    (attached : doc.isAttached id = true)
    (declared : (doc.kind id).isElement = true → ∀ {nsPrefix uri},
      doc.namespaceOf? id (some nsPrefix) = some uri → isPlainName nsPrefix = true)
    {mutation : Mutation} (changed : mutation.change doc id = .ok doc') :
    Revised doc id doc' ∨ ∀ other, doc'.isAttached other = false := by
  have live := linked.live_of_isAttached attached
  cases mutation with
  | setTag written => exact .inl (.retag changed)
  | setAttribute written given value => exact .inl (.assign declared changed)
  | removeAttribute written =>
    cases changed
    exact .inl (.unassign linked written)
  | removeAttributeIn localName given =>
    cases changed
    exact .inl (.removeAttribute localName _)
  | setText value => exact .inl (.replaceText linked live changed)
  | addText value =>
    obtain ⟨⟨child, doc'⟩, extended, rfl⟩ := map_eq_ok.mp changed
    exact .inl (.extendText linked live extended)
  | addElement written =>
    obtain ⟨⟨child, doc'⟩, extended, rfl⟩ := map_eq_ok.mp changed
    exact .inl (.extendElement linked live extended)
  | empty =>
    cases changed
    exact .inl (.removeAll linked live (List.Subset.refl _))
  | removeChildren localName given =>
    cases changed
    exact .inl (.removeAll linked live fun _ => List.mem_of_mem_filter)
  | remove =>
    cases changed
    by_cases isRoot : id = root
    · subst isRoot
      exact .inr linked.not_isAttached_remove_root
    · exact .inl (.remove linked live isRoot)

namespace Document

/-- A document that is whole or has nothing left in its tree. -/
def Intact (top : NodeId) (doc : Document) : Prop :=
  doc.Whole top ∨ ∀ id, doc.isAttached id = false

theorem Whole.intact_change {doc doc' : Document} {top id : NodeId} (whole : doc.Whole top)
    (attached : doc.isAttached id = true) {mutation : Mutation}
    (changed : mutation.change doc id = .ok doc') : doc'.Intact top := by
  refine (Mutation.revised whole.linked attached ?_ changed).imp_left (whole.revised attached)
  exact fun isElement _ _ => whole.isPlainName_of_bound (whole.within attached isElement)

end Document

namespace Workspace

variable {workspace : Workspace} {number : Nat} {top : NodeId}

/-- What holds of a document before an outcome and after it holds of it whatever the outcome. -/
theorem follow_elim {motive : Document → Prop} {outcome : Except Refusal Document} {other : Nat}
    (before : motive (workspace.tree number))
    (after : ∀ changed, other = number → outcome = .ok changed → motive changed) :
    motive ((workspace.follow other outcome).tree number) := by
  cases outcome with
  | error refusal => exact before
  | ok changed =>
    rcases workspace.tree_put other number changed with same | ⟨here, same⟩
    · rw [follow, same]
      exact before
    · rw [follow, same]
      exact after changed here rfl

/-- Every call leaves every open document intact. -/
theorem intact_call (handle : Handle) (mutation : Mutation)
    (intact : (workspace.tree number).Intact top) :
    (((mutation.call handle).effect workspace).tree number).Intact top := by
  rw [Mutation.effect_call]
  refine follow_elim intact fun changed here done => ?_
  subst here
  rw [Handle.outcome] at done
  split at done
  · rename_i attached
    rcases intact with whole | nothing
    · exact whole.intact_change attached done
    · rw [nothing] at attached
      cases attached
  · cases done

/-! ## Runs -/

theorem intact_after (calls : List (Handle × Mutation))
    (intact : (workspace.tree number).Intact top) :
    ((workspace.after calls).tree number).Intact top := by
  induction calls generalizing workspace with
  | nil => exact intact
  | cons call rest ih =>
    obtain ⟨handle, mutation⟩ := call
    exact ih (intact_call handle mutation intact)

/-- A document was parsed strictly, and its names keep to the rules on namespaces. Then, whatever
calls are made on whatever handles, the root element has a text as long as it is part of the
document, and this text is parsed with the same elements once the limits are wide enough. -/
theorem reread_after {options : Xml.ParseOptions} (strict : options.recover = false) {text : String}
    {parsed : Document} (read : ofXml options text = .ok parsed)
    (wellFormed : parsed.IsNamespaceWellFormed) {encoding : Option String}
    (opened : workspace.tree number = { parsed with encoding }) :
    ∃ top, parsed.rootElement? = some top ∧ ∀ calls,
      ((workspace.after calls).tree number).isAttached top = true →
        ∃ written, (Handle.markup ⟨number, top⟩).run (workspace.after calls) =
            (.ok written, workspace.after calls) ∧
          ∃ bound, ∀ wider : Xml.ParseOptions, bound ≤ wider.maxDepth →
            bound ≤ wider.maxNameLength → bound ≤ wider.maxTextLength →
            ∃ again other, ofXml wider written = .ok again ∧ again.rootElement? = some other ∧
              (again.tree other).elements =
                (((workspace.after calls).tree number).tree top).elements := by
  obtain ⟨top, found, whole⟩ := exists_whole strict read wellFormed
  refine ⟨top, found, fun calls attached => ⟨_, Handle.run_markup attached, ?_⟩⟩
  have initial : (workspace.tree number).Whole top := by
    rw [opened]
    exact whole.congr (.of_slots rfl rfl) (fun _ => rfl) (fun _ => rfl) fun _ _ sound => sound
  rcases intact_after calls (.inl initial) with whole | nothing
  · exact whole.exists_reread attached
  · rw [nothing] at attached
    cases attached

/-- An attribute and a child are added to the element of an open document; another child is refused,
below its text. -/
theorem reread_after_additions : ∃ parsed, ofXml { maxNameLength := 1 } "<a>&#38;</a>" = .ok parsed ∧
    ∃ final, final = after { documents := #[.ofTree parsed .xml] }
        [(⟨0, ⟨2, 0⟩⟩, .setAttribute "b" none "<"), (⟨0, ⟨3, 0⟩⟩, .addElement "c"),
          (⟨0, ⟨2, 0⟩⟩, .addElement "c")] ∧
      ∃ written, (Handle.markup ⟨0, ⟨2, 0⟩⟩).run final = (.ok written, final) ∧
        ∃ bound, ∀ wider : Xml.ParseOptions, bound ≤ wider.maxDepth →
          bound ≤ wider.maxNameLength → bound ≤ wider.maxTextLength →
          ∃ again other, ofXml wider written = .ok again ∧ again.rootElement? = some other ∧
            (again.tree other).elements = ((final.tree 0).tree ⟨2, 0⟩).elements := by
  refine ⟨_, ofXml_ampersand, _, rfl, ?_⟩
  generalize read : ofDraft _ = parsed
  have opened : tree { documents := #[.ofTree parsed .xml] } 0 =
      { parsed with encoding := parsed.encoding } := rfl
  obtain ⟨top, found, reread⟩ := reread_after rfl (read ▸ ofXml_ampersand) (by subst read; decide) opened
  subst read
  obtain rfl : ⟨2, 0⟩ = top := by
    rw [← Option.some.injEq, ← found]
    decide
  exact reread _ (by decide)

end Workspace
end Markup

namespace Markup

variable {workspace : Workspace} {number other : Nat}

/-! ## Insertions -/

namespace Handle

variable {α : Type} {handle node : Handle}

theorem run_read (handle : Handle) (look : Document → NodeId → Except Refusal α)
    (workspace : Workspace) : (handle.read look).run workspace =
      if (workspace.tree handle.document).isAttached handle.node then
        (look (workspace.tree handle.document) handle.node, workspace)
      else (.error .gone, workspace) := by
  have step : (handle.read look).run workspace =
      (if (workspace.tree handle.document).isAttached handle.node then
        Session.ofExcept (look (workspace.tree handle.document) handle.node)
      else throw .gone : Session α).run workspace := rfl
  rw [step]
  split
  · cases look (workspace.tree handle.document) handle.node <;> rfl
  · rfl

/-- Within its document a node is moved. -/
theorem effect_insert_same (same : handle.document = node.document)
    (placement : Document.Placement) (workspace : Workspace) :
    (handle.insert node placement).effect workspace = workspace.follow handle.document
      (handle.outcome workspace fun doc target => doc.move target node.node placement) := by
  rw [insert, if_pos same, ← effect_editOnly]
  exact Session.effect_bind_pure _ (fun _ => node) workspace

/-- Into another document a node is copied, if it is still part of its own. -/
theorem effect_insert_other (apart : handle.document ≠ node.document)
    (placement : Document.Placement) (workspace : Workspace) :
    (handle.insert node placement).effect workspace =
      if (workspace.tree node.document).isAttached node.node then
        workspace.follow handle.document (handle.outcome workspace fun doc target =>
          (doc.copyIn target ((workspace.tree node.document).tree node.node)
            ((workspace.tree node.document).inheritedBindings node.node) placement).map (·.2))
      else workspace := by
  rw [insert, if_neg apart, Session.effect, run_bind, readOff, run_read]
  by_cases attached : (workspace.tree node.document).isAttached node.node = true
  · rw [if_pos attached, if_pos attached, ← effect_edit]
    exact Session.effect_bind_pure _ handle.sibling workspace
  · rw [if_neg attached, if_neg attached]

end Handle

/-! ## Deeds -/

/-- Something that is done to open documents. -/
inductive Deed where
  | tree (number : Nat) (operation : Document.Operation)
  | call (handle : Handle) (mutation : Mutation)
  | insert (handle node : Handle) (placement : Document.Placement)

namespace Deed

/-- The open documents afterwards. What is refused has no effect. -/
def effect (workspace : Workspace) : Deed → Workspace
  | tree number operation => workspace.put number (operation.run (workspace.tree number))
  | call handle mutation => (mutation.call handle).effect workspace
  | insert handle node placement => (handle.insert node placement).effect workspace

/-- No document is opened or closed. -/
theorem size_effect (deed : Deed) (workspace : Workspace) :
    (deed.effect workspace).documents.size = workspace.documents.size := by
  cases deed with
  | tree number operation => simp [effect, Workspace.put]
  | call handle mutation => rw [effect, Mutation.effect_call, Workspace.size_follow]
  | insert handle node placement =>
    rw [effect]
    by_cases same : handle.document = node.document
    · rw [Handle.effect_insert_same same, Workspace.size_follow]
    · rw [Handle.effect_insert_other same]
      split
      · exact workspace.size_follow _ _
      · rfl

end Deed
end Markup
