import Markup.Proofs.Store.Chronicle
import Markup.Proofs.Workspace.Runs
import Markup.Proofs.Workspace.Insert

/-!
# What deeds remove

Each deed has its targets in a document, the nodes that it removes with everything below them. What
it does besides takes no name from any node.
-/

namespace Markup

open Document

variable {doc doc' : Document} {id : NodeId} {gone : List NodeId} {workspace : Workspace}
  {number other : Nat}

/-! ## Changes through handles -/

/-- Whether an outcome removes some nodes with everything below them and no others. What is refused
removes nothing. -/
def Document.Performs (doc : Document) (gone : List NodeId) : Except Refusal Document → Prop
  | .ok doc' => Changed doc doc' gone
  | .error _ => gone = []

theorem Document.performs_nothing {outcome : Except Refusal Document}
    (changed : ∀ doc', outcome = .ok doc' → Changed doc doc' []) : doc.Performs [] outcome := by
  cases outcome with
  | ok doc' => exact changed doc' rfl
  | error refusal => rfl

/-- The nodes that a call removes with everything below them. -/
def Mutation.targets (doc : Document) (id : NodeId) : Mutation → List NodeId
  | remove => [id]
  | empty => doc.children id
  | removeChildren localName given =>
    doc.elementsNamed id localName (given.map (doc.namespaceMeant id))
  | setText value =>
    if (doc.kind id).isElement && value.toList.all isDocumentChar then doc.children id else []
  | _ => []

namespace Document.Changed

theorem modifyAttributes (linked : doc.WellLinked) (live : doc.IsLive id)
    (change : List Attribute → List Attribute) :
    Changed doc (doc.modifyAttributes id change) [] :=
  .of_sameLinks linked (.modifyAttributes live change)

theorem retag (linked : doc.WellLinked) (live : doc.IsLive id) {written : String}
    (changed : doc.retag id written = .ok doc') : Changed doc doc' [] := by
  unfold Document.retag at changed
  split at changed
  · obtain ⟨name, -, changed⟩ := bind_eq_ok.mp changed
    split at changed
    · obtain ⟨found, -, changed⟩ := bind_eq_ok.mp changed
      cases changed
      exact .of_sameLinks linked (.rename live _ _)
    · cases changed
      exact .of_sameLinks linked (.rename live _ _)
  · cases changed

theorem assign (linked : doc.WellLinked) (live : doc.IsLive id) {written value : String}
    {given : Option String} (changed : doc.assign id written given value = .ok doc') :
    Changed doc doc' [] := by
  obtain ⟨passed, -, changed⟩ := bind_eq_ok.mp changed
  obtain ⟨passed', -, changed⟩ := bind_eq_ok.mp changed
  obtain ⟨name, -, changed⟩ := bind_eq_ok.mp changed
  obtain ⟨passed'', -, changed⟩ := bind_eq_ok.mp changed
  split at changed
  · obtain ⟨found, -, changed⟩ := bind_eq_ok.mp changed
    cases changed
    exact modifyAttributes linked live _
  · cases changed
    exact modifyAttributes linked live _

theorem unassign (linked : doc.WellLinked) (live : doc.IsLive id) (written : String) :
    Changed doc (doc.unassign id written) [] := by
  unfold Document.unassign
  split
  · exact modifyAttributes linked live _
  · split
    · exact modifyAttributes linked live _
    · exact .refl linked

theorem extend (linked : doc.WellLinked) (live : doc.IsLive id) (kind : NodeKind) :
    Changed doc (doc.extend id kind).2 [] :=
  .of_enlarged (extended_grow linked live kind).linked ((Enlarged.refl linked.isPooled).grow id kind)

theorem extendText (linked : doc.WellLinked) (live : doc.IsLive id) {value : String}
    {result : NodeId × Document} (changed : doc.extendText id value = .ok result) :
    Changed doc result.2 [] := by
  obtain ⟨passed, -, changed⟩ := bind_eq_ok.mp changed
  obtain ⟨passed', -, changed⟩ := bind_eq_ok.mp changed
  cases changed
  exact extend linked live _

theorem extendElement (linked : doc.WellLinked) (live : doc.IsLive id) {written : String}
    {result : NodeId × Document} (changed : doc.extendElement id written = .ok result) :
    Changed doc result.2 [] := by
  obtain ⟨passed, -, changed⟩ := bind_eq_ok.mp changed
  obtain ⟨name, -, changed⟩ := bind_eq_ok.mp changed
  split at changed
  · obtain ⟨found, -, changed⟩ := bind_eq_ok.mp changed
    cases changed
    exact extend linked live _
  · cases changed
    exact extend linked live _

theorem setContent (linked : doc.WellLinked) (live : doc.IsLive id) (value : String) :
    Changed doc (doc.setContent id value) [] := .of_sameLinks linked (.setContent live value)

/-- A text that can be written takes the place of the children of an element; any other node gets
it without losing anything. -/
theorem replaceText (linked : doc.WellLinked) (live : doc.IsLive id) (value : String) :
    doc.Performs (Mutation.targets doc id (.setText value)) (doc.replaceText id value) := by
  rw [Mutation.targets, Document.replaceText, demandWritable, demand]
  cases writable : value.toList.all isDocumentChar with
  | false =>
    rw [Bool.and_false]
    rfl
  | true =>
    rw [Bool.and_true, if_pos rfl]
    cases kind : doc.kind id with
    | element name uri attributes =>
      have removable := linked.removable_of_children live (List.Subset.refl _)
      have live' := fun child member => (removable child member).1
      have pruned := linked.pruned_all removable
      have kept : (doc.removeChildren id).2.IsLive id := by
        refine (pruned.live_iff id).mpr ⟨live, fun child member above => ?_⟩
        exact linked.ne_of_above live member above rfl
      have removal : Changed doc (doc.removeChildren id).2 (doc.children id) :=
        .of_removeAll linked removable
      have faded := Faded.removeAll linked fun child member =>
        ⟨(removable child member).1.numbered, (removable child member).2⟩
      change doc.Performs (doc.children id) _
      dsimp only [bind, Except.bind]
      split
      · exact removal
      · exact of_pruned_grow linked live' pruned faded kept (.text value)
    | comment content =>
      change doc.Performs [] _
      dsimp only [bind, Except.bind, demand]
      by_cases fits : fitsComment value = true
      · rw [if_pos fits]
        exact setContent linked live value
      · rw [if_neg fits]
        exact rfl
    | text content => exact setContent linked live value
    | cdata content => exact setContent linked live value
    | _ => exact rfl

theorem settle {middle : Document} (linked : middle.WellLinked) (enlarged : Enlarged doc middle)
    (live : middle.IsLive id) (needed : List (Option String × String)) :
    Changed doc (middle.settle id needed) [] :=
  .of_enlarged ((SameLinks.modifyAttributes live _).wellLinked linked)
    (enlarged.modifyAttributes id _)

theorem move (linked : doc.WellLinked) (attached : doc.isAttached id = true) {node : NodeId}
    {placement : Placement} (moved : doc.move id node placement = .ok doc') :
    Changed doc doc' [] := by
  obtain ⟨live, reached⟩ := linked.isAttached_iff.mp attached
  obtain ⟨host, middle, attachedN, -, -, -, placed, rfl⟩ := exists_of_move linked live reached moved
  have liveN := linked.live_of_isAttached attachedN
  have use := (linked.sameUse_detach liveN).trans placed.use
  exact settle placed.linked ((Enlarged.refl linked.isPooled).sameUse use)
    (use.live_iff.mpr liveN) _

theorem copyIn (linked : doc.WellLinked) (live : doc.IsLive id) {tree : Tree}
    {needed : List (Option String × String)} {placement : Placement} {result : NodeId × Document}
    (copied : doc.copyIn id tree needed placement = .ok result) : Changed doc result.2 [] := by
  obtain ⟨copy, doc'⟩ := result
  obtain ⟨host, middle, -, -, rfl, placed, rfl⟩ := exists_of_copyIn linked live copied
  have grafted := grafted_graft linked tree
  exact settle placed.linked (((Enlarged.refl linked.isPooled).graft tree).sameUse placed.use)
    (placed.use.live_iff.mpr grafted.live_new) needed

end Document.Changed

/-- A call that is not the removal of the document node removes its targets. -/
theorem Mutation.performs (linked : doc.WellLinked) (live : doc.IsLive id) {mutation : Mutation}
    (removable : mutation = .remove → id ≠ root) :
    doc.Performs (mutation.targets doc id) (mutation.change doc id) := by
  cases mutation with
  | setTag written => exact performs_nothing fun _ changed => .retag linked live changed
  | setAttribute written given value =>
    exact performs_nothing fun _ changed => .assign linked live changed
  | removeAttribute written => exact Changed.unassign linked live written
  | removeAttributeIn localName given => exact Changed.modifyAttributes linked live _
  | setText value => exact Changed.replaceText linked live value
  | addText value =>
    refine performs_nothing fun _ changed => ?_
    obtain ⟨result, extended, rfl⟩ := map_eq_ok.mp changed
    exact .extendText linked live extended
  | addElement written =>
    refine performs_nothing fun _ changed => ?_
    obtain ⟨result, extended, rfl⟩ := map_eq_ok.mp changed
    exact .extendElement linked live extended
  | empty =>
    exact Changed.of_removeAll linked
      (linked.removable_of_children live (List.Subset.refl _))
  | removeChildren localName given =>
    exact Changed.of_removeAll linked
      (linked.removable_of_children live fun _ => List.mem_of_mem_filter)
  | remove =>
    exact Changed.of_pruned linked (by simpa [targets] using live)
      (linked.pruned_remove live (removable rfl)) (.remove linked live.numbered)

/-! ## Deeds -/

namespace Deed

/-- What may be done with a document: operations that it admits, and any call except for the removal
of the document node. -/
def Admissible (number : Nat) (workspace : Workspace) : Deed → Prop
  | tree other operation => other = number → operation.Admissible (workspace.tree number)
  | call handle mutation => handle = ⟨number, root⟩ → mutation ≠ .remove
  | insert .. => True

/-- The nodes of a document that a deed removes with everything below them. -/
def targets (number : Nat) (workspace : Workspace) : Deed → List NodeId
  | tree other operation =>
    if other = number then operation.targets (workspace.tree number) else []
  | call handle mutation =>
    if handle.document = number ∧ (workspace.tree number).isAttached handle.node = true then
      mutation.targets (workspace.tree number) handle.node
    else []
  | insert .. => []

theorem changed_follow (linked : (workspace.tree number).WellLinked)
    (opened : number < workspace.documents.size) (outcome : Except Refusal Document)
    (performs : other = number → (workspace.tree number).Performs gone outcome)
    (idle : other ≠ number → gone = []) :
    Changed (workspace.tree number) ((workspace.follow other outcome).tree number) gone := by
  by_cases same : other = number
  · subst same
    have performs := performs rfl
    cases outcome with
    | error refusal =>
      rw [show gone = [] from performs]
      exact .refl linked
    | ok changed =>
      rw [Workspace.follow, Workspace.tree_put_self opened]
      exact performs
  · rw [idle same]
    cases outcome with
    | error refusal => exact .refl linked
    | ok changed =>
      rw [Workspace.follow, Workspace.tree_put_of_ne same]
      exact .refl linked

/-- A deed removes its targets with everything below them and nothing else. -/
theorem changed (linked : (workspace.tree number).WellLinked)
    (opened : number < workspace.documents.size) {deed : Deed}
    (admissible : deed.Admissible number workspace) :
    Changed (workspace.tree number) ((deed.effect workspace).tree number)
      (deed.targets number workspace) := by
  cases deed with
  | tree other operation =>
    refine changed_follow linked opened (.ok _) (fun same => ?_) fun apart => if_neg apart
    subst same
    rw [targets, if_pos rfl]
    exact operation.changed linked (admissible rfl)
  | call handle mutation =>
    rw [effect, Mutation.effect_call, targets]
    refine changed_follow linked opened _ (fun same => ?_) fun apart => if_neg (apart ·.1)
    subst same
    rw [Handle.outcome]
    by_cases attached : (workspace.tree handle.document).isAttached handle.node = true
    · rw [if_pos ⟨rfl, attached⟩, if_pos attached]
      refine Mutation.performs linked (linked.live_of_isAttached attached) ?_
      rintro rfl isRoot
      exact admissible (by rw [← isRoot]) rfl
    · rw [if_neg fun both => attached both.2, if_neg attached]
      rfl
  | insert handle node placement =>
    rw [effect, targets]
    by_cases within : handle.document = node.document
    · rw [Handle.effect_insert_same within]
      refine changed_follow linked opened _ (fun same => ?_) fun _ => rfl
      subst same
      rw [Handle.outcome]
      split
      · rename_i attached
        exact performs_nothing fun _ moved => .move linked attached moved
      · rfl
    · rw [Handle.effect_insert_other within]
      split
      · refine changed_follow linked opened _ (fun same => ?_) fun _ => rfl
        subst same
        rw [Handle.outcome]
        split
        · rename_i attached
          refine performs_nothing fun _ copied => ?_
          obtain ⟨result, done, rfl⟩ := map_eq_ok.mp copied
          exact .copyIn linked (linked.live_of_isAttached attached) done
        · rfl
      · exact .refl linked

end Deed

end Markup
