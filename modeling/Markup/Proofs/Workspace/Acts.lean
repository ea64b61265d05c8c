import Markup.Proofs.Workspace.Compiled
import Markup.Proofs.Workspace.Identity

/-!
# Acts

What is done with handles between two looks at a document: changes, insertions and queries, some of
which may be refused. Queries change no tree. A node that is there before and after such acts has
been there all the time, whatever has taken over the slots of others.
-/

namespace Markup

open Document

variable {workspace workspace' : Workspace} {number : Nat} {handle node : Handle}

/-! ## Workspaces with the same trees -/

namespace Workspace

/-- Open documents whose trees are the same, whatever queries are kept. -/
structure SameTrees (workspace workspace' : Workspace) : Prop where
  size : workspace'.documents.size = workspace.documents.size
  tree : ∀ number, workspace'.tree number = workspace.tree number

namespace SameTrees

theorem refl (workspace : Workspace) : SameTrees workspace workspace := ⟨rfl, fun _ => rfl⟩

theorem trans {workspace'' : Workspace} (same : SameTrees workspace workspace')
    (same' : SameTrees workspace' workspace'') : SameTrees workspace workspace'' :=
  ⟨same'.size.trans same.size, fun number => (same'.tree number).trans (same.tree number)⟩

theorem symm (same : SameTrees workspace workspace') : SameTrees workspace' workspace :=
  ⟨same.size.symm, fun number => (same.tree number).symm⟩

theorem put (same : SameTrees workspace workspace') (number : Nat) (changed : Document) :
    SameTrees (workspace.put number changed) (workspace'.put number changed) := by
  refine ⟨by simp [Workspace.put, same.size], fun other => ?_⟩
  by_cases here : number = other
  · subst here
    have size := same.size
    by_cases opened : number < workspace.documents.size
    · rw [tree_put_self opened, tree_put_self (size ▸ opened)]
    · have closed : workspace.documents.size ≤ number := Nat.le_of_not_lt opened
      rw [tree_of_size_le (by simpa [Workspace.put, size] using closed),
        tree_of_size_le (by simpa [Workspace.put] using closed)]
  · rw [tree_put_of_ne here, tree_put_of_ne here, same.tree]

theorem follow (same : SameTrees workspace workspace') (number : Nat)
    (outcome : Except Refusal Document) :
    SameTrees (workspace.follow number outcome) (workspace'.follow number outcome) := by
  cases outcome with
  | ok changed => exact same.put number changed
  | error refusal => exact same

theorem outcome_eq (same : SameTrees workspace workspace') (handle : Handle)
    (change : Document → NodeId → Except Refusal Document) :
    handle.outcome workspace' change = handle.outcome workspace change := by
  rw [Handle.outcome, Handle.outcome, same.tree]

/-- What a deed does depends on the trees alone. -/
theorem effect (same : SameTrees workspace workspace') (deed : Deed) :
    SameTrees (deed.effect workspace) (deed.effect workspace') := by
  cases deed with
  | tree number operation =>
    rw [Deed.effect, Deed.effect, same.tree]
    exact same.put number _
  | call handle mutation =>
    rw [Deed.effect, Deed.effect, Mutation.effect_call, Mutation.effect_call, same.outcome_eq]
    exact same.follow _ _
  | insert handle node placement =>
    rw [Deed.effect, Deed.effect]
    by_cases within : handle.document = node.document
    · rw [Handle.effect_insert_same within, Handle.effect_insert_same within, same.outcome_eq]
      exact same.follow _ _
    · rw [Handle.effect_insert_other within, Handle.effect_insert_other within, same.tree,
        same.outcome_eq]
      split
      · exact same.follow _ _
      · exact same

end SameTrees

theorem sameTrees_keep (number : Nat) (key : String) (compiled : CompiledQuery) :
    SameTrees workspace (workspace.keep number key compiled) := by
  refine ⟨by simp [keep], fun other => ?_⟩
  by_cases inside : other < workspace.documents.size
  · by_cases here : number = other <;> simp [tree, keep, inside, here, Array.getElem_modify]
  · simp [tree, keep, inside]

end Workspace

open Workspace

/-- A request for a query changes no tree. -/
theorem QueryRequest.sameTrees_make (request : QueryRequest) (number : Nat)
    (workspace : Workspace) : SameTrees workspace ((request.make number).run workspace).2 := by
  rw [request.run_make]
  split
  · exact sameTrees_keep number _ _
  · split
    · exact .refl workspace
    · have counted : SameTrees workspace { workspace with compiled := workspace.compiled + 1 } :=
        ⟨rfl, fun _ => rfl⟩
      exact counted.trans (sameTrees_keep number _ _)

/-! ## Acts -/

/-- Something that is done with handles in the course of a visit: a change, an insertion or a
query. -/
inductive Act where
  | change (handle : Handle) (mutation : Mutation)
  | insert (handle node : Handle) (placement : Document.Placement)
  | query (handle : Handle) (request : QueryRequest)

namespace Act

def perform : Act → Session Unit
  | change handle mutation => mutation.call handle
  | insert handle node placement => discard (handle.insert node placement)
  | query handle request => discard (handle.queryValue request.bindings request.text)

/-- Do something and go on when it is refused. -/
def attempt (act : Act) : Session Unit := tryCatch act.perform fun _ => return ()

/-- What is done to the trees. A query does nothing to them. -/
def deed? : Act → Option Deed
  | change handle mutation => some (.call handle mutation)
  | insert handle node placement => some (.insert handle node placement)
  | query .. => none

/-- Whether an act is not the removal of the document node, which has no handle. -/
def IsProper : Act → Prop
  | change handle mutation => handle.node = root → mutation ≠ .remove
  | _ => True

theorem run_attempt (act : Act) (workspace : Workspace) :
    act.attempt.run workspace = (.ok (), act.perform.effect workspace) := by
  simp only [attempt, Session.effect, tryCatch, tryCatchThe, MonadExceptOf.tryCatch,
    ExceptT.tryCatch, ExceptT.run, ExceptT.mk, bind, StateT.bind]
  rcases act.perform workspace with ⟨_ | _, left⟩ <;> rfl

theorem sameTrees_query (handle : Handle) (request : QueryRequest) :
    SameTrees workspace ((query handle request).perform.effect workspace) := by
  have same := request.sameTrees_make handle.document workspace
  have step : ((query handle request).perform.effect workspace) =
      (((request.make handle.document) >>= fun compiled => handle.evaluate compiled.query).run
        workspace).2 := Session.effect_discard _ workspace
  rw [step, run_bind]
  revert same
  rcases (request.make handle.document).run workspace with ⟨_ | compiled, left⟩
  · exact id
  · change _ → SameTrees workspace ((handle.evaluate compiled.query).run left).2
    rw [show handle.evaluate compiled.query = handle.read _ from rfl, Handle.run_read]
    split <;> exact id

end Act

namespace Workspace

/-- The open documents after several acts. -/
def afterActs (workspace : Workspace) (acts : List Act) : Workspace :=
  acts.foldl (fun workspace act => act.perform.effect workspace) workspace

theorem afterActs_append (workspace : Workspace) (acts later : List Act) :
    workspace.afterActs (acts ++ later) = (workspace.afterActs acts).afterActs later :=
  List.foldl_append

theorem run_attempts (acts : List Act) (workspace : Workspace) :
    (acts.forM Act.attempt).run workspace = (.ok (), workspace.afterActs acts) := by
  induction acts generalizing workspace with
  | nil => rfl
  | cons act rest ih =>
    change (act.attempt >>= fun _ => rest.forM Act.attempt).run workspace = _
    rw [run_bind, act.run_attempt]
    exact ih _

end Workspace

/-! ## What becomes of a node -/

namespace History

variable {history : History} {acts : List Act} {id : NodeId}

/-- A document is watched from now on. -/
def watch (number : Nat) (workspace : Workspace) : History :=
  ⟨workspace, .watch (workspace.tree number)⟩

theorem isAccurate_watch (opened : number < workspace.documents.size)
    (linked : (workspace.tree number).WellLinked) : (watch number workspace).IsAccurate number :=
  ⟨opened, linked, Chronicle.isAccurate_watch⟩

/-- What was noted down after several acts. -/
def afterActs (number : Nat) (history : History) (acts : List Act) : History :=
  history.after number (acts.filterMap Act.deed?)

theorem afterActs_append (acts later : List Act) : history.afterActs number (acts ++ later) =
    (history.afterActs number acts).afterActs number later := by
  rw [afterActs, List.filterMap_append, after_append]
  rfl

theorem sameTrees_afterActs (same : SameTrees workspace history.workspace) :
    SameTrees (workspace.afterActs acts) (history.afterActs number acts).workspace := by
  induction acts generalizing workspace history with
  | nil => exact same
  | cons act rest ih =>
    cases act with
    | query handle request => exact ih ((Act.sameTrees_query handle request).symm.trans same)
    | change handle mutation => exact ih (same.effect (.call handle mutation))
    | insert handle node placement =>
      have told : (Act.insert handle node placement).perform.effect workspace =
          (Deed.insert handle node placement).effect workspace := Session.effect_discard _ _
      exact ih (told ▸ same.effect (.insert handle node placement) :)

theorem admits_acts (proper : ∀ act ∈ acts, act.IsProper) :
    history.Admits number (acts.filterMap Act.deed?) := by
  induction acts generalizing history with
  | nil => trivial
  | cons act rest ih =>
    obtain ⟨proper, more⟩ := List.forall_mem_cons.mp proper
    cases act with
    | query handle request => exact ih more
    | change handle mutation =>
      exact ⟨fun isRoot => proper (congrArg Handle.node isRoot), ih more⟩
    | insert handle node placement => exact ⟨trivial, ih more⟩

theorem mem_used_after {deeds : List Deed} (known : id ∈ history.chronicle.used) :
    id ∈ (history.after number deeds).chronicle.used := by
  induction deeds generalizing history with
  | nil => exact known
  | cons deed rest ih => exact ih (Chronicle.mem_used_note.mpr (.inr known))

/-- A node that is part of a document after some acts has been live all along: it was not removed in
the meantime, and it is no new node in the slot of a removed one. -/
theorem live_throughout (opened : number < workspace.documents.size)
    (linked : (workspace.tree number).WellLinked) (proper : ∀ act ∈ acts, act.IsProper)
    (unworn : ((watch number workspace).afterActs number acts).chronicle.IsUnworn)
    (live : (workspace.tree number).IsLive id)
    (attached : ((workspace.afterActs acts).tree number).isAttached id = true) {earlier : List Act}
    (part : earlier <+: acts) : ((workspace.afterActs earlier).tree number).IsLive id := by
  obtain ⟨later, rfl⟩ := part
  have initial := isAccurate_watch opened linked
  have same : ∀ acts, ((watch number workspace).afterActs number acts).workspace.tree number =
      (workspace.afterActs acts).tree number :=
    fun acts => (sameTrees_afterActs (.refl workspace)).tree number
  have final := initial.after (admits_acts proper) unworn
  have proper' := fun act member => proper act (List.mem_append_left later member)
  have proper'' := fun act member => proper act (List.mem_append_right earlier member)
  have unworn' := unworn
  rw [afterActs_append] at unworn'
  have middle := initial.after (admits_acts proper') (isUnworn_of_after _ unworn')
  by_contra gone
  refine middle.not_live_after (admits_acts proper'') unworn' (mem_used_after (mem_names.mpr live))
    (fun live' => gone (same earlier ▸ live' :)) ?_
  rw [← after_append, ← List.filterMap_append]
  have attached' := (same (earlier ++ later)).symm ▸ attached
  exact final.linked.live_of_isAttached attached'

end History

end Markup
