import Markup.Proofs.Workspace.Identity
import Markup.Proofs.Workspace.Namespaces

/-!
# What handles keep

What is done through handles changes a document by a call, by a move inside it or by a copy that
comes in. What these three keep is kept by any sequence of deeds through handles, in all documents
that are open.
-/

namespace Markup

variable {motive : Document → Prop} {workspace : Workspace}

/-- Whether a deed is done through handles. -/
def Deed.IsThroughHandles : Deed → Prop
  | tree .. => False
  | call .. => True
  | insert .. => True

/-- What stays true of a document whatever is called on its handles, wherever its nodes are moved
and whatever is copied in from a document of which it is true as well. -/
structure Document.KeptByHandles (motive : Document → Prop) : Prop where
  change : ∀ {doc doc' : Document} {id : NodeId} {mutation : Mutation}, motive doc →
    doc.isAttached id = true → mutation.change doc id = .ok doc' → motive doc'
  move : ∀ {doc doc' : Document} {target node : NodeId} {placement : Placement}, motive doc →
    doc.isAttached target = true → doc.move target node placement = .ok doc' → motive doc'
  copyIn : ∀ {doc source : Document} {target node : NodeId}
    {needed : List (Option String × String)} {placement : Placement} {result : NodeId × Document},
    motive doc → motive source → doc.isAttached target = true → source.isAttached node = true →
      doc.copyIn target (source.tree node) needed placement = .ok result → motive result.2

namespace Workspace

open Document

variable (kept : KeptByHandles motive) (before : ∀ number, motive (workspace.tree number))
include kept before

theorem all_effect {deed : Deed} (handled : deed.IsThroughHandles) (number : Nat) :
    motive ((deed.effect workspace).tree number) := by
  cases deed with
  | tree => exact handled.elim
  | call handle mutation =>
    rw [Deed.effect, Mutation.effect_call]
    refine follow_elim (before number) fun changed _ done => ?_
    rw [Handle.outcome] at done
    split at done
    · rename_i attached
      exact kept.change (before handle.document) attached done
    · cases done
  | insert handle node placement =>
    rw [Deed.effect]
    by_cases same : handle.document = node.document
    · rw [Handle.effect_insert_same same]
      refine follow_elim (before number) fun changed _ done => ?_
      rw [Handle.outcome] at done
      split at done
      · rename_i attached
        exact kept.move (before handle.document) attached done
      · cases done
    · rw [Handle.effect_insert_other same]
      split
      · rename_i attachedN
        refine follow_elim (before number) fun changed _ done => ?_
        rw [Handle.outcome] at done
        split at done
        · rename_i attached
          obtain ⟨result, copied, rfl⟩ := map_eq_ok.mp done
          exact kept.copyIn (before handle.document) (before node.document) attached attachedN
            copied
        · cases done
      · exact before number

/-- What a single change through handles keeps is kept by any number of them. -/
theorem all_afterDeeds {deeds : List Deed} (handled : ∀ deed ∈ deeds, deed.IsThroughHandles) :
    ∀ number, motive ((workspace.afterDeeds deeds).tree number) := by
  induction deeds generalizing workspace with
  | nil => exact before
  | cons deed rest ih =>
    obtain ⟨first, later⟩ := List.forall_mem_cons.mp handled
    exact ih (all_effect kept before first) later

omit kept before in
/-- What all documents begin with is so where no document is open, too. -/
theorem all_of_beginnings (begins : ∀ {doc : Document}, IsBeginning doc → motive doc)
    (beginning : ∀ number < workspace.documents.size, IsBeginning (workspace.tree number)) :
    ∀ number, motive (workspace.tree number) := by
  intro number
  by_cases opened : number < workspace.documents.size
  · exact begins (beginning number opened)
  · rw [tree_of_size_le (Nat.le_of_not_lt opened)]
    exact begins .empty

end Workspace
end Markup
