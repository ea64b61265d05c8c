import Markup.Document.Basic
import Mathlib.Data.List.Nodup

/-!
# Walks that end

A walk along links is cut off after as many steps as there are slots. Here is the list that an
uncut walk meets, and when the two are the same.
-/

namespace Markup

variable {next other : NodeId → Option NodeId} {start : Option NodeId} {id : NodeId}
  {list before after : List NodeId}

/-- Following `next` from `start` meets the nodes of the list, in this order, and ends. -/
def Leads (next : NodeId → Option NodeId) : Option NodeId → List NodeId → Prop
  | start, [] => start = none
  | start, id :: rest => start = some id ∧ Leads next (next id) rest

namespace Leads

@[simp] theorem nil_iff : Leads next start [] ↔ start = none := Iff.rfl

@[simp] theorem cons_iff :
    Leads next start (id :: list) ↔ start = some id ∧ Leads next (next id) list := Iff.rfl

theorem none_iff : Leads next none list ↔ list = [] := by
  cases list <;> simp

theorem start_eq (walk : Leads next start list) : start = list.head? := by
  cases list with
  | nil => exact walk
  | cons id rest => exact walk.1

/-- A walk is settled by where it starts. -/
theorem unique (left : Leads next start before) (right : Leads next start after) :
    before = after := by
  induction before generalizing start after with
  | nil =>
    cases after with
    | nil => rfl
    | cons id rest => exact absurd (left.symm.trans right.1) (by simp)
  | cons first rest ih =>
    cases after with
    | nil => exact absurd (left.1.symm.trans right) (by simp)
    | cons id others =>
      obtain rfl : first = id := Option.some.inj (left.1.symm.trans right.1)
      rw [ih left.2 right.2]

/-- What a walk meets from some node on is a walk of its own. -/
theorem drop (walk : Leads next start (before ++ id :: after)) :
    Leads next (some id) (id :: after) := by
  induction before generalizing start with
  | nil => exact ⟨rfl, walk.2⟩
  | cons first rest ih => exact ih walk.2

theorem next_eq (walk : Leads next start (before ++ id :: after)) : next id = after.head? :=
  walk.drop.2.start_eq

/-- A walk may go on along another link from some node on. -/
theorem splice (walk : Leads next start (before ++ id :: after))
    (same : ∀ earlier ∈ before, other earlier = next earlier)
    (rest : Leads other (some id) list) : Leads other start (before ++ list) := by
  induction before generalizing start with
  | nil =>
    rw [walk.1]
    exact rest
  | cons first others ih =>
    refine ⟨walk.1, ?_⟩
    rw [same first (by simp)]
    exact ih walk.2 fun earlier member => same earlier (by simp [member])

theorem congr (walk : Leads next start list) (same : ∀ id ∈ list, other id = next id) :
    Leads other start list := by
  induction list generalizing start with
  | nil => exact walk
  | cons id rest ih =>
    refine ⟨walk.1, ?_⟩
    rw [same id (by simp)]
    exact ih walk.2 fun later member => same later (by simp [member])

/-- A walk that ends meets no node twice. -/
theorem nodup (walk : Leads next start list) : list.Nodup := by
  induction list generalizing start with
  | nil => exact List.nodup_nil
  | cons id rest ih =>
    refine List.nodup_cons.mpr ⟨fun member => ?_, ih walk.2⟩
    obtain ⟨before, after, split⟩ := List.append_of_mem member
    have again : Leads next (some id) (id :: after) := by
      have later := walk.2
      rw [split] at later
      exact later.drop
    have shorter : rest = after := walk.2.unique again.2
    have lengths := congrArg List.length split
    simp only [shorter, List.length_append, List.length_cons] at lengths
    omega

/-- A node put among those that a walk meets is met in its place. -/
theorem insert (walk : Leads next (before ++ after).head? (before ++ after))
    (fresh : id ∉ before ++ after)
    (links : ∀ each ∈ before ++ id :: after, other each =
      if each = id then after.head?
      else if before.getLast? = some each then some id else next each) :
    Leads other (before ++ id :: after).head? (before ++ id :: after) := by
  have single := walk.nodup
  have behind : Leads next after.head? after → Leads other (some id) (id :: after) := by
    intro later
    refine ⟨rfl, ?_⟩
    rw [links id (by simp), if_pos rfl]
    apply later.congr
    intro each member
    have last : before.getLast? ≠ some each := fun last =>
      (List.nodup_append.mp single).2.2 each (List.mem_of_getLast? last) each member rfl
    have distinct : each ≠ id := fun same => fresh (by simp [← same, member])
    rw [links each (by simp [member]), if_neg distinct, if_neg last]
  rcases List.eq_nil_or_concat before with rfl | ⟨first, last, rfl⟩
  · exact behind walk
  · have split : (first ++ [last]) ++ after = first ++ last :: after := by simp
    have split' : (first ++ [last]) ++ id :: after = first ++ last :: id :: after := by simp
    rw [List.concat_eq_append] at *
    rw [split] at walk single fresh
    rw [split']
    have start : (first ++ last :: after).head? = (first ++ last :: id :: after).head? := by
      cases first <;> rfl
    rw [start] at walk
    refine walk.splice (fun each member => ?_) ⟨rfl, ?_⟩
    · have distinct : each ≠ id := fun same => fresh (by simp [← same, member])
      have inner : last ≠ each := fun same =>
        (List.nodup_append.mp single).2.2 each member last (by simp) same.symm
      rw [links each (by simp [member]), if_neg distinct]
      simp [inner]
    · have distinct : last ≠ id := fun same => fresh (by simp [same])
      rw [links last (by simp), if_neg distinct, if_pos (by simp)]
      apply behind
      have later := walk.drop.2
      rwa [later.start_eq] at later

/-- A node taken out of those that a walk meets is passed over. -/
theorem erase (walk : Leads next (before ++ id :: after).head? (before ++ id :: after))
    (links : ∀ each ∈ before ++ after, other each =
      if before.getLast? = some each then after.head? else next each) :
    Leads other (before ++ after).head? (before ++ after) := by
  have single := walk.nodup
  have behind : Leads other after.head? after := by
    have later := walk.drop.2
    rw [later.start_eq] at later
    apply later.congr
    intro each member
    have last : before.getLast? ≠ some each := fun last =>
      (List.nodup_append.mp single).2.2 each (List.mem_of_getLast? last) each (by simp [member]) rfl
    rw [links each (by simp [member]), if_neg last]
  rcases List.eq_nil_or_concat before with rfl | ⟨first, last, rfl⟩
  · exact behind
  · rw [List.concat_eq_append] at *
    have split : (first ++ [last]) ++ after = first ++ last :: after := by simp
    have split' : (first ++ [last]) ++ id :: after = first ++ last :: id :: after := by simp
    rw [split'] at walk single
    rw [split]
    have start : (first ++ last :: id :: after).head? = (first ++ last :: after).head? := by
      cases first <;> rfl
    rw [start] at walk
    refine walk.splice (fun each member => ?_) ⟨rfl, ?_⟩
    · have inner : last ≠ each := fun same =>
        (List.nodup_append.mp single).2.2 each member last (by simp) same.symm
      rw [links each (by simp [member])]
      simp [inner]
    · rw [links last (by simp), if_pos (by simp)]
      exact behind

/-- A walk that ends within the given steps is not cut off. -/
theorem walk_eq (walk : Leads next start list) {steps : Nat} (enough : list.length ≤ steps) :
    Document.walk next steps start = list := by
  induction list generalizing start steps with
  | nil =>
    obtain rfl : start = none := walk
    cases steps <;> rfl
  | cons id rest ih =>
    obtain ⟨rfl, later⟩ := walk
    cases steps with
    | zero => simp at enough
    | succ steps =>
      rw [Document.walk, ih later (by simpa using enough)]

end Leads
end Markup
