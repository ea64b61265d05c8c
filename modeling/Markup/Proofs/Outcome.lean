/-!
# Outcomes of computations that can fail
-/

namespace Markup

variable {ε α β : Type}

/-- A computation succeeds as a whole if each of its parts does. -/
theorem bind_eq_ok {first : Except ε α} {rest : α → Except ε β} {value : β} :
    (first >>= rest) = .ok value ↔ ∃ middle, first = .ok middle ∧ rest middle = .ok value := by
  cases first with
  | error failure => simp [bind, Except.bind]
  | ok middle => simp [bind, Except.bind]

/-- What goes on from the same outcomes in the same way comes to the same. -/
theorem bind_congr_ok {first : Except ε α} {rest rest' : α → Except ε β}
    (same : ∀ middle, first = .ok middle → rest middle = rest' middle) :
    (first >>= rest) = (first >>= rest') := by
  cases first with
  | error failure => rfl
  | ok middle => exact same middle rfl

theorem map_eq_ok {first : Except ε α} {change : α → β} {value : β} :
    first.map change = .ok value ↔ ∃ middle, first = .ok middle ∧ change middle = value := by
  cases first with
  | error failure => simp [Except.map]
  | ok middle => simp [Except.map]

theorem map_eq_error {first : Except ε α} {change : α → β} {failure : ε} :
    first.map change = .error failure ↔ first = .error failure := by
  cases first with
  | error problem => simp [Except.map]
  | ok middle => simp [Except.map]

/-- A run over a list fails where one of its steps fails after those before it. -/
theorem foldlM_eq_error {step : β → α → Except ε β} {list : List α} {start : β} {failure : ε} :
    list.foldlM step start = .error failure ↔ ∃ before each after middle,
      list = before ++ each :: after ∧ before.foldlM step start = .ok middle ∧
        step middle each = .error failure := by
  induction list generalizing start with
  | nil =>
    refine iff_of_false nofun ?_
    rintro ⟨before, each, after, middle, same, -⟩
    exact absurd (congrArg List.length same) (by simp)
  | cons first rest ih =>
    rw [List.foldlM_cons]
    cases ran : step start first with
    | error problem =>
      constructor
      · rintro ⟨⟩
        exact ⟨[], first, rest, start, rfl, rfl, ran⟩
      · rintro ⟨_ | ⟨_, before⟩, each, after, middle, same, went, failed⟩ <;> cases same
        · cases went
          exact ran.symm.trans failed
        · rw [List.foldlM_cons, ran] at went
          cases went
    | ok next =>
      refine ih.trans ⟨?_, ?_⟩
      · rintro ⟨before, each, after, middle, rfl, went, failed⟩
        refine ⟨first :: before, each, after, middle, rfl, ?_, failed⟩
        rw [List.foldlM_cons, ran]
        exact went
      · rintro ⟨_ | ⟨_, before⟩, each, after, middle, same, went, failed⟩ <;> cases same
        · cases went
          exact absurd (ran.symm.trans failed) nofun
        · rw [List.foldlM_cons, ran] at went
          exact ⟨before, each, after, middle, rfl, went, failed⟩

/-- What can fail and changes a state goes on from the state that its first part leaves, and that
state is left if the first part fails. -/
theorem run_bind {σ : Type} (first : ExceptT ε (StateM σ) α) (rest : α → ExceptT ε (StateM σ) β)
    (state : σ) : (first >>= rest).run state = match first.run state with
      | (.ok value, after) => (rest value).run after
      | (.error failure, after) => (.error failure, after) := by
  show (match first.run state with
    | (result, after) =>
      (ExceptT.bindCont (m := StateM σ) rest result : StateM σ _) after) = _
  rcases first.run state with ⟨_ | value, after⟩ <;> rfl

end Markup
