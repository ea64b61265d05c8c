import Mathlib
import Markup.XPath.Comparison

/-!
# Comparisons in both directions

Which operands are converted to what depends on their types, but not on which of them stands first.
So equality and inequality are symmetric, and an order holds between two values exactly if the
converse order holds with the values exchanged. With nodes on both sides it is enough that one pair
of them satisfies the comparison, whichever side is gone through first. Numbers are compared alike in
both directions, and not at all if one of them is not a number.
-/

namespace Markup

namespace Number

open Float.Model Float.Model.UnpackedFloat

/-! ## Numbers -/

theorem compare_swap (x y : UnpackedFloat) : y.compare x = (x.compare y).map Ordering.swap := by
  cases x with
  | notANumber => cases y <;> rfl
  | infinity sign =>
    cases y with
    | infinity sign' => cases sign <;> cases sign' <;> rfl
    | _ => cases sign <;> rfl
  | zero sign =>
    cases y with
    | notANumber | zero => rfl
    | infinity sign' | finite sign' => cases sign' <;> rfl
  | finite sign mantissa exponent positive =>
    cases y with
    | notANumber => rfl
    | infinity sign' => cases sign' <;> cases sign <;> rfl
    | zero => cases sign <;> rfl
    | finite sign' mantissa' exponent' positive' =>
      -- Exponents are compared first, and turned around for negative numbers on both sides.
      have turned : (compare exponent' exponent).then (compare mantissa' mantissa) =
          ((compare exponent exponent').then (compare mantissa mantissa')).swap := by
        rw [Ordering.swap_then, ← Std.OrientedOrd.eq_swap, ← Std.OrientedOrd.eq_swap]
      cases sign <;> cases sign' <;> simp [UnpackedFloat.compare, turned]

theorem beq_comm (x y : Float) : (x == y) = (y == x) := by
  have turned := compare_swap x.toModel.unpack y.toModel.unpack
  show (x.toModel.unpack.compare y.toModel.unpack == some .eq) =
    (y.toModel.unpack.compare x.toModel.unpack == some .eq)
  rw [turned]
  rcases x.toModel.unpack.compare y.toModel.unpack with _ | (_ | _ | _) <;> rfl

end Number

namespace XPath

/-! ## Values -/

variable {doc : Document} {negated : Bool} {relation : Relation} {left right : Value}

/-- A relation with its sides exchanged. -/
def Relation.converse : Relation → Relation
  | less => greater
  | atMost => atLeast
  | greater => less
  | atLeast => atMost

theorem Relation.holds_converse (x y : Float) :
    relation.converse.holds y x = relation.holds x y := by
  cases relation <;> rfl

/-- Whether some pair satisfies a test does not depend on the list that is gone through first. -/
theorem any_any_comm {α β : Type} (xs : List α) (ys : List β) (test : α → β → Bool) :
    (xs.any fun x => ys.any fun y => test x y) = ys.any fun y => xs.any fun x => test x y := by
  rw [Bool.eq_iff_iff]
  simp only [List.any_eq_true]
  constructor
  · rintro ⟨x, memberX, y, memberY, passed⟩
    exact ⟨y, memberY, x, memberX, passed⟩
  · rintro ⟨y, memberY, x, memberX, passed⟩
    exact ⟨x, memberX, y, memberY, passed⟩

namespace Value

/-- Two values are equal, or differ, whichever of them stands first. -/
theorem agree_comm : left.agree doc negated right = right.agree doc negated left := by
  cases left with
  | nodes found =>
    cases right with
    | nodes others =>
      refine (any_any_comm _ _ _).trans ?_
      simp only [agree, BEq.comm]
    | boolean | number | string => rfl
  | boolean value =>
    cases right with
    | nodes others => rfl
    | boolean | number | string => exact congrArg (· != negated) BEq.comm
  | number value =>
    cases right with
    | nodes others => rfl
    | boolean other => exact congrArg (· != negated) BEq.comm
    | number | string => exact congrArg (· != negated) (Number.beq_comm _ _)
  | string value =>
    cases right with
    | nodes others => rfl
    | boolean | string => exact congrArg (· != negated) BEq.comm
    | number other => exact congrArg (· != negated) (Number.beq_comm _ _)

/-- A relation holds between two values if its converse holds between the second and the first. -/
theorem related_converse (relation : Relation) :
    right.related doc relation.converse left = left.related doc relation right := by
  cases left with
  | nodes found =>
    cases right with
    | nodes others =>
      simp only [related, Relation.holds_converse]
      exact any_any_comm _ _ _
    | boolean | number | string => simp only [related, Relation.holds_converse]
  | boolean | number | string =>
    cases right <;> simp only [related, Relation.holds_converse]

/-- The comparisons of values are symmetric: two values are equal in both directions or in none,
and likewise if they differ, and the first is less than the second, or at most the second, exactly
if the second is greater than the first, or at least the first. -/
theorem comparisons_symmetric (doc : Document) (left right : Value) :
    left.agree doc false right = right.agree doc false left ∧
    left.agree doc true right = right.agree doc true left ∧
    left.related doc .less right = right.related doc .greater left ∧
    left.related doc .atMost right = right.related doc .atLeast left := by
  have less : right.related doc .greater left = left.related doc .less right :=
    related_converse .less
  have atMost : right.related doc .atLeast left = left.related doc .atMost right :=
    related_converse .atMost
  exact ⟨agree_comm, agree_comm, less.symm, atMost.symm⟩

end Value

end XPath
end Markup
