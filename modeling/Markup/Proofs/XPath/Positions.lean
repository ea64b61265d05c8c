import Mathlib
import Markup.Proofs.Number.Digits
import Markup.Proofs.XPath.Evaluate

/-!
# Positions

A predicate that is a number keeps the node at that position. Positions count along the axis of a
step, which on some axes is against the order of the document, and along the document where an
expression in parentheses is filtered.
-/

namespace Markup.XPath

open Document Number

variable {doc : Document} {values : List (String × Value)} {scope : Scope}
  {holds : Focus → Except Fault Value} {predicate : Expr} {nodes : List Node} {x : Float} {n : Nat}

/-! ## Members of lists -/

/-- The member of a list at a place, where the first place is one; nothing if there is no such
place. -/
def memberAt (nodes : List Node) : Nat → List Node
  | 0 => []
  | k + 1 => nodes[k]?.toList

theorem memberAt_cons_succ (node : Node) (nodes : List Node) (k : Nat) :
    memberAt (node :: nodes) (k + 2) = memberAt nodes (k + 1) := rfl

@[simp] theorem memberAt_nil (k : Nat) : memberAt [] k = [] := by
  cases k <;> rfl

/-- The members of a reversed list are counted from the other end. -/
theorem memberAt_reverse {k : Nat} (positive : 0 < k) :
    memberAt nodes.reverse k = memberAt nodes (nodes.length + 1 - k) := by
  obtain ⟨k, rfl⟩ := Nat.exists_eq_add_of_le' positive
  by_cases inside : k < nodes.length
  · have place : nodes.length + 1 - (k + 1) = nodes.length - 1 - k + 1 := by omega
    rw [place, memberAt, memberAt, List.getElem?_reverse inside]
  · have place : nodes.length + 1 - (k + 1) = 0 := by omega
    rw [place, memberAt, memberAt, List.getElem?_eq_none (by simpa using inside)]
    rfl

/-- No list of one place is changed by being reversed. -/
theorem reverse_memberAt (k : Nat) : (memberAt nodes k).reverse = memberAt nodes k := by
  cases k with
  | zero => rfl
  | succ k =>
    rw [memberAt]
    cases nodes[k]? <;> rfl

/-! ## Numbers as predicates -/

/-- The rest of some nodes, the first of which is at a position, with a predicate that is a whole
number. -/
theorem keepFrom_eq_memberAt {size position : Nat}
    (means : ∀ node position, holds ⟨node, position, size⟩ = .ok (.number x))
    (approximates : Approximates x.toModel.unpack n) (positive : 0 < n) (begun : 0 < position)
    (bounded : position + nodes.length ≤ 2 ^ 53) :
    keepFrom holds size position nodes = .ok (memberAt nodes (n + 1 - position)) := by
  induction nodes generalizing position with
  | nil => rw [keepFrom, memberAt_nil]
  | cons node rest ih =>
    rw [List.length_cons] at bounded
    have here : (Value.number x).selects position = true ↔ n = position :=
      beq_ofNat_iff approximates positive begun (by omega)
    rw [keepFrom, means, ih (by omega) (by omega)]
    show Except.ok (if _ then _ else _) = _
    congr 1
    split
    · next selected =>
      obtain rfl := here.mp selected
      have place : n + 1 - n = 0 + 1 := by omega
      rw [Nat.sub_self, place]
      rfl
    · next passed =>
      rcases Nat.lt_trichotomy n position with before | same | after
      · have none : n + 1 - position = 0 := by omega
        have none' : n + 1 - (position + 1) = 0 := by omega
        rw [none, none']
        rfl
      · exact absurd (here.mpr same) passed
      · obtain ⟨k, rfl⟩ : ∃ k, n = position + k + 1 := ⟨n - position - 1, by omega⟩
        have place : position + k + 1 + 1 - position = k + 2 := by omega
        have place' : position + k + 1 + 1 - (position + 1) = k + 1 := by omega
        rw [place, place', memberAt_cons_succ]

/-- A predicate that is a whole number for all nodes keeps the one at that position. -/
theorem keepAll_eq_memberAt (means : ∀ node position,
      predicate.eval scope ⟨node, position, nodes.length⟩ = .ok (.number x))
    (approximates : Approximates x.toModel.unpack n) (positive : 0 < n)
    (bounded : nodes.length < 2 ^ 53) :
    keepAll scope [predicate] nodes = .ok (memberAt nodes n) := by
  rw [keepAll, keep, keepFrom_eq_memberAt means approximates positive Nat.one_pos (by omega),
    Nat.add_sub_cancel]
  rfl

theorem keepAll_literal {digits : List Char} (numeric : digits.all Char.isDigit = true)
    (positive : 0 < Text.digitsValue 10 digits) (bounded : nodes.length < 2 ^ 53) :
    keepAll scope [.number (ofDigits false digits [])] nodes =
      .ok (memberAt nodes (Text.digitsValue 10 digits)) := by
  refine keepAll_eq_memberAt (fun node position => ?_) (approximates_ofDigits numeric positive)
    positive bounded
  rw [Expr.eval]

theorem keepAll_last (bounded : nodes.length < 2 ^ 53) :
    keepAll scope [.call .last []] nodes = .ok (memberAt nodes nodes.length) := by
  cases nodes with
  | nil => rfl
  | cons node rest =>
    have positive : 0 < (node :: rest).length := Nat.succ_pos _
    exact keepAll_eq_memberAt (fun _ _ => rfl) (approximates_ofNat positive) positive bounded

/-! ## Steps from one node -/

/-- A step from one node leads to what its predicates leave of the axis, in document order. -/
theorem eval_path_step (axis : Axis) (test : NodeTest) (predicates : List Expr) (focus : Focus) :
    (Expr.path [.to axis test predicates]).eval scope focus =
      (keepAll scope predicates (candidates scope.doc axis test focus.node)).map fun found =>
        .nodes (if axis.isReverse then found.reverse else found) := by
  rw [Expr.eval, follow, Step.take, List.mapM_cons]
  cases keepAll scope predicates (candidates scope.doc axis test focus.node) <;> rfl

/-- Digits before a closing bracket are read as one number. -/
theorem readNumber_digits {digits : List Char} (numeric : digits.all Char.isDigit = true)
    (rest : List Char) : readNumber (digits ++ ']' :: rest) =
      (.number (ofDigits false digits []), digits.length) := by
  have before : (digits ++ ']' :: rest).takeWhile Char.isDigit = digits := by
    rw [List.takeWhile_append_of_pos (List.all_eq_true.mp numeric),
      List.takeWhile_cons_of_neg (by decide), List.append_nil]
  rw [readNumber, before, List.drop_left]
  rfl

/-- Positions count along the axis. Of the nodes that an axis and a test select, which are in
document order, a step with a number in brackets selects the one at that place from the start, or
from the end on the axes that lead back, and nothing if there is no such place. With `last()` it
selects the last one, or the first one on the axes that lead back. In parentheses they are always
counted from the start. Positions are floating-point numbers, which tell whole numbers below
`2 ^ 53` apart. -/
theorem positions_count_along_axis (doc : Document) (values : List (String × Value)) (axis : Axis)
    (test : NodeTest) (focus : Focus) :
    ∃ found, (Expr.path [.to axis test []]).eval (.of doc values) focus = .ok (.nodes found) ∧
      (doc.WellLinked → focus.node.IsPresent doc → InOrder doc found) ∧
      (found.length < 2 ^ 53 →
        (∀ digits : List Char, digits.all Char.isDigit = true → 0 < Text.digitsValue 10 digits →
          ∃ x, (∀ rest, readNumber (digits ++ ']' :: rest) = (.number x, digits.length)) ∧
            (Expr.path [.to axis test [.number x]]).eval (.of doc values) focus =
              .ok (.nodes (memberAt found
                (if axis.isReverse then found.length + 1 - Text.digitsValue 10 digits
                  else Text.digitsValue 10 digits))) ∧
            (Expr.filter (.path [.to axis test []]) [.number x]).eval (.of doc values) focus =
              .ok (.nodes (memberAt found (Text.digitsValue 10 digits)))) ∧
        (Expr.path [.to axis test [.call .last []]]).eval (.of doc values) focus =
          .ok (.nodes (memberAt found (if axis.isReverse then 1 else found.length)))) := by
  generalize listed : candidates doc axis test focus.node = along
  have plain : (Expr.path [.to axis test []]).eval (.of doc values) focus =
      .ok (.nodes (if axis.isReverse then along.reverse else along)) := by
    rw [eval_path_step, keepAll, ← listed]
    rfl
  have length : (if axis.isReverse then along.reverse else along).length = along.length := by
    split
    · exact List.length_reverse
    · rfl
  refine ⟨_, plain, fun linked present => ?_, fun bounded => ⟨fun digits numeric positive =>
    ⟨_, readNumber_digits numeric, ?_, ?_⟩, ?_⟩⟩
  · have kept : keepAll (.of doc values) [] (candidates doc axis test focus.node) = .ok along := by
      rw [keepAll, listed]
    exact inOrder_kept linked present kept
  · rw [length] at bounded
    rw [eval_path_step, Scope.of, listed, keepAll_literal numeric positive bounded]
    show Except.ok (Value.nodes (if _ then _ else _)) = _
    rw [reverse_memberAt, ite_self]
    split
    · rw [← memberAt_reverse positive, List.reverse_reverse]
    · rfl
  · rw [Expr.eval, plain]
    show (keepAll _ _ _ >>= _) = _
    rw [keepAll_literal numeric positive bounded]
    rfl
  · rw [length] at bounded
    rw [eval_path_step, Scope.of, listed, keepAll_last bounded]
    show Except.ok (Value.nodes (if _ then _ else _)) = _
    rw [reverse_memberAt, ite_self]
    split
    · rw [memberAt_reverse Nat.one_pos, Nat.add_sub_cancel]
    · rfl

/-- On the way up from an attribute its owner and the document node come after it. The third node
on this axis is the document node, but in document order the third one is the attribute. -/
theorem positions_count_along_axis_above :
    InOrder sampleDocument [.tree root, .tree ⟨2, 0⟩, .attr ⟨2, 0⟩ 1] ∧
    (∃ x, readNumber ['3', ']'] = (.number x, 1) ∧
      (Expr.path [.to .ancestorOrSelf .anyNode [.number x]]).eval (.of sampleDocument [])
        ⟨.attr ⟨2, 0⟩ 1, 1, 1⟩ = .ok (.nodes [.tree root]) ∧
      (Expr.filter (.path [.to .ancestorOrSelf .anyNode []]) [.number x]).eval
        (.of sampleDocument []) ⟨.attr ⟨2, 0⟩ 1, 1, 1⟩ = .ok (.nodes [.attr ⟨2, 0⟩ 1])) ∧
    (Expr.path [.to .ancestorOrSelf .anyNode [.call .last []]]).eval (.of sampleDocument [])
      ⟨.attr ⟨2, 0⟩ 1, 1, 1⟩ = .ok (.nodes [.tree root]) := by
  have linked : sampleDocument.WellLinked :=
    (extended_grow wellLinked_empty wellLinked_empty.root_live _).linked
  obtain ⟨found, plain, ordered, positions⟩ :=
    positions_count_along_axis sampleDocument [] .ancestorOrSelf .anyNode ⟨.attr ⟨2, 0⟩ 1, 1, 1⟩
  obtain rfl : [.tree root, .tree ⟨2, 0⟩, .attr ⟨2, 0⟩ 1] = found := by
    have same : (Expr.path [.to .ancestorOrSelf .anyNode []]).eval (.of sampleDocument [])
        ⟨.attr ⟨2, 0⟩ 1, 1, 1⟩ =
          .ok (.nodes [.tree root, .tree ⟨2, 0⟩, .attr ⟨2, 0⟩ 1]) := by cbv
    rw [same] at plain
    cases plain
    rfl
  obtain ⟨literal, last⟩ := positions (by decide)
  obtain ⟨x, read, along, filtered⟩ := literal ['3'] (by decide) (by decide)
  exact ⟨ordered linked ⟨by decide, by decide⟩, ⟨x, read [], along, filtered⟩, last⟩

end Markup.XPath
