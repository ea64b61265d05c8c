import Markup.Proofs.Outcome
import Markup.Proofs.XPath.Ranges
import Markup.XPath.Evaluator

/-!
# Calls that check what they take

Functions take their arguments by their places, without a look at how many there are, and cut parts
out of texts between places that they compute. Here are calls that stop where a place is outside of
the list or the text. They never do where the number of arguments is one that the function takes.
-/

namespace Markup.XPath

variable {α : Type} {scope : Scope} {arguments : List Expr} {focus : Focus}

/-! ## Failures -/

/-- Why a checked evaluation stops. -/
inductive Failure where
  | fault (fault : Fault)
  /-- What is taken is outside of the list or the text that it is taken from. -/
  | outOfRange
  deriving Repr, DecidableEq

/-- An evaluation in which nothing is out of range. -/
def inRange (done : Except Fault α) : Except Failure α := done.mapError .fault

/-- What is taken from a list or a text. -/
def taken : Option α → Except Failure α
  | some found => .ok found
  | none => .error .outOfRange

theorem inRange_ne_outOfRange (done : Except Fault α) : inRange done ≠ .error .outOfRange := by
  cases done <;> nofun

/-! ## Parts of texts -/

section Parts

variable {part whole : List Char}

/-- What comes before the first place where a text contains a part, cut off at that byte. -/
def cutBefore (part whole : List Char) : Except Failure (List Char) :=
  match Text.byteOffset? part whole with
  | none => return []
  | some offset => return (← taken (Text.cutAt? whole offset)).1

/-- What comes after the first place where a text contains a part, cut off behind the bytes of the
part. -/
def cutAfter (part whole : List Char) : Except Failure (List Char) :=
  match Text.byteOffset? part whole with
  | none => return []
  | some offset => return (← taken (Text.cutAt? whole (offset + Text.byteLength part))).2

theorem cutBefore_eq :
    cutBefore part whole = .ok (((Text.splitAround part whole).map (·.1)).getD []) := by
  rw [cutBefore, Text.byteOffset?_eq]
  cases found : Text.splitAround part whole with
  | none => rfl
  | some cut =>
    simp only [Option.map_some, Text.cutAt?_before found]
    rfl

theorem cutAfter_eq :
    cutAfter part whole = .ok (((Text.splitAround part whole).map (·.2)).getD []) := by
  rw [cutAfter, Text.byteOffset?_eq]
  cases found : Text.splitAround part whole with
  | none => rfl
  | some cut =>
    simp only [Option.map_some, Text.cutAt?_after found]
    rfl

end Parts

/-! ## Calls -/

section Call

variable (scope : Scope) (arguments : List Expr) (focus : Focus)

/-- The value of the argument at a place. -/
def valueAt (index : Nat) : Except Failure Value := do
  let argument ← taken arguments[index]?
  inRange (argument.eval scope focus)

/-- The text of the argument at a place. -/
def textAt (index : Nat) : Except Failure String :=
  return (← valueAt scope arguments focus index).toText scope.doc

/-- The number of the argument at a place. -/
def numberAt (index : Nat) : Except Failure Float :=
  return (← valueAt scope arguments focus index).toNumber scope.doc

/-- The nodes of the argument at a place. -/
def nodesAt (index : Nat) : Except Failure (List Node) := do
  inRange (← valueAt scope arguments focus index).asNodes

/-- The text of the first argument or, without arguments, that of the node in focus. -/
def textOrFocus : Except Failure String :=
  if arguments.isEmpty then return focus.node.text scope.doc
  else textAt scope arguments focus 0

/-- The first node of the first argument or, without arguments, the node in focus. -/
def nodeOrFocus : Except Failure (Option Node) :=
  if arguments.isEmpty then return focus.node
  else return (← nodesAt scope arguments focus 0).head?

/-- The value of a call that takes its arguments by their places. -/
def Function.callChecked (function : Function) : Except Failure Value :=
  let value := valueAt scope arguments focus
  let text := textAt scope arguments focus
  let number := numberAt scope arguments focus
  let nodes := nodesAt scope arguments focus
  let textOrFocus := textOrFocus scope arguments focus
  let ofNode (f : Document → Node → String) : Except Failure Value :=
    return .string (((← nodeOrFocus scope arguments focus).map (f scope.doc)).getD "")
  match function with
  | .last => return sizeValue focus.size
  | .position => return sizeValue focus.position
  | .count => return sizeValue (← nodes 0).length
  | .id => do
    match ← value 0 with
    | .nodes found =>
      return .nodes (identified scope.doc (" ".intercalate (found.map (·.text scope.doc))))
    | other => return .nodes (identified scope.doc (other.toText scope.doc))
  | .localName => ofNode Node.localName
  | .namespaceUri => ofNode Node.uri
  | .name => ofNode Node.name
  | .string => return .string (← textOrFocus)
  | .concat => return .string (String.join (← (List.range arguments.length).mapM text))
  | .startsWith => do
    let whole ← text 0
    return .boolean ((← text 1).toList.isPrefixOf whole.toList)
  | .contains => do
    let whole ← text 0
    return .boolean (Text.contains (← text 1).toList whole.toList)
  | .substringBefore => do
    let whole ← text 0
    return textValue (← cutBefore (← text 1).toList whole.toList)
  | .substringAfter => do
    let whole ← text 0
    return textValue (← cutAfter (← text 1).toList whole.toList)
  | .substring => do
    let whole ← text 0
    let start ← number 1
    let length ← if arguments.length = 3 then some <$> number 2 else pure none
    return textValue (← taken (sliceBetween? whole.toList start length))
  | .stringLength => return sizeValue (← textOrFocus).length
  | .normalizeSpace => return textValue ([' '].intercalate (words (← textOrFocus).toList))
  | .translate => do
    let whole ← text 0
    let source ← text 1
    return textValue (XPath.translate whole.toList source.toList (← text 2).toList)
  | .boolean => return .boolean (← value 0).toBoolean
  | .negation => return .boolean !(← value 0).toBoolean
  | .truth => return .boolean true
  | .falsehood => return .boolean false
  | .lang => return .boolean (isInLanguage scope.doc focus.node.owner (← text 0))
  | .number =>
    if arguments.isEmpty then return .number (numberOf (focus.node.text scope.doc))
    else return .number (← number 0)
  | .sum => do
    let numbers := (← nodes 0).map fun node => numberOf (node.text scope.doc)
    return .number (numbers.foldl (· + ·) (-0.0))
  | .floor => return .number (Number.floor (← number 0))
  | .ceiling => return .number (Number.ceiling (← number 0))
  | .round => return .number (XPath.round (← number 0))

end Call

/-! ## Arguments -/

section Arguments

variable {list : List α} {least most count : Nat} {function : Function} {one two three : Expr}

theorem le_of_admits (fits : Arity.admits ⟨least, some most⟩ count = true) :
    least ≤ count ∧ count ≤ most := by
  simpa [Arity.admits] using fits

theorem nil_of_admits (fits : Arity.admits ⟨0, some 0⟩ list.length = true) : list = [] :=
  List.length_eq_zero_iff.mp (Nat.le_zero.mp (le_of_admits fits).2)

theorem one_of_admits (fits : Arity.admits ⟨1, some 1⟩ list.length = true) : ∃ a, list = [a] :=
  have ⟨least, most⟩ := le_of_admits fits
  List.length_eq_one_iff.mp (Nat.le_antisymm most least)

theorem optional_of_admits (fits : Arity.admits ⟨0, some 1⟩ list.length = true) :
    list = [] ∨ ∃ a, list = [a] :=
  (Nat.le_one_iff_eq_zero_or_eq_one.mp (le_of_admits fits).2).imp List.length_eq_zero_iff.mp
    List.length_eq_one_iff.mp

theorem two_of_admits (fits : Arity.admits ⟨2, some 2⟩ list.length = true) :
    ∃ a b, list = [a, b] :=
  have ⟨least, most⟩ := le_of_admits fits
  List.length_eq_two.mp (Nat.le_antisymm most least)

theorem two_or_three_of_admits (fits : Arity.admits ⟨2, some 3⟩ list.length = true) :
    (∃ a b, list = [a, b]) ∨ ∃ a b c, list = [a, b, c] := by
  have ⟨least, most⟩ := le_of_admits fits
  rcases Nat.lt_or_eq_of_le most with less | same
  · exact .inl (List.length_eq_two.mp (Nat.le_antisymm (Nat.le_of_lt_succ less) least))
  · exact .inr (List.length_eq_three.mp same)

theorem three_of_admits (fits : Arity.admits ⟨3, some 3⟩ list.length = true) :
    ∃ a b c, list = [a, b, c] :=
  have ⟨least, most⟩ := le_of_admits fits
  List.length_eq_three.mp (Nat.le_antisymm most least)

theorem eval_call_one : (Expr.call function [one]).eval scope focus =
    one.eval scope focus >>= fun x => function.apply scope.doc focus [x] := by
  rw [Expr.eval, evalAll, evalAll]
  cases one.eval scope focus <;> rfl

theorem eval_call_two : (Expr.call function [one, two]).eval scope focus =
    one.eval scope focus >>= fun x => two.eval scope focus >>= fun y =>
      function.apply scope.doc focus [x, y] := by
  rw [Expr.eval, evalAll, evalAll, evalAll]
  cases one.eval scope focus
  · rfl
  · cases two.eval scope focus <;> rfl

theorem eval_call_three : (Expr.call function [one, two, three]).eval scope focus =
    one.eval scope focus >>= fun x => two.eval scope focus >>= fun y =>
      three.eval scope focus >>= fun z => function.apply scope.doc focus [x, y, z] := by
  rw [Expr.eval, evalAll, evalAll, evalAll, evalAll]
  cases one.eval scope focus
  · rfl
  · cases two.eval scope focus
    · rfl
    · cases three.eval scope focus <;> rfl

theorem valueAt_zero {rest : List Expr} :
    valueAt scope (one :: rest) focus 0 = inRange (one.eval scope focus) := rfl

theorem valueAt_succ {rest : List Expr} {index : Nat} :
    valueAt scope (one :: rest) focus (index + 1) = valueAt scope rest focus index := rfl

end Arguments

/-! ## Checked calls -/

/-- Whether a value has so short a text that a number can tell how many characters it has. A text
that is longer is larger than any memory. -/
def Value.IsCountable (doc : Document) (value : Value) : Prop :=
  (value.toText doc).length + 1 < 2 ^ 53

theorem taken_sliceBetween? {value : Value} (countable : value.IsCountable scope.doc)
    (start : Float) (length : Option Float) :
    taken (sliceBetween? (value.toText scope.doc).toList start length) =
      .ok (slice (value.toText scope.doc).toList start length) := by
  rw [sliceBetween?_eq (by rwa [String.length_toList])]
  rfl

/-- The arguments are all there, each at its place. -/
theorem mapM_textAt : (List.range arguments.length).mapM (textAt scope arguments focus) =
    inRange ((evalAll scope arguments focus).map (·.map (·.toText scope.doc))) := by
  induction arguments with
  | nil =>
    rw [evalAll]
    rfl
  | cons one rest ih =>
    have later : ((List.range rest.length).map Nat.succ).mapM (textAt scope (one :: rest) focus) =
        inRange ((evalAll scope rest focus).map (·.map (·.toText scope.doc))) := by
      rw [List.mapM_map]
      exact ih
    rw [List.length_cons, List.range_succ_eq_map, List.mapM_cons, later, textAt, valueAt_zero,
      evalAll]
    cases one.eval scope focus with
    | error fault => rfl
    | ok value => cases evalAll scope rest focus <;> rfl

theorem callChecked_substring
    (fits : Function.substring.arity.admits arguments.length = true)
    (countable : ∀ one ∈ arguments.head?, ∀ value, one.eval scope focus = .ok value →
      value.IsCountable scope.doc) :
    Function.substring.callChecked scope arguments focus =
      inRange ((Expr.call .substring arguments).eval scope focus) := by
  obtain ⟨one, two, rfl⟩ | ⟨one, two, three, rfl⟩ := two_or_three_of_admits fits
  · rw [eval_call_two]
    simp only [Function.callChecked, textAt, numberAt, valueAt_zero, valueAt_succ]
    cases first : one.eval scope focus with
    | error fault => rfl
    | ok value =>
      have short := countable one rfl value first
      cases two.eval scope focus with
      | error fault => rfl
      | ok start =>
        exact congrArg (· >>= fun part => pure (textValue part))
          (taken_sliceBetween? short (start.toNumber scope.doc) none)
  · rw [eval_call_three]
    simp only [Function.callChecked, textAt, numberAt, valueAt_zero, valueAt_succ]
    cases first : one.eval scope focus with
    | error fault => rfl
    | ok value =>
      have short := countable one rfl value first
      cases two.eval scope focus with
      | error fault => rfl
      | ok start =>
        cases three.eval scope focus with
        | error fault => rfl
        | ok length =>
          exact congrArg (· >>= fun part => pure (textValue part))
            (taken_sliceBetween? short (start.toNumber scope.doc) (length.toNumber scope.doc))

/-- Where a call has a number of arguments that the function takes, nothing is out of range. -/
theorem callChecked_eq {function : Function}
    (fits : function.arity.admits arguments.length = true)
    (countable : function = .substring → ∀ one ∈ arguments.head?, ∀ value,
      one.eval scope focus = .ok value → value.IsCountable scope.doc) :
    function.callChecked scope arguments focus =
      inRange ((Expr.call function arguments).eval scope focus) := by
  cases function with
  | last | position | truth | falsehood =>
    obtain rfl := nil_of_admits fits
    rw [Expr.eval, evalAll]
    rfl
  | count | id | boolean | negation | lang | sum | floor | ceiling | round =>
    obtain ⟨one, rfl⟩ := one_of_admits fits
    rw [eval_call_one]
    simp only [Function.callChecked, textAt, numberAt, nodesAt, valueAt_zero]
    cases one.eval scope focus with
    | error fault => rfl
    | ok value => cases value <;> rfl
  | localName | namespaceUri | name | string | stringLength | normalizeSpace | number =>
    obtain rfl | ⟨one, rfl⟩ := optional_of_admits fits
    · rw [Expr.eval, evalAll]
      rfl
    · rw [eval_call_one]
      simp only [Function.callChecked, textAt, numberAt, nodesAt, nodeOrFocus, textOrFocus,
        valueAt_zero]
      cases one.eval scope focus with
      | error fault => rfl
      | ok value => cases value <;> rfl
  | startsWith | contains =>
    obtain ⟨one, two, rfl⟩ := two_of_admits fits
    rw [eval_call_two]
    simp only [Function.callChecked, textAt, valueAt_zero, valueAt_succ]
    cases one.eval scope focus with
    | error fault => rfl
    | ok value => cases two.eval scope focus <;> rfl
  | substringBefore | substringAfter =>
    obtain ⟨one, two, rfl⟩ := two_of_admits fits
    rw [eval_call_two]
    simp only [Function.callChecked, textAt, valueAt_zero, valueAt_succ, cutBefore_eq, cutAfter_eq]
    cases one.eval scope focus with
    | error fault => rfl
    | ok value => cases two.eval scope focus <;> rfl
  | translate =>
    obtain ⟨one, two, three, rfl⟩ := three_of_admits fits
    rw [eval_call_three]
    simp only [Function.callChecked, textAt, valueAt_zero, valueAt_succ]
    cases one.eval scope focus with
    | error fault => rfl
    | ok value =>
      cases two.eval scope focus with
      | error fault => rfl
      | ok value => cases three.eval scope focus <;> rfl
  | concat =>
    simp only [Function.callChecked, mapM_textAt]
    rw [Expr.eval]
    cases evalAll scope arguments focus <;> rfl
  | substring => exact callChecked_substring fits (countable rfl)

/-- A call without its last argument is out of range. -/
example : Function.translate.callChecked scope [.literal "a", .literal "b"] focus =
    .error .outOfRange := by
  rw [Function.callChecked]
  rfl

end Markup.XPath
