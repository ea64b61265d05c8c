import Mathlib
import Markup.Proofs.XPath.Yielded

/-!
# What is derived is accepted

The parsers accept exactly what the grammar derives, unless expressions are nested too deeply, and
yield its syntax tree.
-/

namespace Markup.XPath

open Markup.XPath.Parser

variable {bindings : Bindings} {later : List Token}

section Nested

variable {nested : Parser Expr} {ts us vs : List Token} {tree base : Expr}

/-! ## Steps -/

theorem yields_predicates {given : List Expr}
    (read : (Phrase.predicates given).IsRead bindings nested ts later) (stops : Stops 8 later) :
    Yields (allPredicates nested) (ts ++ later) given later :=
  .remaining (read stops _ (Nat.le_refl _))

/-- A step that is not abbreviated does not begin with a dot. -/
theorem not_dot_of_step {along : Axis} {takes : NodeTest} (axis : Derives bindings (.axis along) ts)
    (test : Derives bindings (.test takes) us) : ∃ first rest, ts ++ us = first :: rest ∧
      first.isSymbol .dot = false ∧ first.isSymbol .dotDot = false := by
  cases axis with
  | child =>
    obtain ⟨first, rest, rfl, begins⟩ := test.begins
    refine ⟨first, rest, rfl, ?_⟩
    cases first with
    | symbol => cases begins
    | _ => exact ⟨rfl, rfl⟩
  | attributes | axis => exact ⟨_, _, rfl, rfl, rfl⟩

theorem isRead_step {along : Axis} {takes : NodeTest} {given : List Expr}
    (axis : Derives bindings (.axis along) ts) (test : Derives bindings (.test takes) us)
    (readAxis : ∀ later, (Phrase.axis along).IsRead bindings nested ts later)
    (readTest : ∀ later, (Phrase.test takes).IsRead bindings nested us later)
    (keeps : (Phrase.predicates given).IsRead bindings nested vs later) :
    (Phrase.step (.to along takes given)).IsRead bindings nested (ts ++ us ++ vs) later := by
  intro stops
  have read : Yields Parser.axis (ts ++ (us ++ (vs ++ later))) along (us ++ (vs ++ later)) := by
    apply readAxis
    obtain ⟨first, rest, rfl, begins⟩ := test.begins
    exact ⟨first, _, rfl, begins⟩
  obtain ⟨first, rest, front, dot, dots⟩ := not_dot_of_step axis test
  rw [← List.append_assoc, front, List.cons_append] at read
  rw [front, List.append_assoc, List.cons_append]
  refine (Yields.pass ?_).bind ((Yields.pass ?_).bind ?_)
  · rintro _ ⟨⟩
    exact dot
  · rintro _ ⟨⟩
    exact dots
  · exact read.bind ((readTest _).bind ((yields_predicates keeps stops).bind .pure))

theorem isRead_child : (Phrase.axis .child).IsRead bindings nested [] later := by
  rintro ⟨first, rest, rfl, begins⟩
  cases first with
  | name | nodeType =>
    refine (Yields.pass ?_).bind (.peek .pure)
    rintro _ ⟨⟩
    rfl
  | _ => cases begins

theorem isRead_axis {along : Axis} {name : QName} (known : name.toText = along.name) :
    (Phrase.axis along).IsRead bindings nested [.axis name, .symbol .doubleColon] later := by
  intro _
  refine (Yields.pass ?_).bind (.peek ?_)
  · rintro _ ⟨⟩
    rfl
  · simp only [List.cons_append, List.head?_cons, Axis.ofName?_eq_some_iff.mpr known]
    exact Yields.advance.bind (Yields.expect.bind .pure)

theorem isRead_nodeType (ts : List Token) {type : NodeType} {takes : NodeTest}
    (read : Yields (typeTest type) (ts ++ .symbol .rightParen :: later) takes
      (.symbol .rightParen :: later)) :
    (Phrase.test takes).IsRead bindings nested
      (.nodeType type :: .symbol .leftParen :: ts ++ [.symbol .rightParen]) later := by
  have goesOn : Yields (nodeTest bindings)
      (.nodeType type :: .symbol .leftParen :: (ts ++ .symbol .rightParen :: later)) takes later :=
    .peek <| Yields.advance.bind <| Yields.expect.bind <| read.bind <| Yields.expect.bind .pure
  simpa [Phrase.IsRead] using goesOn

theorem isRead_name {pattern : NamePattern} {takes : NodeTest}
    (read : Yields (resolve bindings pattern) later takes later) :
    (Phrase.test takes).IsRead bindings nested [.name pattern] later :=
  Yields.peek (Yields.advance.bind read)

theorem isRead_noPredicate : (Phrase.predicates []).IsRead bindings nested [] later := by
  intro stops rounds _
  cases rounds with
  | zero => exact .pure
  | succ rounds => exact (Yields.pass (stops.not_symbol (by decide))).bind .pure

theorem isRead_predicate {given : List Expr}
    (first : ∀ later, Stops 0 later → Yields nested (ts ++ later) tree later)
    (rest : (Phrase.predicates given).IsRead bindings nested us later) :
    (Phrase.predicates (tree :: given)).IsRead bindings nested
      (.symbol .leftBracket :: ts ++ .symbol .rightBracket :: us) later := by
  intro stops rounds enough
  rw [List.append_assoc, List.cons_append] at enough ⊢
  cases rounds with
  | zero => cases enough
  | succ rounds =>
    refine Yields.eat.bind <| (first _ (.closing _ _ rfl)).bind <| Yields.expect.bind <|
      Yields.bind ?_ .pure
    exact rest stops rounds (by simp at enough; simp; omega)

/-! ## Other operands -/

theorem isRead_plain (only : (Phrase.primary tree).IsRead bindings nested ts later) :
    (Phrase.filtered tree).IsRead bindings nested ts later := by
  intro stops
  have none : (Phrase.predicates []).IsRead bindings nested [] later := isRead_noPredicate
  exact Yields.bind only ((yields_predicates none stops).bind .pure)

theorem isRead_filter {given : List Expr}
    (start : ∀ later, (Phrase.primary base).IsRead bindings nested ts later)
    (keeps : (Phrase.predicates given).IsRead bindings nested us later) (nonempty : given ≠ []) :
    (Phrase.filtered (.filter base given)).IsRead bindings nested (ts ++ us) later := by
  intro stops
  rw [List.append_assoc]
  refine Yields.bind (start _) ((yields_predicates keeps stops).bind ?_)
  cases given with
  | nil => exact absurd rfl nonempty
  | cons => exact .pure

theorem isRead_reference {name : QName}
    (bound : ∀ nsPrefix, name.nsPrefix = some nsPrefix → (bindings.resolve? nsPrefix).isSome) :
    (Phrase.primary (.reference name)).IsRead bindings nested [.reference name] later := by
  refine Yields.peek (Yields.advance.bind ?_)
  obtain ⟨nsPrefix, localName⟩ := name
  cases nsPrefix with
  | none => exact .pure
  | some nsPrefix =>
    obtain ⟨uri, known⟩ := Option.isSome_iff_exists.mp (bound nsPrefix rfl)
    exact (Yields.require known).bind .pure

theorem isRead_parentheses
    (inner : ∀ later, Stops 0 later → Yields nested (ts ++ later) tree later) :
    (Phrase.primary tree).IsRead bindings nested (.symbol .leftParen :: ts ++ [.symbol .rightParen])
      later := by
  have goesOn : Yields (Parser.primary bindings nested)
      (.symbol .leftParen :: (ts ++ .symbol .rightParen :: later)) tree later :=
    .peek <| Yields.advance.bind <| (inner _ (.closing _ _ rfl)).bind <| Yields.expect.bind .pure
  simpa [Phrase.IsRead] using goesOn

theorem isRead_call {function : Function} {name : QName} {given : List Expr}
    (known : name.toText = function.spelling)
    (gets : ∀ later, (Phrase.arguments given).IsRead bindings nested ts later)
    (fits : function.arity.admits given.length = true) :
    (Phrase.primary (.call function given)).IsRead bindings nested
      (.function name :: .symbol .leftParen :: ts ++ [.symbol .rightParen]) later := by
  have called : Yields (Parser.call nested name.toText)
      (.symbol .leftParen :: (ts ++ .symbol .rightParen :: later)) (.call function given)
      later := by
    unfold Parser.call
    rw [Function.ofName?_eq_some_iff.mpr known]
    refine Yields.expect.bind ((gets _ _ rfl).bind (Yields.expect.bind ?_))
    rw [if_pos fits]
    exact .pure
  have goesOn : Yields (Parser.primary bindings nested)
      (.function name :: .symbol .leftParen :: (ts ++ .symbol .rightParen :: later))
      (.call function given) later := .peek (Yields.advance.bind called)
  simpa [Phrase.IsRead] using goesOn

theorem yields_sees {symbol : Symbol} :
    Yields (sees symbol) later (later.head?.any (·.isSymbol symbol)) later :=
  .peek .pure

theorem isRead_noArgument : (Phrase.arguments []).IsRead bindings nested [] later := by
  rintro rest rfl
  exact yields_sees.bind .pure

/-- A comma or the closing parenthesis follows an argument. -/
theorem stops_others {given : List Expr} {rest : List Token}
    (derived : Derives bindings (.others given) us) :
    Stops 0 (us ++ .symbol .rightParen :: rest) := by
  cases derived with
  | noOther => exact .closing _ _ rfl
  | other => exact .closing _ _ rfl

theorem isRead_argument {given : List Expr} (argument : Derives bindings (.expr tree) ts)
    (others : Derives bindings (.others given) us)
    (first : ∀ later, Stops 0 later → Yields nested (ts ++ later) tree later)
    (rest : (Phrase.others given).IsRead bindings nested us later) :
    (Phrase.arguments (tree :: given)).IsRead bindings nested (ts ++ us) later := by
  rintro after rfl
  have closed : Stops 0 (us ++ .symbol .rightParen :: after) := stops_others others
  have read := first _ closed
  obtain ⟨token, more, rfl, begins⟩ := argument.begins
  rw [List.append_assoc]
  refine yields_sees.bind ?_
  have opens : token.isSymbol .rightParen = false := by
    cases token with
    | symbol mark => cases mark <;> first | rfl | cases begins
    | _ => rfl
  rw [List.cons_append, List.head?_cons, Option.any_some, opens, if_neg (by decide)]
  exact read.bind (.remaining ((rest after rfl _ (Nat.le_refl _)).bind .pure))

theorem isRead_noOther : (Phrase.others []).IsRead bindings nested [] later := by
  rintro rest rfl rounds _
  cases rounds with
  | zero => exact .pure
  | succ rounds =>
    refine (Yields.pass ?_).bind .pure
    rintro _ ⟨⟩
    rfl

theorem isRead_other {given : List Expr} (others : Derives bindings (.others given) us)
    (first : ∀ later, Stops 0 later → Yields nested (ts ++ later) tree later)
    (rest : (Phrase.others given).IsRead bindings nested us later) :
    (Phrase.others (tree :: given)).IsRead bindings nested (.symbol .comma :: ts ++ us) later := by
  rintro after rfl rounds enough
  rw [List.append_assoc] at enough ⊢
  cases rounds with
  | zero => cases enough
  | succ rounds =>
    refine Yields.eat.bind ((first _ (stops_others others)).bind (Yields.bind ?_ .pure))
    exact rest after rfl rounds (by simp at enough; simp; omega)

end Nested

/-- What is derived is read, whatever expressions nested in it are read by. -/
theorem Derives.isRead {phrase : Phrase} {ts : List Token} (derived : Derives bindings phrase ts) :
    ∀ room later, phrase.IsRead bindings (expression bindings room) ts later := by
  induction derived with
  | join _ joins _ first second =>
    exact fun room _ => isRead_join joins (first room) (second room _)
  | operand _ only => exact fun room _ => isRead_operand (only room _)
  | negative _ inner => exact fun room _ => isRead_negative (inner room _)
  | unsigned derived only => exact fun room _ => isRead_unsigned derived (only room _)
  | unite _ _ first second => exact fun room _ => isRead_unite (first room) (second room _)
  | single _ only => exact fun room _ => isRead_single (only room _)
  | location derived only => exact fun room _ => isRead_location derived (only room _)
  | filtered derived only => exact fun room _ => isRead_filtered derived (only room _)
  | pathFrom derived _ start follows =>
    exact fun room _ => isRead_pathFrom derived (start room) (follows room _)
  | anywhereFrom derived _ start follows =>
    exact fun room _ => isRead_anywhereFrom derived (start room) (follows room _)
  | root => exact fun _ _ => isRead_root
  | fromRoot derived follows => exact fun room _ => isRead_fromRoot derived (follows room _)
  | anywhere _ follows => exact fun room _ => isRead_anywhere (follows room _)
  | relative derived only => exact fun room _ => isRead_relative derived (only room _)
  | firstStep _ only => exact fun room _ => isRead_firstStep (only room _)
  | nextStep _ _ before last => exact fun room _ => isRead_nextStep (before room) (last room _)
  | anywhereStep _ _ before last =>
    exact fun room _ => isRead_anywhereStep (before room) (last room _)
  | self => exact fun _ _ _ => Yields.eat.bind .pure
  | parent =>
    intro _ _ _
    refine (Yields.pass ?_).bind (Yields.eat.bind .pure)
    rintro _ ⟨⟩
    rfl
  | step axis test _ readAxis readTest keeps =>
    exact fun room _ => isRead_step axis test (readAxis room) (readTest room) (keeps room _)
  | child => exact fun _ _ => isRead_child
  | attributes => exact fun _ _ _ => Yields.eat.bind .pure
  | axis known => exact fun _ _ => isRead_axis known
  | anyNode | text | comment => exact fun _ _ => isRead_nodeType [] .pure
  | instruction => exact fun _ _ => isRead_nodeType [] (.peek .pure)
  | target =>
    exact fun _ _ => isRead_nodeType [.literal _] (.peek (Yields.advance.bind .pure))
  | anyName | named => exact fun _ _ => isRead_name .pure
  | anyNameIn bound | namedIn bound =>
    exact fun _ _ => isRead_name ((Yields.require bound).bind .pure)
  | noPredicate => exact fun _ _ => isRead_noPredicate
  | predicate _ _ first rest =>
    intro room _
    exact isRead_predicate (fun _ => yields_expression fun _ => first _ _) (rest room _)
  | plain _ only => exact fun room _ => isRead_plain (only room _)
  | filter _ _ nonempty start keeps =>
    exact fun room _ => isRead_filter (start room) (keeps room _) nonempty
  | reference bound => exact fun _ _ => isRead_reference bound
  | literal | number => exact fun _ _ => Yields.peek (Yields.advance.bind .pure)
  | parentheses _ inner =>
    intro room _
    exact isRead_parentheses fun _ => yields_expression fun _ => inner _ _
  | call known _ fits gets => exact fun room _ => isRead_call known (gets room) fits
  | noArgument => exact fun _ _ => isRead_noArgument
  | argument derived others first rest =>
    intro room _
    exact isRead_argument derived others (fun _ => yields_expression fun _ => first _ _)
      (rest room _)
  | noOther => exact fun _ _ => isRead_noOther
  | other _ others first rest =>
    intro room _
    exact isRead_other others (fun _ => yields_expression fun _ => first _ _) (rest room _)

/-! ## Whole expressions -/

theorem ofText_eq {text : String} {found : List (Token × Nat)} (lexed : tokens text = .ok found) :
    Expr.ofText bindings text =
      if found.isEmpty then .error (.badSyntax .emptyExpression 0)
      else (expression bindings maxDepth).run ⟨found, text.utf8ByteSize, 0⟩ >>= fun result =>
        match result.2.tokens with
        | [] => .ok result.1
        | (token, position) :: _ => .error (.badSyntax (.leftover token.toText) position) := by
  rw [Expr.ofText, lexed]
  cases found <;> rfl

/-- Unless it is nested too deeply, a text is read as an expression exactly if its tokens are
derived as a whole, and then as what they are derived as. -/
theorem ofText_eq_ok_iff_derives {text : String} {found : List (Token × Nat)}
    (lexed : tokens text = .ok found)
    (shallow : ∀ position, Expr.ofText bindings text ≠ .error (.badSyntax .tooDeep position))
    (tree : Expr) :
    Expr.ofText bindings text = .ok tree ↔ Derives bindings (.expr tree) (found.map (·.1)) := by
  rw [ofText_eq lexed] at shallow ⊢
  constructor
  · intro read
    split at read
    · cases read
    · obtain ⟨⟨_, rest⟩, done, read⟩ := bind_eq_ok.mp read
      obtain ⟨past, split, derived⟩ := reads_expression bindings maxDepth _ rfl done
      split at read
      · rename_i nothing
        cases read
        rw [nothing, List.append_nil] at split
        obtain rfl : found = past := split
        exact derived
      · cases read
  · intro derived
    have nonempty : found.isEmpty = false := by
      obtain ⟨first, rest, spelled, -⟩ := derived.begins
      cases found with
      | nil => cases spelled
      | cons => rfl
    have read : Yields (expression bindings maxDepth) (found.map (·.1) ++ []) tree [] :=
      yields_expression (fun room => derived.isRead room []) nofun
    rw [nonempty, if_neg (by decide)] at shallow ⊢
    rcases read ⟨found, text.utf8ByteSize, 0⟩ (List.append_nil _).symm with
      ⟨position, deep⟩ | ⟨rest, done, nothing⟩
    · rw [deep] at shallow
      exact absurd rfl (shallow position)
    · simp only [done, bind, Except.bind, List.map_eq_nil_iff.mp nothing]

/-- A sign binds looser than a union, and `//` is a step of its own. -/
theorem ofText_eq_ok_iff_derives_sign :
    tokens "-//c:a|.." = .ok [(.symbol .minus, 0), (.symbol .doubleSlash, 1),
      (.name (.exactly ⟨some "c", "a"⟩), 3), (.symbol .pipe, 6), (.symbol .dotDot, 7)] ∧
    Derives ⟨[("c", "u")]⟩
      (.expr (.negative (.union
        (.rootPath [.anywhere, .to .child (.named (some "u") "a") []])
        (.path [.to .parent .anyNode []]))))
      [.symbol .minus, .symbol .doubleSlash, .name (.exactly ⟨some "c", "a"⟩), .symbol .pipe,
        .symbol .dotDot] := by
  have lexed : tokens "-//c:a|.." = .ok [(.symbol .minus, 0), (.symbol .doubleSlash, 1),
      (.name (.exactly ⟨some "c", "a"⟩), 3), (.symbol .pipe, 6), (.symbol .dotDot, 7)] := by cbv
  have read : Expr.ofText ⟨[("c", "u")]⟩ "-//c:a|.." = .ok (.negative (.union
      (.rootPath [.anywhere, .to .child (.named (some "u") "a") []])
      (.path [.to .parent .anyNode []]))) := by cbv
  have shallow (position : Nat) :
      Expr.ofText ⟨[("c", "u")]⟩ "-//c:a|.." ≠ .error (.badSyntax .tooDeep position) := by
    rw [read]
    rintro ⟨⟩
  exact ⟨lexed, (ofText_eq_ok_iff_derives lexed shallow _).mp read⟩

end Markup.XPath
