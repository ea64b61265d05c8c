import Markup.Proofs.XPath.Lookahead

/-!
# Operators and paths that are derived are read

What associates to the left is derived from its end and read from its start, so that reading a part
of it is said together with what goes on after it.
-/

namespace Markup.XPath

open Markup.XPath.Parser

variable {bindings : Bindings} {later : List Token}

/-- What reads the operands that operators of a layer join. -/
def Layer.operands (bindings : Bindings) (nested : Parser Expr) (on : Layer) : Parser Expr :=
  (Operator.levels.drop (on.level + 1)).foldr joined (allSigned (union (operand bindings nested)))

/-- Whether the parser of a phrase yields it from its tokens, whatever follows that does not
continue it. What associates to the left is read on with what follows. -/
def Phrase.IsRead (bindings : Bindings) (nested : Parser Expr) (ts later : List Token) :
    Phrase → Prop
  | layer on tree => Stops (on.level + 1) later → ∀ whole rest,
      (∀ rounds, later.length ≤ rounds → Yields
        (moreOperators on.level (on.operands bindings nested) rounds tree) later whole rest) →
      Yields (joined on.level (on.operands bindings nested)) (ts ++ later) whole rest
  | signed tree => Stops 6 later → ∀ rounds, (ts ++ later).length ≤ rounds →
      Yields (Parser.signed (Parser.union (operand bindings nested)) rounds) (ts ++ later) tree
        later
  | union tree => Stops 7 later → ∀ whole rest,
      (∀ rounds, later.length ≤ rounds →
        Yields (moreUnions (operand bindings nested) rounds tree) later whole rest) →
      Yields (Parser.union (operand bindings nested)) (ts ++ later) whole rest
  | path tree => Stops 7 later → Yields (operand bindings nested) (ts ++ later) tree later
  | location tree => Stops 7 later → Yields (locationPath bindings nested) (ts ++ later) tree later
  | relative steps => Stops 8 later → ∀ more rest,
      (∀ rounds, later.length ≤ rounds →
        Yields (moreSteps bindings nested rounds) later more rest) →
      Yields (Parser.steps bindings nested) (ts ++ later) (steps ++ more) rest
  | step taken => Stops 8 later → Yields (Parser.step bindings nested) (ts ++ later) taken later
  | axis along => (∃ first rest, later = first :: rest ∧ first.beginsTest = true) →
      Yields Parser.axis (ts ++ later) along later
  | test takes => Yields (nodeTest bindings) (ts ++ later) takes later
  | predicates given => Stops 8 later → ∀ rounds, (ts ++ later).length ≤ rounds →
      Yields (Parser.predicates nested rounds) (ts ++ later) given later
  | filtered tree => Stops 8 later →
      Yields (Parser.filtered bindings nested) (ts ++ later) tree later
  | primary tree => Yields (Parser.primary bindings nested) (ts ++ later) tree later
  | arguments given => ∀ rest, later = .symbol .rightParen :: rest →
      Yields (Parser.arguments nested) (ts ++ later) given later
  | others given => ∀ rest, later = .symbol .rightParen :: rest →
      ∀ rounds, (ts ++ later).length ≤ rounds →
        Yields (moreArguments nested rounds) (ts ++ later) given later

variable {nested : Parser Expr} {ts us vs : List Token} {on : Layer} {tree left right : Expr}

/-! ## Operators -/

/-- Where no operator of the layer follows, what was read is the whole. -/
theorem yields_moreOperators_stop {level : Nat} {parser : Parser Expr} (stops : Stops level later)
    (rounds : Nat) : Yields (moreOperators level parser rounds tree) later tree later := by
  cases rounds with
  | zero => exact .pure
  | succ rounds =>
    refine .peek ?_
    split
    · rename_i op stands
      obtain ⟨next, front, stands⟩ := Option.bind_eq_some_iff.mp stands
      obtain ⟨rest, rfl⟩ := List.head?_eq_some_iff.mp front
      have looser := stops.not_operator stands
      rw [if_neg (Nat.ne_of_lt looser)]
      exact .pure
    · exact .pure

theorem yields_layer (read : (Phrase.layer on tree).IsRead bindings nested ts later)
    (stops : Stops on.level later) :
    Yields (joined on.level (on.operands bindings nested)) (ts ++ later) tree later :=
  read (stops.mono (Nat.le_succ _)) tree later fun rounds _ =>
    yields_moreOperators_stop stops rounds

/-- What binds tighter than a layer is an operand of it. -/
theorem yields_operands (read : (Phrase.tighter tree on).IsRead bindings nested ts later)
    (stops : Stops (on.level + 1) later) :
    Yields (on.operands bindings nested) (ts ++ later) tree later := by
  cases on with
  | multiplicative => exact .remaining (read stops _ (Nat.le_refl _))
  | _ => exact yields_layer read stops

theorem isRead_operand (read : (Phrase.tighter tree on).IsRead bindings nested ts later) :
    (Phrase.layer on tree).IsRead bindings nested ts later := by
  intro stops whole rest goesOn
  exact (yields_operands read stops).bind (.remaining (goesOn _ (Nat.le_refl _)))

theorem isRead_join {token : Token} {op : Operator} (joins : Joins on token op)
    (first : ∀ later, (Phrase.layer on left).IsRead bindings nested ts later)
    (second : (Phrase.tighter right on).IsRead bindings nested us later) :
    (Phrase.layer on (.binary op left right)).IsRead bindings nested (ts ++ token :: us) later := by
  intro stops whole rest goesOn
  obtain ⟨stands, same⟩ := joins_iff.mp joins
  rw [List.append_assoc, List.cons_append]
  refine first (token :: (us ++ later)) ?_ whole rest fun rounds enough => ?_
  · rintro _ ⟨⟩
    exact Nat.le_of_eq (by rw [Token.pull_of_operator stands, same])
  · cases rounds with
    | zero => cases enough
    | succ rounds =>
      refine .peek ?_
      rw [List.head?_cons, Option.bind_some, stands]
      dsimp only
      rw [if_pos same]
      refine Yields.advance.bind (Yields.descend.bind ((yields_operands second stops).bind ?_))
      exact goesOn rounds (by simp at enough; omega)

theorem isRead_negative (inner : (Phrase.signed tree).IsRead bindings nested ts later) :
    (Phrase.signed (.negative tree)).IsRead bindings nested (.symbol .minus :: ts) later := by
  intro stops rounds enough
  cases rounds with
  | zero => cases enough
  | succ rounds =>
    refine Yields.eat.bind (Yields.descend.bind (Yields.bind ?_ .pure))
    exact inner stops rounds (Nat.le_of_succ_le_succ enough)

theorem yields_union (read : (Phrase.union tree).IsRead bindings nested ts later)
    (stops : Stops 6 later) :
    Yields (Parser.union (operand bindings nested)) (ts ++ later) tree later := by
  refine read (stops.mono (by decide)) tree later fun rounds _ => ?_
  cases rounds with
  | zero => exact .pure
  | succ rounds => exact (Yields.pass (stops.not_symbol (by decide))).bind .pure

theorem isRead_unsigned (derived : Derives bindings (.union tree) ts)
    (only : (Phrase.union tree).IsRead bindings nested ts later) :
    (Phrase.signed tree).IsRead bindings nested ts later := by
  intro stops rounds enough
  have read := yields_union only stops
  cases rounds with
  | zero => exact read
  | succ rounds =>
    obtain ⟨first, rest, rfl, begins⟩ := derived.begins
    refine (Yields.pass ?_).bind read
    rintro _ ⟨⟩
    cases first with
    | symbol mark => cases mark <;> first | rfl | cases begins
    | _ => rfl

theorem isRead_unite (first : ∀ later, (Phrase.union left).IsRead bindings nested ts later)
    (second : (Phrase.path right).IsRead bindings nested us later) :
    (Phrase.union (.union left right)).IsRead bindings nested (ts ++ .symbol .pipe :: us)
      later := by
  intro stops whole rest goesOn
  rw [List.append_assoc, List.cons_append]
  refine first (.symbol .pipe :: (us ++ later)) ?_ whole rest fun rounds enough => ?_
  · rintro _ ⟨⟩
    exact Nat.le_refl _
  · cases rounds with
    | zero => cases enough
    | succ rounds =>
      refine Yields.eat.bind (Yields.descend.bind ((second stops).bind ?_))
      exact goesOn rounds (by simp at enough; omega)

theorem isRead_single (only : (Phrase.path tree).IsRead bindings nested ts later) :
    (Phrase.union tree).IsRead bindings nested ts later := by
  intro stops whole rest goesOn
  exact (only stops).bind (.remaining (goesOn _ (Nat.le_refl _)))

/-- An expression in parentheses or brackets, or a whole one. -/
theorem yields_expression {room : Nat}
    (read : ∀ room, (Phrase.expr tree).IsRead bindings (expression bindings room) ts later)
    (stops : Stops 0 later) : Yields (expression bindings room) (ts ++ later) tree later := by
  cases room with
  | zero => exact fun pending _ => .inl ⟨_, rfl⟩
  | succ room =>
    intro pending same
    have inner : Yields (descend >>= fun _ => Operator.levels.foldr joined
        (allSigned (Parser.union (operand bindings (expression bindings room)))) >>= fun found =>
          (modify fun after => { after with depth := pending.depth }) >>= fun _ => Pure.pure found)
        (ts ++ later) tree later :=
      Yields.descend.bind <| (yields_layer (read room) stops).bind fun after left =>
        .inr ⟨{ after with depth := pending.depth }, rfl, left⟩
    exact inner pending same

/-! ## Paths -/

variable {steps : List Step} {taken : Step} {base : Expr}

theorem yields_steps (read : (Phrase.relative steps).IsRead bindings nested ts later)
    (stops : Stops 7 later) : Yields (Parser.steps bindings nested) (ts ++ later) steps later := by
  have goesOn := read (stops.mono (by decide)) [] later fun rounds _ => ?_
  · rwa [List.append_nil] at goesOn
  · cases rounds with
    | zero => exact .pure
    | succ rounds =>
      exact (Yields.pass (stops.not_symbol (by decide))).bind <|
        (Yields.pass (stops.not_symbol (by decide))).bind .pure

theorem isRead_firstStep (only : (Phrase.step taken).IsRead bindings nested ts later) :
    (Phrase.relative [taken]).IsRead bindings nested ts later := by
  intro stops more rest goesOn
  exact (only stops).bind (.remaining ((goesOn _ (Nat.le_refl _)).bind .pure))

theorem isRead_nextStep (before : ∀ later, (Phrase.relative steps).IsRead bindings nested ts later)
    (last : (Phrase.step taken).IsRead bindings nested us later) :
    (Phrase.relative (steps ++ [taken])).IsRead bindings nested (ts ++ .symbol .slash :: us)
      later := by
  intro stops more rest goesOn
  rw [List.append_assoc, List.cons_append, List.append_assoc]
  refine before (.symbol .slash :: (us ++ later)) ?_ _ rest fun rounds enough => ?_
  · rintro _ ⟨⟩
    exact Nat.le_refl _
  · cases rounds with
    | zero => cases enough
    | succ rounds =>
      refine (Yields.pass ?_).bind (Yields.eat.bind ((last stops).bind (Yields.bind ?_ .pure)))
      · rintro _ ⟨⟩
        rfl
      · exact goesOn rounds (by simp at enough; omega)

theorem isRead_anywhereStep
    (before : ∀ later, (Phrase.relative steps).IsRead bindings nested ts later)
    (last : (Phrase.step taken).IsRead bindings nested us later) :
    (Phrase.relative (steps ++ [.anywhere, taken])).IsRead bindings nested
      (ts ++ .symbol .doubleSlash :: us) later := by
  intro stops more rest goesOn
  rw [List.append_assoc, List.cons_append, List.append_assoc]
  refine before (.symbol .doubleSlash :: (us ++ later)) ?_ _ rest fun rounds enough => ?_
  · rintro _ ⟨⟩
    exact Nat.le_refl _
  · cases rounds with
    | zero => cases enough
    | succ rounds =>
      refine Yields.eat.bind ((last stops).bind (Yields.bind ?_ .pure))
      exact goesOn rounds (by simp at enough; omega)

theorem isRead_root :
    (Phrase.location (.rootPath [])).IsRead bindings nested [.symbol .slash] later := by
  intro stops
  refine Yields.eat.bind (.peek ?_)
  rw [if_neg (by simpa using stops.not_beginsStep (by decide))]
  exact .pure

theorem isRead_fromRoot (derived : Derives bindings (.relative steps) ts)
    (follows : (Phrase.relative steps).IsRead bindings nested ts later) :
    (Phrase.location (.rootPath steps)).IsRead bindings nested (.symbol .slash :: ts) later := by
  intro stops
  have read := yields_steps follows stops
  obtain ⟨first, rest, rfl, begins⟩ := derived.begins
  refine Yields.eat.bind (.peek ?_)
  rw [if_pos (by simpa using begins)]
  exact read.bind .pure

theorem isRead_anywhere (follows : (Phrase.relative steps).IsRead bindings nested ts later) :
    (Phrase.location (.rootPath (.anywhere :: steps))).IsRead bindings nested
      (.symbol .doubleSlash :: ts) later := by
  intro stops
  refine (Yields.pass ?_).bind (Yields.eat.bind ((yields_steps follows stops).bind .pure))
  rintro _ ⟨⟩
  rfl

theorem isRead_relative (derived : Derives bindings (.relative steps) ts)
    (only : (Phrase.relative steps).IsRead bindings nested ts later) :
    (Phrase.location (.path steps)).IsRead bindings nested ts later := by
  intro stops
  have read := yields_steps only stops
  obtain ⟨first, rest, rfl, begins⟩ := derived.begins
  have other : first.isSymbol .slash = false ∧ first.isSymbol .doubleSlash = false := by
    cases first with
    | symbol mark => cases mark <;> first | exact ⟨rfl, rfl⟩ | cases begins
    | _ => exact ⟨rfl, rfl⟩
  refine (Yields.pass ?_).bind ((Yields.pass ?_).bind (read.bind .pure))
  · rintro _ ⟨⟩
    exact other.1
  · rintro _ ⟨⟩
    exact other.2

theorem isRead_location (derived : Derives bindings (.location tree) ts)
    (only : (Phrase.location tree).IsRead bindings nested ts later) :
    (Phrase.path tree).IsRead bindings nested ts later := by
  intro stops
  have read := only stops
  obtain ⟨first, rest, rfl, begins⟩ := derived.begins
  refine .peek ?_
  rw [if_pos (by simpa using begins)]
  exact read

theorem not_beginsPath_of_filtered (derived : Derives bindings (.filtered base) ts) :
    ∃ first rest, ts = first :: rest ∧ beginsPath first = false := by
  obtain ⟨first, rest, rfl, begins⟩ := derived.begins
  refine ⟨first, rest, rfl, ?_⟩
  cases first with
  | symbol mark => cases mark <;> first | rfl | cases begins
  | name | nodeType | axis => cases begins
  | _ => rfl

theorem isRead_filtered (derived : Derives bindings (.filtered tree) ts)
    (only : (Phrase.filtered tree).IsRead bindings nested ts later) :
    (Phrase.path tree).IsRead bindings nested ts later := by
  intro stops
  have read := only (stops.mono (by decide))
  obtain ⟨first, rest, rfl, other⟩ := not_beginsPath_of_filtered derived
  refine .peek ?_
  rw [if_neg (by simp [other])]
  exact read.bind <| (Yields.pass (stops.not_symbol (by decide))).bind <|
    (Yields.pass (stops.not_symbol (by decide))).bind .pure

theorem isRead_pathFrom (derived : Derives bindings (.filtered base) ts)
    (start : ∀ later, (Phrase.filtered base).IsRead bindings nested ts later)
    (follows : (Phrase.relative steps).IsRead bindings nested us later) :
    (Phrase.path (.pathFrom base steps)).IsRead bindings nested (ts ++ .symbol .slash :: us)
      later := by
  intro stops
  have read := start (.symbol .slash :: (us ++ later)) fun _ front => by cases front; decide
  obtain ⟨first, rest, rfl, other⟩ := not_beginsPath_of_filtered derived
  rw [List.append_assoc]
  refine .peek ?_
  rw [if_neg (by simp [other])]
  refine read.bind <| (Yields.pass ?_).bind <| Yields.eat.bind <|
    (yields_steps follows stops).bind .pure
  rintro _ ⟨⟩
  rfl

theorem isRead_anywhereFrom (derived : Derives bindings (.filtered base) ts)
    (start : ∀ later, (Phrase.filtered base).IsRead bindings nested ts later)
    (follows : (Phrase.relative steps).IsRead bindings nested us later) :
    (Phrase.path (.pathFrom base (.anywhere :: steps))).IsRead bindings nested
      (ts ++ .symbol .doubleSlash :: us) later := by
  intro stops
  have read := start (.symbol .doubleSlash :: (us ++ later)) fun _ front => by cases front; decide
  obtain ⟨first, rest, rfl, other⟩ := not_beginsPath_of_filtered derived
  rw [List.append_assoc]
  refine .peek ?_
  rw [if_neg (by simp [other])]
  exact read.bind (Yields.eat.bind ((yields_steps follows stops).bind .pure))

end Markup.XPath
