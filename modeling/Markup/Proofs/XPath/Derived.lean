import Markup.Proofs.Outcome
import Markup.Proofs.XPath.Grammar

/-!
# What is read is derived

Each parser of a construct goes past tokens that the grammar derives the construct from, and yields
its syntax tree. What comes later is left alone, so that the parsers of a sequence of constructs
read what the grammar puts one after the other.
-/

namespace Markup.XPath.Parser

variable {α β : Type} {parser : Parser α} {next : α → Parser β} {shape : α → List Token → Prop}
  {goal : β → List Token → Prop} {found : Option Token} {token : Token}

/-- Where a certain token comes next and the parser succeeds, what it went past has a given
shape. -/
def ReadsAt (found : Option Token) (parser : Parser α) (shape : α → List Token → Prop) : Prop :=
  ∀ ⦃pending later : Pending⦄ ⦃a : α⦄, pending.tokens.head?.map (·.1) = found →
    parser.run pending = .ok (a, later) →
      ∃ past, pending.tokens = past ++ later.tokens ∧ shape a (past.map (·.1))

/-- Wherever the parser succeeds, what it went past has a given shape. -/
def Reads (parser : Parser α) (shape : α → List Token → Prop) : Prop :=
  ∀ found, ReadsAt found parser shape

/-! ## Parts of parsers -/

theorem run_bind_eq_ok {pending later : Pending} {b : β} :
    (parser >>= next).run pending = .ok (b, later) ↔
      ∃ a middle, parser.run pending = .ok (a, middle) ∧ (next a).run middle = .ok (b, later) := by
  rw [StateT.run_bind, bind_eq_ok]
  exact ⟨fun ⟨⟨a, middle⟩, one, two⟩ => ⟨a, middle, one, two⟩,
    fun ⟨a, middle, one, two⟩ => ⟨(a, middle), one, two⟩⟩

theorem ReadsAt.pure {a : α} (empty : shape a []) : ReadsAt found (pure a : Parser α) shape := by
  rintro pending _ _ - ⟨⟩
  exact ⟨[], rfl, empty⟩

namespace Reads

theorem pure {a : α} (empty : shape a []) : Reads (pure a : Parser α) shape := fun _ => .pure empty

/-- What one parser leaves, the next reads on. -/
theorem bind (first : Reads parser shape)
    (second : ∀ a before, shape a before → Reads (next a) fun b after => goal b (before ++ after)) :
    Reads (parser >>= next) goal := by
  intro _ pending later b _ done
  obtain ⟨a, middle, one, two⟩ := run_bind_eq_ok.mp done
  obtain ⟨before, split, shaped⟩ := first _ rfl one
  obtain ⟨after, rest, derived⟩ := second a _ shaped _ rfl two
  refine ⟨before ++ after, by rw [split, rest, List.append_assoc], ?_⟩
  rw [List.map_append]
  exact derived

theorem mono {shape' : α → List Token → Prop} (reads : Reads parser shape)
    (weaker : ∀ a past, shape a past → shape' a past) : Reads parser shape' := by
  intro found pending later a next done
  obtain ⟨past, split, shaped⟩ := reads found next done
  exact ⟨past, split, weaker _ _ shaped⟩

/-- A look at the next token tells what the parser reads from there. -/
theorem peek {next : Option Token → Parser β} (branch : ∀ found, ReadsAt found (next found) goal) :
    Reads (peek >>= next) goal := by
  rintro _ pending later b rfl done
  exact branch _ rfl done

end Reads

theorem ReadsAt.advance {next : Unit → Parser β}
    (rest : Reads (next ()) fun b after => goal b (token :: after)) :
    ReadsAt (some token) (advance >>= next) goal := by
  intro pending later b seen done
  obtain ⟨⟨first, position⟩, front, rfl⟩ := Option.map_eq_some_iff.mp seen
  obtain ⟨more, split⟩ := List.head?_eq_some_iff.mp front
  obtain ⟨after, rest, derived⟩ := rest _ rfl done
  refine ⟨(first, position) :: after, ?_, derived⟩
  rw [List.cons_append, ← rest, split]
  exact congrArg (_ :: ·) (congrArg List.tail split).symm

theorem reads_throw {fault : Fault} : Reads (throw fault : Parser α) shape := by
  rintro _ pending later a - ⟨⟩

theorem reads_fail {problem : SyntaxProblem} : Reads (fail problem : Parser α) shape := by
  rintro _ pending later a - ⟨⟩

theorem reads_failExpecting {wanted : Wanted} :
    Reads (failExpecting wanted : Parser α) shape := by
  rintro _ pending later a - ⟨⟩

theorem reads_remaining : Reads remaining fun _ past => past = [] := by
  rintro _ pending _ _ - ⟨⟩
  exact ⟨[], rfl, rfl⟩

theorem reads_descend : Reads descend fun _ past => past = [] := by
  rintro _ pending later _ - done
  unfold descend at done
  obtain ⟨_, deeper, moved, done⟩ := run_bind_eq_ok.mp done
  obtain ⟨_, _, got, done⟩ := run_bind_eq_ok.mp done
  cases moved
  cases got
  split at done
  · cases done
  · cases done
    exact ⟨[], rfl, rfl⟩

theorem reads_sees {symbol : Symbol} : Reads (sees symbol) fun _ past => past = [] := by
  rintro _ pending _ _ - ⟨⟩
  exact ⟨[], rfl, rfl⟩

theorem isSymbol_iff {symbol : Symbol} : token.isSymbol symbol = true ↔ token = .symbol symbol := by
  cases token <;> simp [Token.isSymbol]

theorem eat_eq (symbol : Symbol) :
    eat symbol = Parser.peek >>= fun found =>
      if found.any (·.isSymbol symbol) then advance >>= fun _ => pure true else pure false := rfl

theorem reads_eat {symbol : Symbol} :
    Reads (eat symbol) fun eaten past => past = if eaten then [.symbol symbol] else [] := by
  rw [eat_eq]
  refine Reads.peek fun found => ?_
  cases found with
  | none => exact .pure rfl
  | some token =>
    rw [Option.any_some]
    split
    · rename_i seen
      rw [isSymbol_iff.mp seen]
      exact .advance (.pure rfl)
    · exact .pure rfl

namespace Reads

/-- A mark is gone past, or nothing is. -/
theorem eat {symbol : Symbol} {next : Bool → Parser β}
    (taken : Reads (next true) fun b after => goal b (.symbol symbol :: after))
    (passed : Reads (next false) goal) : Reads (eat symbol >>= next) goal := by
  refine .bind reads_eat fun eaten before shaped => ?_
  subst shaped
  cases eaten with
  | true => exact taken
  | false => exact passed

theorem expect {symbol : Symbol} {next : Unit → Parser β}
    (rest : Reads (next ()) fun b after => goal b (.symbol symbol :: after)) :
    Reads (expect symbol >>= next) goal := by
  have one : Reads (Parser.expect symbol) fun _ past => past = [.symbol symbol] :=
    .eat (.pure rfl) reads_failExpecting
  refine .bind one fun _ before shaped => ?_
  subst shaped
  exact rest

/-- What a parser finds out without going on is left to the rest. -/
theorem still (nothing : Reads parser fun _ past => past = []) (rest : ∀ a, Reads (next a) goal) :
    Reads (parser >>= next) goal := by
  refine .bind nothing fun a before shaped => ?_
  subst shaped
  exact rest a

end Reads

theorem reads_require {bindings : Bindings} {nsPrefix : String} :
    Reads (require bindings nsPrefix) fun uri past =>
      past = [] ∧ bindings.resolve? nsPrefix = some uri := by
  rintro _ pending later uri - done
  obtain ⟨found, known, done⟩ := bind_eq_ok.mp done
  cases done
  refine ⟨[], rfl, rfl, ?_⟩
  unfold Bindings.require at known
  split at known
  · cases known
    assumption
  · cases known

/-! ## Steps -/

section Nested

variable {bindings : Bindings} {nested : Parser Expr}

theorem reads_predicates
    (inner : Reads nested fun tree past => Derives bindings (.expr tree) past) (rounds : Nat) :
    Reads (predicates nested rounds) fun found past =>
      Derives bindings (.predicates found) past := by
  induction rounds with
  | zero => exact .pure .noPredicate
  | succ rounds ih =>
    refine .eat (.bind inner fun predicate ts first => .expect ?_) (.pure .noPredicate)
    refine .bind ih fun rest us more => .pure ?_
    simpa using Derives.predicate first more

theorem reads_allPredicates
    (inner : Reads nested fun tree past => Derives bindings (.expr tree) past) :
    Reads (allPredicates nested) fun found past => Derives bindings (.predicates found) past :=
  .still reads_remaining (reads_predicates inner)

theorem reads_resolve (pattern : NamePattern) : Reads (resolve bindings pattern) fun test past =>
    Derives bindings (.test test) (.name pattern :: past) := by
  match pattern with
  | .any => exact .pure .anyName
  | .anyOf nsPrefix =>
    refine .bind reads_require fun uri before => ?_
    rintro ⟨rfl, bound⟩
    exact .pure (.anyNameIn bound)
  | .exactly ⟨none, localName⟩ => exact .pure .named
  | .exactly ⟨some nsPrefix, localName⟩ =>
    refine .bind reads_require fun uri before => ?_
    rintro ⟨rfl, bound⟩
    exact .pure (.namedIn bound)

theorem reads_typeTest (bindings : Bindings) (type : NodeType) :
    Reads (typeTest type) fun test past => Derives bindings (.test test)
      (.nodeType type :: .symbol .leftParen :: past ++ [.symbol .rightParen]) := by
  cases type with
  | node => exact .pure .anyNode
  | text => exact .pure .text
  | comment => exact .pure .comment
  | instruction =>
    refine .peek fun found => ?_
    split
    · exact .advance (.pure .target)
    · exact .pure .instruction

theorem reads_nodeTest :
    Reads (nodeTest bindings) fun test past => Derives bindings (.test test) past := by
  refine .peek fun found => ?_
  split
  · refine .advance (.expect (.bind (reads_typeTest bindings _) fun test ts derived => ?_))
    exact .expect (.pure (by simpa using derived))
  · exact .advance (reads_resolve _)
  · exact reads_failExpecting _

theorem reads_axis (bindings : Bindings) :
    Reads axis fun axis past => Derives bindings (.axis axis) past := by
  refine .eat (.pure .attributes) (.peek fun found => ?_)
  split
  · split
    · exact reads_fail _
    · rename_i known
      exact .advance (.expect (.pure (.axis (Axis.ofName?_eq_some_iff.mp known))))
  · exact .pure .child

theorem reads_step (inner : Reads nested fun tree past => Derives bindings (.expr tree) past) :
    Reads (step bindings nested) fun step past => Derives bindings (.step step) past := by
  refine .eat (.pure .self) (.eat (.pure .parent) ?_)
  refine .bind (reads_axis bindings) fun axis ts along => .bind reads_nodeTest fun test us takes =>
    .bind (reads_allPredicates inner) fun predicates vs keeps => .pure ?_
  simpa using Derives.step along takes keeps

/-- Further steps go after those of a path. -/
theorem reads_moreSteps (inner : Reads nested fun tree past => Derives bindings (.expr tree) past)
    (rounds : Nat) : Reads (moreSteps bindings nested rounds) fun more past =>
      ∀ steps before, Derives bindings (.relative steps) before →
        Derives bindings (.relative (steps ++ more)) (before ++ past) := by
  induction rounds with
  | zero => exact .pure fun steps before derived => by simpa using derived
  | succ rounds ih =>
    refine .eat ?anywhere (.eat ?below (.pure fun steps before derived => by simpa using derived))
    case anywhere =>
      refine .bind (reads_step inner) fun step ts next => .bind ih fun more us rest => .pure ?_
      intro steps before derived
      simpa using rest _ _ (.anywhereStep derived next)
    case below =>
      refine .bind (reads_step inner) fun step ts next => .bind ih fun more us rest => .pure ?_
      intro steps before derived
      simpa using rest _ _ (.nextStep derived next)

theorem reads_steps (inner : Reads nested fun tree past => Derives bindings (.expr tree) past) :
    Reads (steps bindings nested) fun steps past => Derives bindings (.relative steps) past := by
  refine .bind (reads_step inner) fun step ts first => .still reads_remaining fun rounds =>
    .bind (reads_moreSteps inner rounds) fun more us rest => .pure ?_
  simpa using rest [step] ts (.firstStep first)

/-! ## Operands -/

theorem reads_moreArguments
    (inner : Reads nested fun tree past => Derives bindings (.expr tree) past) (rounds : Nat) :
    Reads (moreArguments nested rounds) fun found past =>
      Derives bindings (.others found) past := by
  induction rounds with
  | zero => exact .pure .noOther
  | succ rounds ih =>
    refine .eat (.bind inner fun argument ts first => .bind ih fun more us rest => .pure ?_)
      (.pure .noOther)
    simpa using Derives.other first rest

theorem reads_arguments (inner : Reads nested fun tree past => Derives bindings (.expr tree) past) :
    Reads (arguments nested) fun found past => Derives bindings (.arguments found) past := by
  refine .still reads_sees fun closes => ?_
  cases closes with
  | true => exact .pure .noArgument
  | false =>
    refine .bind inner fun argument ts first => .still reads_remaining fun rounds =>
      .bind (reads_moreArguments inner rounds) fun more us rest => .pure ?_
    simpa using Derives.argument first rest

theorem reads_call (inner : Reads nested fun tree past => Derives bindings (.expr tree) past)
    (name : QName) : Reads (call nested name.toText) fun tree past =>
      Derives bindings (.primary tree) (.function name :: past) := by
  unfold call
  split
  · exact reads_throw
  · rename_i function known
    refine .expect (.bind (reads_arguments inner) fun given ts gets => .expect ?_)
    split
    · rename_i fits
      refine .pure ?_
      simpa using Derives.call (Function.ofName?_eq_some_iff.mp known) gets fits
    · exact reads_throw

theorem reads_primary (inner : Reads nested fun tree past => Derives bindings (.expr tree) past) :
    Reads (primary bindings nested) fun tree past => Derives bindings (.primary tree) past := by
  refine .peek fun found => ?_
  split
  · rename_i name
    refine .advance ?_
    split
    · rename_i nsPrefix prefixed
      refine .bind reads_require fun uri before => ?_
      rintro ⟨rfl, bound⟩
      refine .pure (.reference fun other same => ?_)
      obtain rfl := Option.some.inj (prefixed.symm.trans same)
      exact Option.isSome_of_eq_some bound
    · rename_i plain
      refine .pure (.reference fun other same => absurd same (plain other))
  · exact .advance (.pure .literal)
  · exact .advance (.pure .number)
  · refine .advance (.bind inner fun tree ts derived => .expect (.pure ?_))
    simpa using Derives.parentheses derived
  · exact .advance (reads_call inner _)
  · exact reads_failExpecting _

theorem reads_filtered (inner : Reads nested fun tree past => Derives bindings (.expr tree) past) :
    Reads (filtered bindings nested) fun tree past => Derives bindings (.filtered tree) past := by
  refine .bind (reads_primary inner) fun base ts start => .bind (reads_allPredicates inner)
    fun given us keeps => ?_
  split
  · refine .pure ?_
    cases keeps
    simpa using Derives.plain start
  · rename_i more
    refine .pure ?_
    simpa using Derives.filter start keeps more

theorem reads_locationPath
    (inner : Reads nested fun tree past => Derives bindings (.expr tree) past) :
    Reads (locationPath bindings nested) fun tree past =>
      Derives bindings (.location tree) past := by
  refine .eat (.peek fun found => ?_) (.eat ?anywhere ?relative)
  case anywhere =>
    refine .bind (reads_steps inner) fun steps ts derived => .pure ?_
    simpa using Derives.anywhere derived
  case relative =>
    refine .bind (reads_steps inner) fun steps ts derived => .pure ?_
    simpa using Derives.relative derived
  split
  · refine Reads.bind (reads_steps inner) (fun steps ts derived => .pure ?_) _
    simpa using Derives.fromRoot derived
  · exact .pure .root

theorem reads_operand (inner : Reads nested fun tree past => Derives bindings (.expr tree) past) :
    Reads (operand bindings nested) fun tree past => Derives bindings (.path tree) past := by
  refine .peek fun found => ?_
  split
  · exact (reads_locationPath inner).mono (fun _ _ derived => .location derived) _
  · refine Reads.bind (reads_filtered inner) (fun base ts start => .eat ?_ (.eat ?_ ?_)) _
    · refine .bind (reads_steps inner) fun steps us follows => .pure ?_
      simpa using Derives.anywhereFrom start follows
    · refine .bind (reads_steps inner) fun steps us follows => .pure ?_
      simpa using Derives.pathFrom start follows
    · refine .pure ?_
      simpa using Derives.filtered start

/-! ## Operators -/

theorem reads_moreUnions {parser : Parser Expr}
    (one : Reads parser fun tree past => Derives bindings (.path tree) past) (rounds : Nat)
    (left : Expr) : Reads (moreUnions parser rounds left) fun tree past =>
      ∀ before, Derives bindings (.union left) before →
        Derives bindings (.union tree) (before ++ past) := by
  induction rounds generalizing left with
  | zero => exact .pure fun before derived => by simpa using derived
  | succ rounds ih =>
    refine .eat (.still reads_descend fun _ => .bind one fun right ts second => ?_)
      (.pure fun before derived => by simpa using derived)
    refine (ih _).mono fun tree past rest before first => ?_
    simpa using rest _ (.unite first second)

theorem reads_union {parser : Parser Expr}
    (one : Reads parser fun tree past => Derives bindings (.path tree) past) :
    Reads (union parser) fun tree past => Derives bindings (.union tree) past :=
  .bind one fun left ts first => .still reads_remaining fun rounds =>
    (reads_moreUnions one rounds left).mono fun _ _ rest => rest ts (.single first)

theorem reads_signed {parser : Parser Expr}
    (one : Reads parser fun tree past => Derives bindings (.union tree) past) (rounds : Nat) :
    Reads (signed parser rounds) fun tree past => Derives bindings (.signed tree) past := by
  induction rounds with
  | zero => exact one.mono fun tree past derived => .unsigned derived
  | succ rounds ih =>
    refine .eat (.still reads_descend fun _ => .bind ih fun tree ts derived => .pure ?_)
      (one.mono fun tree past derived => .unsigned derived)
    simpa using Derives.negative derived

theorem reads_allSigned {parser : Parser Expr}
    (one : Reads parser fun tree past => Derives bindings (.union tree) past) :
    Reads (allSigned parser) fun tree past => Derives bindings (.signed tree) past :=
  .still reads_remaining (reads_signed one)

/-- What operators of a layer add goes to the right of what they are given. -/
theorem reads_moreOperators {parser : Parser Expr} {on : Layer}
    (one : Reads parser fun tree past => Derives bindings (Phrase.tighter tree on) past)
    (rounds : Nat) (left : Expr) :
    Reads (moreOperators on.level parser rounds left) fun tree past =>
      ∀ before, Derives bindings (.layer on left) before →
        Derives bindings (.layer on tree) (before ++ past) := by
  induction rounds generalizing left with
  | zero => exact .pure fun before derived => by simpa using derived
  | succ rounds ih =>
    refine .peek fun found => ?_
    split
    · rename_i op stands
      split
      · rename_i same
        obtain ⟨token, rfl, stands⟩ := Option.bind_eq_some_iff.mp stands
        refine .advance (.still reads_descend fun _ => .bind one fun right ts second => ?_)
        refine (ih _).mono fun tree past rest before first => ?_
        simpa using rest _ (.join first (joins_iff.mpr ⟨stands, same⟩) second)
      · exact .pure fun before derived => by simpa using derived
    · exact .pure fun before derived => by simpa using derived

theorem reads_joined {parser : Parser Expr} (on : Layer)
    (one : Reads parser fun tree past => Derives bindings (Phrase.tighter tree on) past) :
    Reads (joined on.level parser) fun tree past => Derives bindings (.layer on tree) past :=
  .bind one fun left ts first => .still reads_remaining fun rounds =>
    (reads_moreOperators one rounds left).mono fun _ _ rest => rest ts (.operand first)

end Nested

/-- An expression is read from tokens that it is derived from. -/
theorem reads_expression (bindings : Bindings) (room : Nat) :
    Reads (expression bindings room) fun tree past => Derives bindings (.expr tree) past := by
  induction room with
  | zero => exact reads_fail
  | succ room ih =>
    have layers : Reads (Operator.levels.foldr joined
        (allSigned (union (operand bindings (expression bindings room)))))
        fun tree past => Derives bindings (.expr tree) past :=
      reads_joined .or <| reads_joined .and <| reads_joined .equality <|
        reads_joined .relational <| reads_joined .additive <| reads_joined .multiplicative <|
        reads_allSigned (reads_union (reads_operand ih))
    intro found pending later tree seen done
    obtain ⟨_, _, got, done⟩ := run_bind_eq_ok.mp done
    cases got
    obtain ⟨_, deeper, descended, done⟩ := run_bind_eq_ok.mp done
    obtain ⟨tree', middle, read, done⟩ := run_bind_eq_ok.mp done
    cases done
    obtain ⟨before, split, nothing⟩ := reads_descend _ rfl descended
    obtain ⟨past, rest, derived⟩ := layers _ rfl read
    obtain rfl := List.map_eq_nil_iff.mp nothing
    exact ⟨past, split.trans rest, derived⟩

end Markup.XPath.Parser
