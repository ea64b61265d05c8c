import Markup.Proofs.XPath.Accepted
import Markup.Proofs.XPath.Height

/-!
# Towers of operators

A tower has a smaller tower as the argument of a call, a filter around the call, a path behind the
filter, and as many additions behind the path as there are levels left. The levels that the smaller
tower takes are given back before the additions are counted, so that a tower of as many stages as
there are levels is as tall as any expression that is read.
-/

namespace Markup.XPath

open Markup.XPath.Parser

/-! ## Texts, tokens and trees -/

/-- The step to all children. -/
def Step.star : Step := .to .child .anyName []

/-- An expression with the children added so many times. -/
def Expr.plusStars : Nat → Expr → Expr
  | 0, tree => tree
  | count + 1, tree => plusStars count (.binary (.arithmetic .add) tree (.path [.star]))

def plusStarsChars (count : Nat) : List Char := (List.replicate count ['+', '*']).flatten

def plusStarsTokens (count : Nat) : List Token :=
  (List.replicate count [.symbol .plus, .name .any]).flatten

/-- A tower of so many stages, in each of which so many more children are added than stages are
inside it. -/
def Expr.tower (extra : Nat) : Nat → Expr
  | 0 => plusStars extra (.pathFrom (.literal "") [.star])
  | stage + 1 => plusStars (stage + 1 + extra)
      (.pathFrom (.filter (.call .id [tower extra stage]) [.path [.star]]) [.star])

def towerChars (extra : Nat) : Nat → List Char
  | 0 => ['\'', '\'', '/', '*'] ++ plusStarsChars extra
  | stage + 1 => ['i', 'd', '('] ++ towerChars extra stage ++
      ([')', '[', '*', ']', '/', '*'] ++ plusStarsChars (stage + 1 + extra))

def towerTokens (extra : Nat) : Nat → List Token
  | 0 => [.literal "", .symbol .slash, .name .any] ++ plusStarsTokens extra
  | stage + 1 => [.function ⟨none, "id"⟩, .symbol .leftParen] ++ towerTokens extra stage ++
      ([.symbol .rightParen, .symbol .leftBracket, .name .any, .symbol .rightBracket,
        .symbol .slash, .name .any] ++ plusStarsTokens (stage + 1 + extra))

/-- The text of a tower. -/
def towerText (extra stage : Nat) : String := .ofList (towerChars extra stage)

/-! ## Heights -/

theorem height_plusStars (count : Nat) (tree : Expr) :
    (tree.plusStars count).height = count + tree.height := by
  induction count generalizing tree with
  | zero => exact (Nat.zero_add _).symm
  | succ count ih =>
    have tall : 0 < tree.height := tree.reach_pos 1
    have added :
        (Expr.binary (.arithmetic .add) tree (.path [.star])).height = 1 + tree.height := by
      rw [Expr.height, Expr.reach, ← Expr.height]
      exact Nat.max_eq_left (Nat.add_le_add_left tall 1)
    rw [Expr.plusStars, ih, added]
    omega

/-- Without extra additions, a tower is as tall as its levels allow. -/
theorem height_tower (extra stage : Nat) :
    (Expr.tower extra stage).height = mostReach 1 (stage + 1) + (stage + 1) * extra := by
  induction stage with
  | zero =>
    rw [Expr.tower, height_plusStars]
    simp only [Expr.height, Expr.reach, reachSteps, Step.reach, Step.star, reachAll, mostReach]
    omega
  | succ stage ih =>
    have base : (Expr.pathFrom (.filter (.call .id [.tower extra stage]) [.path [.star]])
        [.star]).height = 3 + (Expr.tower extra stage).height := by
      have tall : 0 < (Expr.tower extra stage).reach 1 := Expr.reach_pos 1 _
      simp only [Expr.height, Expr.reach, reachSteps, Step.reach, Step.star, reachAll]
      omega
    have most : mostReach 1 (stage + 2) = 4 + stage + mostReach 1 (stage + 1) := by
      rw [mostReach.eq_2]
      omega
    rw [Expr.tower, height_plusStars, base, ih, most, Nat.succ_mul (stage + 1)]
    omega

/-! ## Tokens of a tower -/

/-- Whether a text has given tokens wherever it stands, and operands end with them or not. -/
def Lexes (before : Bool) (chars : List Char) (found : List Token) (after : Bool) : Prop :=
  ∀ position rest, ∃ placed finish, placed.map (·.1) = found ∧
    tokensFrom before position (chars ++ rest) =
      (tokensFrom after finish rest).map (placed ++ ·)

namespace Lexes

variable {before middle after : Bool} {chars more : List Char} {found others : List Token}

theorem nil : Lexes before [] [] before := by
  intro position rest
  refine ⟨[], position, rfl, ?_⟩
  rw [List.nil_append]
  cases tokensFrom before position rest <;> rfl

/-- The first token is read on its own, though what follows is looked at. -/
theorem cons {first : Char} (taken : List Char) {token : Token}
    (solid : Text.isMarkupBlank first = false)
    (scanned : ∀ position rest, scan before position first (taken ++ (more ++ rest)) =
      .ok (token, taken.length + 1))
    (rest : Lexes token.endsOperand more others after) :
    Lexes before (first :: taken ++ more) (token :: others) after := by
  intro position later
  let consumed := Text.byteLength (first :: (taken ++ (more ++ later)).take (taken.length + 1 - 1))
  obtain ⟨placed, finish, same, goesOn⟩ := rest (position + consumed) later
  refine ⟨(token, position) :: placed, finish, by rw [List.map_cons, same], ?_⟩
  rw [List.cons_append, List.cons_append, List.append_assoc, tokensFrom, if_neg (by simp [solid]),
    scanned]
  have left : (taken ++ (more ++ later)).drop (taken.length + 1 - 1) = more ++ later := by simp
  simp only [bind, Except.bind, left]
  rw [goesOn]
  cases tokensFrom after finish later <;> rfl

theorem single {first : Char} {token : Token} (solid : Text.isMarkupBlank first = false)
    (scanned : ∀ position rest, scan before position first (more ++ rest) = .ok (token, 1))
    (rest : Lexes token.endsOperand more others after) :
    Lexes before (first :: more) (token :: others) after :=
  .cons [] solid scanned rest

theorem append (first : Lexes before chars found middle) (second : Lexes middle more others after) :
    Lexes before (chars ++ more) (found ++ others) after := by
  intro position rest
  obtain ⟨placed, between, same, goesOn⟩ := first position (more ++ rest)
  obtain ⟨placed', finish, same', goesOn'⟩ := second between rest
  refine ⟨placed ++ placed', finish, by rw [List.map_append, same, same'], ?_⟩
  rw [List.append_assoc, goesOn, goesOn']
  cases tokensFrom after finish rest with
  | error fault => rfl
  | ok given => exact congrArg Except.ok (List.append_assoc ..).symm

theorem plusStars (count : Nat) :
    Lexes true (plusStarsChars count) (plusStarsTokens count) true := by
  have one : Lexes true ['+', '*'] [.symbol .plus, .name .any] true :=
    .single rfl (fun _ _ => rfl) (.single rfl (fun _ _ => rfl) .nil)
  induction count with
  | zero => exact .nil
  | succ count ih => exact one.append ih

theorem tower (extra stage : Nat) :
    Lexes false (towerChars extra stage) (towerTokens extra stage) true := by
  induction stage with
  | zero =>
    refine .append (.cons ['\''] rfl (fun _ _ => ?_) ?_) (.plusStars extra)
    · simp [scan, mark?]
    · exact .single rfl (fun _ _ => rfl) (.single rfl (fun _ _ => rfl) .nil)
  | succ stage ih =>
    have opens : Lexes false ['i', 'd', '('] [.function ⟨none, "id"⟩, .symbol .leftParen] false :=
      .cons ['d'] rfl (fun _ _ => rfl) (.single rfl (fun _ _ => rfl) .nil)
    have closes : Lexes true [')', '[', '*', ']', '/', '*']
        [.symbol .rightParen, .symbol .leftBracket, .name .any, .symbol .rightBracket,
          .symbol .slash, .name .any] true :=
      .single rfl (fun _ _ => rfl) <| .single rfl (fun _ _ => rfl) <|
        .single rfl (fun _ _ => rfl) <| .single rfl (fun _ _ => rfl) <|
          .single rfl (fun _ _ => rfl) <| .single rfl (fun _ _ => rfl) .nil
    exact (opens.append ih).append (closes.append (.plusStars _))

end Lexes

/-! ## Reading a tower -/

namespace Parser

variable {α β : Type} {parser : Parser α} {next : α → Parser β} {depth middle finish : Nat}
  {tokens between later ts : List Token} {a : α} {b : β} {bindings : Bindings}
  {nested one : Parser Expr} {tree : Expr}

/-- Whether a parser that meets given tokens at a given depth yields a value, and leaves what is
later at another depth. -/
def Takes (depth : Nat) (parser : Parser α) (tokens : List Token) (a : α) (finish : Nat)
    (later : List Token) : Prop :=
  ∀ pending : Pending, pending.tokens.map (·.1) = tokens → pending.depth = depth →
    ∃ rest, parser.run pending = .ok (a, rest) ∧ rest.tokens.map (·.1) = later ∧
      rest.depth = finish

namespace Takes

theorem pure : Takes depth (pure a : Parser α) tokens a depth tokens :=
  fun pending same starts => ⟨pending, rfl, same, starts⟩

theorem bind (first : Takes depth parser tokens a middle between)
    (second : Takes middle (next a) between b finish later) :
    Takes depth (parser >>= next) tokens b finish later := by
  intro pending same starts
  obtain ⟨rest, done, left, ends⟩ := first pending same starts
  rw [StateT.run_bind, done]
  exact second rest left ends

theorem peek {next : Option Token → Parser β}
    (rest : Takes depth (next tokens.head?) tokens b finish later) :
    Takes depth (peek >>= next) tokens b finish later := by
  intro pending same starts
  have seen : pending.tokens.head?.map (·.1) = tokens.head? := by rw [← same, List.head?_map]
  rw [← seen] at rest
  exact rest pending same starts

theorem remaining {next : Nat → Parser β}
    (rest : Takes depth (next tokens.length) tokens b finish later) :
    Takes depth (remaining >>= next) tokens b finish later := by
  intro pending same starts
  have counted : pending.tokens.length = tokens.length := by rw [← same, List.length_map]
  rw [← counted] at rest
  exact rest pending same starts

theorem advance {token : Token} {next : Unit → Parser β}
    (rest : Takes depth (next ()) tokens b finish later) :
    Takes depth (advance >>= next) (token :: tokens) b finish later := by
  intro pending same starts
  obtain ⟨_, _, split, -, left⟩ := List.map_eq_cons_iff.mp same
  exact rest { pending with tokens := pending.tokens.tail } (by rw [split]; exact left) starts

theorem descend {next : Unit → Parser β} (room : depth < maxDepth)
    (rest : Takes (depth + 1) (next ()) tokens b finish later) :
    Takes depth (descend >>= next) tokens b finish later := by
  intro pending same starts
  have done : Parser.descend.run pending =
      .ok ((), { pending with depth := pending.depth + 1 }) := by
    show StateT.run (if pending.depth + 1 > maxDepth then _ else _) _ = _
    rw [if_neg (by omega)]
    rfl
  rw [StateT.run_bind, done]
  exact rest { pending with depth := pending.depth + 1 } same (congrArg (· + 1) starts)

theorem sees {symbol : Symbol} {next : Bool → Parser β}
    (rest : Takes depth (next (tokens.head?.any (·.isSymbol symbol))) tokens b finish later) :
    Takes depth (sees symbol >>= next) tokens b finish later := by
  intro pending same starts
  have seen : pending.tokens.head?.map (·.1) = tokens.head? := by rw [← same, List.head?_map]
  rw [← seen] at rest
  exact rest pending same starts

theorem eat {symbol : Symbol} {next : Bool → Parser β}
    (rest : Takes depth (next true) tokens b finish later) :
    Takes depth (eat symbol >>= next) (.symbol symbol :: tokens) b finish later := by
  have eaten : Takes depth (Parser.eat symbol) (.symbol symbol :: tokens) true depth tokens := by
    rw [eat_eq]
    refine .peek ?_
    rw [if_pos (by simp [Token.isSymbol])]
    exact .advance .pure
  exact .bind eaten rest

theorem pass {symbol : Symbol} {next : Bool → Parser β}
    (other : ∀ next ∈ tokens.head?, next.isSymbol symbol = false)
    (rest : Takes depth (next false) tokens b finish later) :
    Takes depth (Parser.eat symbol >>= next) tokens b finish later := by
  have passed : Takes depth (Parser.eat symbol) tokens false depth tokens := by
    rw [eat_eq]
    refine .peek ?_
    rw [if_neg]
    · exact .pure
    · intro seen
      obtain ⟨next, front, same⟩ := (Option.any_eq_true ..).mp seen
      exact absurd same (by simp [other next front])
  exact .bind passed rest

theorem expect {symbol : Symbol} {next : Unit → Parser β}
    (rest : Takes depth (next ()) tokens b finish later) :
    Takes depth (expect symbol >>= next) (.symbol symbol :: tokens) b finish later := by
  have expected : Takes depth (Parser.expect symbol) (.symbol symbol :: tokens) () depth tokens :=
    .eat .pure
  exact .bind expected rest

end Takes

/-! ### Operands -/

theorem takes_noPredicates (stops : Stops 8 later) (rounds : Nat) :
    Takes depth (predicates nested rounds) later [] depth later := by
  cases rounds with
  | zero => exact .pure
  | succ rounds => exact .pass (stops.not_symbol (by decide)) .pure

theorem takes_star (stops : Stops 8 later) :
    Takes depth (step bindings nested) (.name .any :: later) .star depth later := by
  have other (symbol : Symbol) :
      ∀ next ∈ (Token.name .any :: later).head?, next.isSymbol symbol = false := by
    rintro _ ⟨⟩
    rfl
  refine .pass (other _) (.pass (other _) (.bind (.pass (other _) (.peek .pure)) ?_))
  exact .bind (.peek (.advance .pure)) (.bind (.remaining (takes_noPredicates stops _)) .pure)

theorem takes_stars (stops : Stops 7 later) :
    Takes depth (steps bindings nested) (.name .any :: later) [.star] depth later := by
  refine .bind (takes_star (stops.mono (by decide))) (.remaining (.bind ?_ .pure))
  cases later.length with
  | zero => exact .pure
  | succ rounds =>
    exact .pass (stops.not_symbol (by decide)) (.pass (stops.not_symbol (by decide)) .pure)

/-- What is no path, with the path to all children behind it. -/
theorem takes_pathFrom (begins : ts.head?.any beginsPath = false)
    (base : Takes depth (filtered bindings nested) ts tree depth
      (.symbol .slash :: .name .any :: later)) (stops : Stops 7 later) :
    Takes depth (operand bindings nested) ts (.pathFrom tree [.star]) depth later := by
  refine .peek ?_
  rw [begins, if_neg (by decide)]
  refine .bind base (.pass ?_ (.eat (.bind (takes_stars stops) .pure)))
  rintro _ ⟨⟩
  rfl

theorem stops_slash : Stops 8 (.symbol .slash :: later) := by
  rintro _ ⟨⟩
  exact Nat.le_refl _

theorem takes_starPath (stops : Stops 7 later) :
    Takes depth (operand bindings nested) (.name .any :: later) (.path [.star]) depth later := by
  refine .peek (.pass ?_ (.pass ?_ (.bind (takes_stars stops) .pure)))
  all_goals
    rintro _ ⟨⟩
    rfl

/-- The children of a literal. -/
theorem takes_ground (stops : Stops 7 later) :
    Takes depth (operand bindings nested) ([.literal "", .symbol .slash, .name .any] ++ later)
      (.pathFrom (.literal "") [.star]) depth later := by
  have keeps : Takes depth (allPredicates nested) (.symbol .slash :: .name .any :: later) [] depth
      (.symbol .slash :: .name .any :: later) := .remaining (takes_noPredicates stops_slash _)
  exact takes_pathFrom rfl (.bind (.peek (.advance .pure)) (.bind keeps .pure)) stops

/-- The children of what a call yields, filtered. -/
theorem takes_stage (argument : ∀ later, Stops 0 later → Takes depth nested (ts ++ later) tree depth
      later)
    (filter : ∀ later, Stops 0 later →
      Takes depth nested (.name .any :: later) (.path [.star]) depth later)
    (begins : ∀ later : List Token,
      (ts ++ later).head?.any (·.isSymbol .rightParen) = false) (stops : Stops 7 later) :
    Takes depth (operand bindings nested)
      ([.function ⟨none, "id"⟩, .symbol .leftParen] ++ ts ++
        ([.symbol .rightParen, .symbol .leftBracket, .name .any, .symbol .rightBracket,
          .symbol .slash, .name .any] ++ later))
      (.pathFrom (.filter (.call .id [tree]) [.path [.star]]) [.star]) depth later := by
  have args (later : List Token) : Takes depth (arguments nested)
      (ts ++ .symbol .rightParen :: later) [tree] depth (.symbol .rightParen :: later) := by
    refine .sees ?_
    rw [begins, if_neg (by decide)]
    refine .bind (argument _ (.closing _ _ rfl)) (.remaining (.bind ?_ .pure))
    refine .pass ?_ .pure
    rintro _ ⟨⟩
    rfl
  have called (later : List Token) : Takes depth (call nested "id")
      (.symbol .leftParen :: (ts ++ .symbol .rightParen :: later)) (.call .id [tree])
      depth later := by
    show Takes depth (Parser.expect .leftParen >>= fun _ => _) _ _ _ _
    exact .expect (.bind (args _) (.expect .pure))
  have keeps : Takes depth (allPredicates nested)
      (.symbol .leftBracket :: .name .any :: .symbol .rightBracket :: .symbol .slash ::
        .name .any :: later) [.path [.star]] depth (.symbol .slash :: .name .any :: later) := by
    refine .remaining (.eat (.bind (filter _ (.closing _ _ rfl)) (.expect (.bind ?_ .pure))))
    exact takes_noPredicates stops_slash _
  exact takes_pathFrom rfl (.bind (.peek (.advance (called _))) (.bind keeps .pure)) stops

/-! ### Operators -/

/-- Where no operator of a level follows, what was read is the whole. -/
theorem takes_moreOperators_stop {level : Nat} (stops : Stops level later) (rounds : Nat) :
    Takes depth (moreOperators level one rounds tree) later tree depth later := by
  cases rounds with
  | zero => exact .pure
  | succ rounds =>
    refine .peek ?_
    split
    · rename_i op stands
      obtain ⟨next, front, stands⟩ := Option.bind_eq_some_iff.mp stands
      obtain ⟨rest, rfl⟩ := List.head?_eq_some_iff.mp front
      rw [if_neg (Nat.ne_of_lt (stops.not_operator stands))]
      exact .pure
    · exact .pure

theorem takes_joined {level : Nat} (only : Takes depth one tokens tree finish later)
    (stops : Stops level later) : Takes depth (joined level one) tokens tree finish later :=
  .bind only (.remaining (takes_moreOperators_stop stops _))

theorem takes_joined_all (levels : List Nat) (only : Takes depth one tokens tree finish later)
    (stops : ∀ level ∈ levels, Stops level later) :
    Takes depth (levels.foldr joined one) tokens tree finish later := by
  induction levels with
  | nil => exact only
  | cons level levels ih =>
    obtain ⟨first, others⟩ := List.forall_mem_cons.mp stops
    exact takes_joined (ih others) first

/-- Neither a sign nor a union nor a multiplication is added to an operand. -/
theorem takes_factor (only : Takes depth one tokens tree depth later)
    (unsigned : ∀ next ∈ tokens.head?, next.isSymbol .minus = false) (stops : Stops 5 later) :
    Takes depth (joined 5 (allSigned (union one))) tokens tree depth later := by
  have united : Takes depth (union one) tokens tree depth later := by
    refine .bind only (.remaining ?_)
    cases later.length with
    | zero => exact .pure
    | succ rounds => exact .pass (stops.not_symbol (by decide)) .pure
  refine takes_joined (.remaining ?_) stops
  cases tokens.length with
  | zero => exact united
  | succ rounds => exact .pass unsigned united

theorem stops_plusStars (stops : Stops 4 later) (count : Nat) :
    Stops 5 (plusStarsTokens count ++ later) := by
  cases count with
  | zero => exact stops.mono (by decide)
  | succ count =>
    rintro _ ⟨⟩
    exact Nat.le_refl _

/-- Each addition is a level further down. -/
theorem takes_moreStars {count rounds : Nat} (room : depth + count ≤ maxDepth)
    (enough : count ≤ rounds) (stops : Stops 4 later)
    (star : ∀ depth later, Stops 5 later →
      Takes depth one (.name .any :: later) (.path [.star]) depth later) :
    Takes depth (moreOperators 4 one rounds tree) (plusStarsTokens count ++ later)
      (tree.plusStars count) (depth + count) later := by
  induction count generalizing depth rounds tree with
  | zero => exact takes_moreOperators_stop stops rounds
  | succ count ih =>
    cases rounds with
    | zero => cases enough
    | succ rounds =>
      have deeper : depth + (count + 1) = depth + 1 + count := by omega
      rw [deeper] at room ⊢
      refine .peek (.advance (.descend (by omega) (.bind (star _ _ (stops_plusStars stops _)) ?_)))
      exact ih room (Nat.le_of_succ_le_succ enough)

/-- A whole expression takes a level for its operators and gives it back. -/
theorem takes_expression {room : Nat} (levels : depth < maxDepth)
    (layers : Takes (depth + 1) (Operator.levels.foldr joined
      (allSigned (union (operand bindings (expression bindings room))))) tokens tree finish later) :
    Takes depth (expression bindings (room + 1)) tokens tree depth later := by
  intro pending same starts
  have whole : Takes depth (descend >>= fun _ => Operator.levels.foldr joined
      (allSigned (union (operand bindings (expression bindings room))))) tokens tree finish later :=
    .descend levels layers
  obtain ⟨rest, done, left, -⟩ := whole pending same starts
  obtain ⟨_, deeper, descended, read⟩ := run_bind_eq_ok.mp done
  refine ⟨{ rest with depth := pending.depth }, ?_, left, starts⟩
  refine run_bind_eq_ok.mpr ⟨pending, pending, rfl, ?_⟩
  refine run_bind_eq_ok.mpr ⟨_, _, descended, ?_⟩
  exact run_bind_eq_ok.mpr ⟨_, _, read, rfl⟩

/-- A whole expression that is an operand with the children added to it so many times. -/
theorem takes_plusStars {room count : Nat} (levels : depth + 1 + count ≤ maxDepth)
    (unsigned : ∀ next ∈ (tokens ++ (plusStarsTokens count ++ later)).head?,
      next.isSymbol .minus = false)
    (base : ∀ later, Stops 5 later →
      Takes (depth + 1) (operand bindings (expression bindings room)) (tokens ++ later) tree
        (depth + 1) later) (stops : Stops 0 later) :
    Takes depth (expression bindings (room + 1)) (tokens ++ (plusStarsTokens count ++ later))
      (tree.plusStars count) depth later := by
  have star (depth : Nat) (later : List Token) (stops : Stops 5 later) :
      Takes depth (joined 5 (allSigned (union (operand bindings (expression bindings room)))))
        (.name .any :: later) (.path [.star]) depth later := by
    refine takes_factor (takes_starPath (stops.mono (by decide))) ?_ stops
    rintro _ ⟨⟩
    rfl
  have enough : count ≤ (plusStarsTokens count ++ later).length := by
    simp [plusStarsTokens]
    omega
  have sum : Takes (depth + 1) (joined 4 (joined 5 (allSigned (union
      (operand bindings (expression bindings room))))))
      (tokens ++ (plusStarsTokens count ++ later)) (tree.plusStars count) (depth + 1 + count)
      later := by
    have follow : Stops 4 later := stops.mono (by decide)
    have goesOn := stops_plusStars follow count
    refine .bind (takes_factor (base _ goesOn) unsigned goesOn) (.remaining ?_)
    exact takes_moreStars levels enough follow star
  have layers : Takes (depth + 1) (Operator.levels.foldr joined
      (allSigned (union (operand bindings (expression bindings room)))))
      (tokens ++ (plusStarsTokens count ++ later)) (tree.plusStars count) (depth + 1 + count)
      later :=
    takes_joined_all [0, 1, 2, 3] sum fun _ _ => stops.mono (Nat.zero_le _)
  exact takes_expression (by omega) layers

/-- The children as a whole expression. -/
theorem takes_starExpression {room : Nat} (levels : depth < maxDepth) (stops : Stops 0 later) :
    Takes depth (expression bindings (room + 1)) (.name .any :: later) (.path [.star]) depth
      later := by
  have read : Takes depth (expression bindings (room + 1))
      ([.name .any] ++ (plusStarsTokens 0 ++ later)) (Expr.plusStars 0 (.path [.star])) depth
      later := by
    refine takes_plusStars levels ?_ (fun later stops => ?_) stops
    · rintro _ ⟨⟩
      rfl
    · exact takes_starPath (stops.mono (by decide))
  exact read

/-- A tower is read where there are as many levels as it has stages and additions. -/
theorem takes_tower {extra stage room : Nat} (rooms : stage ≤ room)
    (levels : depth + (stage + 1 + extra) ≤ maxDepth) (stops : Stops 0 later) :
    Takes depth (expression bindings (room + 1)) (towerTokens extra stage ++ later)
      (.tower extra stage) depth later := by
  induction stage generalizing depth room later with
  | zero =>
    rw [towerTokens, List.append_assoc]
    refine takes_plusStars (by omega) ?_ (fun later stops => takes_ground ?_) stops
    · rintro _ ⟨⟩
      rfl
    · exact stops.mono (by decide)
  | succ stage ih =>
    obtain ⟨room, rfl⟩ : ∃ below, room = below + 1 := ⟨room - 1, by omega⟩
    have inner (later : List Token) (stops : Stops 0 later) :
        Takes (depth + 1) (expression bindings (room + 1)) (towerTokens extra stage ++ later)
          (.tower extra stage) (depth + 1) later := ih (by omega) (by omega) stops
    have filter (later : List Token) (stops : Stops 0 later) :
        Takes (depth + 1) (expression bindings (room + 1)) (.name .any :: later) (.path [.star])
          (depth + 1) later := takes_starExpression (by omega) stops
    have begins (later : List Token) :
        (towerTokens extra stage ++ later).head?.any (·.isSymbol .rightParen) = false := by
      cases stage <;> rfl
    rw [towerTokens, ← List.append_assoc _ _ (plusStarsTokens _), List.append_assoc _ _ later]
    refine takes_plusStars (by omega) ?_ (fun later stops => ?_) stops
    · rintro _ ⟨⟩
      rfl
    · rw [List.append_assoc]
      exact takes_stage inner filter begins (stops.mono (by decide))

end Parser

/-! ## The tallest expressions -/

/-- A tower is read if there are as many levels as it has stages and additions. -/
theorem ofText_tower (bindings : Bindings) {extra stage : Nat}
    (levels : stage + 1 + extra ≤ maxDepth) :
    Expr.ofText bindings (towerText extra stage) = .ok (.tower extra stage) := by
  obtain ⟨placed, finish, same, lexed⟩ := Lexes.tower extra stage 0 []
  have found : tokens (towerText extra stage) = .ok placed := by
    rw [tokens, towerText, String.toList_ofList, ← List.append_nil (towerChars extra stage), lexed,
      tokensFrom]
    exact congrArg Except.ok (List.append_nil placed)
  have nonempty : placed.isEmpty = false := by
    cases placed with
    | nil => cases stage <;> cases same
    | cons => rfl
  have read : Takes 0 (expression bindings maxDepth) (towerTokens extra stage ++ [])
      (.tower extra stage) 0 [] := by
    have rooms : stage ≤ 255 := by
      rw [maxDepth] at levels
      omega
    exact takes_tower rooms ((Nat.zero_add _).trans_le levels) (.nil 0)
  obtain ⟨rest, done, nothing, -⟩ := read ⟨placed, (towerText extra stage).utf8ByteSize, 0⟩
    (same.trans (List.append_nil _).symm) rfl
  rw [ofText_eq found, nonempty, if_neg (by decide), done]
  simp only [bind, Except.bind, List.map_eq_nil_iff.mp nothing]

/-- An expression reaches no further than all levels allow. -/
theorem reach_le_of_ofText {bindings : Bindings} {text : String} {tree : Expr} (left : Nat)
    (read : Expr.ofText bindings text = .ok tree) : tree.reach left ≤ mostReach left maxDepth := by
  cases lexed : tokens text with
  | error fault =>
    rw [Expr.ofText, lexed] at read
    cases read
  | ok found =>
    rw [ofText_eq lexed] at read
    split at read
    · cases read
    · obtain ⟨⟨whole, rest⟩, done, read⟩ := bind_eq_ok.mp read
      split at read
      · cases read
        exact (nests_expression left bindings maxDepth 0 rfl done).2
      · cases read

/-- Every expression that is read is at most so tall, and some are as tall. Where no operator has a
taller operand before it than after it, three for each level are enough. -/
theorem height_of_ofText (bindings : Bindings) :
    (∀ text tree, Expr.ofText bindings text = .ok tree →
      tree.height ≤ 33407 ∧ (tree.LeansRight → tree.height ≤ 3 * maxDepth)) ∧
    ∃ text tree, Expr.ofText bindings text = .ok tree ∧ tree.height = 33407 := by
  have most : mostReach 1 maxDepth = 33407 := by
    have twice := two_mul_mostReach 1 255
    simp only [Nat.reduceAdd, Nat.reduceMul] at twice
    rw [maxDepth]
    omega
  have less : mostReach 0 maxDepth ≤ 3 * maxDepth := by
    have twice := two_mul_mostReach 0 255
    simp only [Nat.reduceAdd, Nat.reduceMul] at twice
    rw [maxDepth]
    omega
  refine ⟨fun text tree read => ⟨?_, fun leans => ?_⟩, ?_⟩
  · exact (reach_le_of_ofText 1 read).trans_eq most
  · rw [leans.height_eq]
    exact (reach_le_of_ofText 0 read).trans less
  · refine ⟨_, _, ofText_tower bindings (Nat.le_refl _ : 255 + 1 + 0 ≤ maxDepth), ?_⟩
    rw [height_tower]
    exact most

/-- Parentheses and predicates after an operator. -/
theorem height_of_ofText_parentheses :
    ∃ tree, Expr.ofText .standard "a+(b+c)[d]" = .ok tree ∧ tree.height ≤ 33407 ∧
      tree.LeansRight ∧ tree.height ≤ 3 * maxDepth := by
  let path (name : String) : Expr := .path [.to .child (.named none name) []]
  have read : Expr.ofText .standard "a+(b+c)[d]" = .ok (.binary (.arithmetic .add) (path "a")
      (.filter (.binary (.arithmetic .add) (path "b") (path "c")) [path "d"])) := by cbv
  have leans : (Expr.binary (.arithmetic .add) (path "a")
      (.filter (.binary (.arithmetic .add) (path "b") (path "c")) [path "d"])).LeansRight :=
    ⟨by decide, ⟨trivial, trivial⟩,
      ⟨by decide, ⟨trivial, trivial⟩, trivial, trivial⟩, ⟨trivial, trivial⟩, trivial⟩
  obtain ⟨most, less⟩ := (height_of_ofText .standard).1 _ _ read
  exact ⟨_, read, most, leans, less leans⟩

/-- A tower of four stages is taller than three for each level. -/
theorem height_of_ofText_not_le :
    Expr.ofText .standard (towerText 252 3) = .ok (.tower 252 3) ∧
      ¬ (Expr.tower 252 3).height ≤ 3 * maxDepth := by
  refine ⟨ofText_tower _ (Nat.le_refl _), ?_⟩
  rw [height_tower]
  decide

end Markup.XPath
