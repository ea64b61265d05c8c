import Markup.Proofs.XPath.Derived

/-!
# One token ahead

One token tells which production goes on: what a construct begins with tells it from others, and
what may follow it does not continue it.
-/

namespace Markup.XPath

variable {bindings : Bindings} {later : List Token}

/-! ## First tokens -/

/-- Whether an operand that is no location path can begin with a token. -/
def Token.beginsPrimary : Token → Bool
  | symbol .leftParen | reference _ | literal _ | number _ | function _ => true
  | _ => false

/-- Whether a node test can begin with a token. -/
def Token.beginsTest : Token → Bool
  | name _ | nodeType _ => true
  | _ => false

/-- What a phrase begins with, unless it may be empty. -/
def Phrase.Begins (ts : List Token) : Phrase → Prop
  | layer .. | signed _ => ∃ first rest, ts = first :: rest ∧
      (Parser.beginsPath first || first.beginsPrimary || first.isSymbol .minus) = true
  | union _ | path _ => ∃ first rest, ts = first :: rest ∧
      (Parser.beginsPath first || first.beginsPrimary) = true
  | location _ => ∃ first rest, ts = first :: rest ∧ Parser.beginsPath first = true
  | relative _ | step _ => ∃ first rest, ts = first :: rest ∧ Parser.beginsStep first = true
  | test _ => ∃ first rest, ts = first :: rest ∧ first.beginsTest = true
  | filtered _ | primary _ => ∃ first rest, ts = first :: rest ∧ first.beginsPrimary = true
  | axis _ | predicates _ | arguments _ | others _ => True

theorem Derives.begins {phrase : Phrase} {ts : List Token} (derived : Derives bindings phrase ts) :
    phrase.Begins ts := by
  induction derived with
  | join _ _ _ first _ =>
    obtain ⟨token, rest, rfl, begins⟩ := first
    exact ⟨token, _, rfl, begins⟩
  | @operand on _ _ _ only => cases on <;> exact only
  | unsigned _ only =>
    obtain ⟨token, rest, rfl, begins⟩ := only
    exact ⟨token, rest, rfl, by simp [begins]⟩
  | unite _ _ first | pathFrom _ _ first | anywhereFrom _ _ first | nextStep _ _ first
    | anywhereStep _ _ first | filter _ _ _ first =>
    obtain ⟨token, rest, rfl, begins⟩ := first
    exact ⟨token, _, rfl, by simp [begins]⟩
  | location _ only | filtered _ only =>
    obtain ⟨token, rest, rfl, begins⟩ := only
    exact ⟨token, rest, rfl, by simp [begins]⟩
  | relative _ only =>
    obtain ⟨token, rest, rfl, begins⟩ := only
    exact ⟨token, rest, rfl, by simp [Parser.beginsPath, begins]⟩
  | single _ only | firstStep _ only | plain _ only => exact only
  | step along _ _ _ takes =>
    obtain ⟨token, rest, rfl, begins⟩ := takes
    cases along with
    | child =>
      refine ⟨token, _, rfl, ?_⟩
      cases token <;> first | rfl | cases begins
    | attributes | axis => exact ⟨_, _, rfl, rfl⟩
  | child | attributes | axis | noPredicate | predicate | noArgument | argument | noOther | other =>
    trivial
  | _ => exact ⟨_, _, rfl, rfl⟩

/-! ## Tokens that may follow -/

/-- How tightly a token goes on with what stands before it; what closes a construct around it does
not, and what can begin an operand only stands where no other could follow. -/
def Token.pull : Token → Nat
  | symbol .rightParen | symbol .rightBracket | symbol .comma => 0
  | symbol .pipe => 7
  | symbol .slash | symbol .doubleSlash => 8
  | symbol .leftBracket => 9
  | token => (token.operator?.map (·.level + 1)).getD 10

theorem Token.pull_of_operator {token : Token} {op : Operator}
    (stands : token.operator? = some op) : token.pull = op.level + 1 := by
  unfold Token.operator? at stands
  split at stands
  all_goals cases stands
  all_goals rfl

/-- Whether what follows goes on no tighter than given. -/
def Stops (bound : Nat) (later : List Token) : Prop := ∀ next ∈ later.head?, next.pull ≤ bound

namespace Stops

theorem nil (bound : Nat) : Stops bound [] := fun _ front => by cases front

theorem mono {bound bound' : Nat} (stops : Stops bound later) (wider : bound ≤ bound') :
    Stops bound' later :=
  fun next front => Nat.le_trans (stops next front) wider

theorem closing (symbol : Symbol) (bound : Nat) (closes : (Token.symbol symbol).pull = 0) :
    Stops bound (.symbol symbol :: later) := by
  rintro _ ⟨⟩
  rw [closes]
  exact Nat.zero_le _

/-- A mark that pulls tighter than what follows may is not what follows. -/
theorem not_symbol {bound : Nat} {symbol : Symbol} (stops : Stops bound later)
    (tighter : bound < (Token.symbol symbol).pull) :
    ∀ next ∈ later.head?, next.isSymbol symbol = false := by
  intro next front
  refine Bool.eq_false_iff.mpr fun same => ?_
  obtain rfl := Parser.isSymbol_iff.mp same
  exact absurd (stops _ front) (Nat.not_le.mpr tighter)

theorem not_beginsStep {bound : Nat} (stops : Stops bound later) (tighter : bound < 10) :
    later.head?.any Parser.beginsStep = false := by
  refine (Option.any_eq_false ..).mpr fun next front => Bool.eq_false_iff.mpr fun begins => ?_
  have pull : next.pull = 10 := by
    unfold Parser.beginsStep at begins
    split at begins
    all_goals first | rfl | cases begins
  have := stops next front
  omega

/-- An operator of a layer does not follow where only looser ones may. -/
theorem not_operator {bound : Nat} {next : Token} {op : Operator}
    (stops : Stops bound (next :: later)) (stands : next.operator? = some op) :
    op.level < bound := by
  have := stops next rfl
  rw [Token.pull_of_operator stands] at this
  exact this

end Stops

namespace Parser

variable {α β : Type} {parser : Parser α} {next : α → Parser β} {tokens middle : List Token} {a : α}
  {b : β}

/-- Whether a parser that meets given tokens yields a value and leaves what is later, unless
something is nested too deeply. -/
def Yields (parser : Parser α) (tokens : List Token) (a : α) (later : List Token) : Prop :=
  ∀ pending : Pending, pending.tokens.map (·.1) = tokens →
    (∃ position, parser.run pending = .error (.badSyntax .tooDeep position)) ∨
      ∃ rest, parser.run pending = .ok (a, rest) ∧ rest.tokens.map (·.1) = later

namespace Yields

theorem pure : Yields (pure a : Parser α) tokens a tokens :=
  fun pending same => .inr ⟨pending, rfl, same⟩

theorem bind (first : Yields parser tokens a middle) (second : Yields (next a) middle b later) :
    Yields (parser >>= next) tokens b later := by
  intro pending same
  rw [StateT.run_bind]
  rcases first pending same with ⟨position, stopped⟩ | ⟨rest, done, left⟩
  · exact .inl ⟨position, by rw [stopped]; rfl⟩
  · rw [done]
    exact second rest left

theorem peek {next : Option Token → Parser β} (rest : Yields (next tokens.head?) tokens b later) :
    Yields (peek >>= next) tokens b later := by
  intro pending same
  have seen : pending.tokens.head?.map (·.1) = tokens.head? := by rw [← same, List.head?_map]
  rw [← seen] at rest
  exact rest pending same

theorem advance {token : Token} : Yields advance (token :: tokens) () tokens := by
  intro pending same
  refine .inr ⟨_, rfl, ?_⟩
  obtain ⟨_, _, split, -, rfl⟩ := List.map_eq_cons_iff.mp same
  exact congrArg (fun given => given.tail.map (·.1)) split

theorem eat {symbol : Symbol} : Yields (eat symbol) (.symbol symbol :: tokens) true tokens := by
  rw [eat_eq]
  refine .peek ?_
  rw [if_pos (by simp [Token.isSymbol])]
  exact advance.bind .pure

theorem pass {symbol : Symbol} (other : ∀ next ∈ tokens.head?, next.isSymbol symbol = false) :
    Yields (Parser.eat symbol) tokens false tokens := by
  rw [eat_eq]
  refine .peek ?_
  rw [if_neg]
  · exact .pure
  · intro seen
    obtain ⟨next, front, same⟩ := (Option.any_eq_true ..).mp seen
    exact absurd same (by simp [other next front])

theorem expect {symbol : Symbol} : Yields (expect symbol) (.symbol symbol :: tokens) () tokens :=
  eat.bind .pure

theorem descend : Yields descend tokens () tokens := by
  intro pending same
  unfold Parser.descend
  by_cases deep : pending.depth + 1 > maxDepth
  · refine .inl ⟨(pending.tokens.head?.map (·.2)).getD pending.finish, ?_⟩
    show StateT.run (if pending.depth + 1 > maxDepth then _ else _) _ = _
    rw [if_pos deep]
    rfl
  · refine .inr ⟨{ pending with depth := pending.depth + 1 }, ?_, same⟩
    show StateT.run (if pending.depth + 1 > maxDepth then _ else _) _ = _
    rw [if_neg deep]
    rfl

theorem remaining {next : Nat → Parser β} (rest : Yields (next tokens.length) tokens b later) :
    Yields (remaining >>= next) tokens b later := by
  intro pending same
  have counted : pending.tokens.length = tokens.length := by rw [← same, List.length_map]
  rw [← counted] at rest
  exact rest pending same

theorem require {nsPrefix uri : String} (bound : bindings.resolve? nsPrefix = some uri) :
    Yields (require bindings nsPrefix) tokens uri tokens := by
  intro pending same
  refine .inr ⟨pending, ?_, same⟩
  have known : bindings.require nsPrefix = .ok uri := by rw [Bindings.require, bound]
  show (bindings.require nsPrefix >>= fun uri => Pure.pure (uri, pending)) = _
  rw [known]
  rfl

end Yields

end Parser

end Markup.XPath
