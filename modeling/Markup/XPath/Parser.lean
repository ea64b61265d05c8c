import Markup.XPath.Bindings
import Markup.XPath.Token

/-!
# Reading expressions

Each construct of the grammar is read by a parser of its own. What stands in parentheses or
brackets is a whole expression again; the parsers of its surroundings take the parser `nested` for
it as an argument. Expressions, operators and signs are counted on the way down, and the count is
limited, so that no expression is nested without bounds.

Loops go on as long as a token tells them to. Each round takes a token, so the number of tokens
bounds the rounds.
-/

namespace Markup.XPath

/-- What is left to be read. -/
structure Pending where
  /-- The tokens, each with its place. -/
  tokens : List (Token × Nat)
  /-- The place of the end. -/
  finish : Nat
  /-- How many expressions, operators and signs what comes next is nested in. -/
  depth : Nat

/-- How deep expressions may be nested. -/
def maxDepth : Nat := 256

/-- What reads a construct. -/
abbrev Parser := StateT Pending (Except Fault)

namespace Parser

/-- The next token. -/
def peek : Parser (Option Token) := do
  return (← get).tokens.head?.map (·.1)

/-- The number of tokens that are left. -/
def remaining : Parser Nat := do
  return (← get).tokens.length

/-- Go past the next token. -/
def advance : Parser Unit :=
  modify fun pending => { pending with tokens := pending.tokens.tail }

/-- Stop with a problem at the next token or at the end. -/
def fail {α : Type} (problem : SyntaxProblem) : Parser α := do
  let pending ← get
  throw (.badSyntax problem ((pending.tokens.head?.map (·.2)).getD pending.finish))

/-- Stop because something else is wanted here. -/
def failExpecting {α : Type} (wanted : Wanted) : Parser α := do
  fail (.expected wanted ((← peek).map Token.toText))

/-- Whether a certain mark comes next. -/
def sees (symbol : Symbol) : Parser Bool := do
  return (← peek).any (·.isSymbol symbol)

/-- Go past a mark if it comes next, and tell whether it did. -/
def eat (symbol : Symbol) : Parser Bool := do
  if ← sees symbol then
    advance
    return true
  else return false

/-- Go past a mark that has to come next. -/
def expect (symbol : Symbol) : Parser Unit := do
  if !(← eat symbol) then failExpecting (.token symbol.spelling)

/-- Go one level down. -/
def descend : Parser Unit := do
  modify fun pending => { pending with depth := pending.depth + 1 }
  if (← get).depth > maxDepth then fail .tooDeep

/-- The namespace of a prefix. -/
def require (bindings : Bindings) (nsPrefix : String) : Parser String :=
  liftM (bindings.require nsPrefix)

/-! ## Steps -/

/-- Predicates, each in brackets, at most so many. -/
def predicates (nested : Parser Expr) : Nat → Parser (List Expr)
  | 0 => return []
  | rounds + 1 => do
    if ← eat .leftBracket then
      let predicate ← nested
      expect .rightBracket
      return predicate :: (← predicates nested rounds)
    else return []

/-- All predicates that come next. -/
def allPredicates (nested : Parser Expr) : Parser (List Expr) := do
  predicates nested (← remaining)

/-- The test for names that a pattern stands for. -/
def resolve (bindings : Bindings) : NamePattern → Parser NodeTest
  | .any => return .anyName
  | .anyOf nsPrefix => return .anyNameIn (← require bindings nsPrefix)
  | .exactly ⟨none, localName⟩ => return .named none localName
  | .exactly ⟨some nsPrefix, localName⟩ =>
    return .named (some (← require bindings nsPrefix)) localName

/-- What follows the name of a kind of node inside the parentheses. -/
def typeTest : NodeType → Parser NodeTest
  | .node => return .anyNode
  | .text => return .text
  | .comment => return .comment
  | .instruction => do
    match ← peek with
    | some (.literal target) =>
      advance
      return .instruction (some target)
    | _ => return .instruction none

/-- A node test. -/
def nodeTest (bindings : Bindings) : Parser NodeTest := do
  match ← peek with
  | some (.nodeType type) =>
    advance
    expect .leftParen
    let test ← typeTest type
    expect .rightParen
    return test
  | some (.name pattern) =>
    advance
    resolve bindings pattern
  | _ => failExpecting .nodeTest

/-- The axis of a step, which is that of the children if none is given. -/
def axis : Parser Axis := do
  if ← eat .atSign then return .attributes
  match ← peek with
  | some (.axis name) =>
    match Axis.ofName? name.toText with
    | none => fail (.unknownAxis name.toText)
    | some found =>
      advance
      expect .doubleColon
      return found
  | _ => return .child

/-- A step of a path. -/
def step (bindings : Bindings) (nested : Parser Expr) : Parser Step := do
  if ← eat .dot then return .to .self .anyNode []
  if ← eat .dotDot then return .to .parent .anyNode []
  let axis ← axis
  let test ← nodeTest bindings
  return .to axis test (← allPredicates nested)

/-- The steps after the first, at most so many, each with what stands between it and the one
before. -/
def moreSteps (bindings : Bindings) (nested : Parser Expr) : Nat → Parser (List Step)
  | 0 => return []
  | rounds + 1 => do
    if ← eat .doubleSlash then
      let next ← step bindings nested
      return .anywhere :: next :: (← moreSteps bindings nested rounds)
    else if ← eat .slash then
      let next ← step bindings nested
      return next :: (← moreSteps bindings nested rounds)
    else return []

/-- The steps of a path, of which there is at least one. -/
def steps (bindings : Bindings) (nested : Parser Expr) : Parser (List Step) := do
  let first ← step bindings nested
  return first :: (← moreSteps bindings nested (← remaining))

/-- Whether a step can begin with a token. -/
def beginsStep : Token → Bool
  | .symbol .dot | .symbol .dotDot | .symbol .atSign => true
  | .name _ | .nodeType _ | .axis _ => true
  | _ => false

/-! ## Operands -/

/-- The arguments after the first, at most so many, each after a comma. -/
def moreArguments (nested : Parser Expr) : Nat → Parser (List Expr)
  | 0 => return []
  | rounds + 1 => do
    if ← eat .comma then
      let next ← nested
      return next :: (← moreArguments nested rounds)
    else return []

/-- The arguments of a call up to the closing parenthesis. -/
def arguments (nested : Parser Expr) : Parser (List Expr) := do
  if ← sees .rightParen then return []
  let first ← nested
  return first :: (← moreArguments nested (← remaining))

/-- A call after the name of the function. -/
def call (nested : Parser Expr) (name : String) : Parser Expr := do
  match Function.ofName? name with
  | none => throw (.undefinedFunction name)
  | some function =>
    expect .leftParen
    let given ← arguments nested
    expect .rightParen
    if function.arity.admits given.length then return .call function given
    else throw (.wrongArity function given.length)

/-- An operand that is no path. -/
def primary (bindings : Bindings) (nested : Parser Expr) : Parser Expr := do
  match ← peek with
  | some (.reference name) =>
    advance
    if let some nsPrefix := name.nsPrefix then
      let _ ← require bindings nsPrefix
    return .reference name
  | some (.literal text) =>
    advance
    return .literal text
  | some (.number value) =>
    advance
    return .number value
  | some (.symbol .leftParen) =>
    advance
    let inner ← nested
    expect .rightParen
    return inner
  | some (.function name) =>
    advance
    call nested name.toText
  | _ => failExpecting .expression

/-- An operand that is no path, with its predicates. -/
def filtered (bindings : Bindings) (nested : Parser Expr) : Parser Expr := do
  let base ← primary bindings nested
  match ← allPredicates nested with
  | [] => return base
  | given => return .filter base given

/-- A path that begins with a slash or with a step. -/
def locationPath (bindings : Bindings) (nested : Parser Expr) : Parser Expr := do
  if ← eat .slash then
    if (← peek).any beginsStep then return .rootPath (← steps bindings nested)
    else return .rootPath []
  else if ← eat .doubleSlash then
    return .rootPath (.anywhere :: (← steps bindings nested))
  else return .path (← steps bindings nested)

/-- Whether a path without an operand before it can begin with a token. -/
def beginsPath (token : Token) : Bool :=
  beginsStep token || token.isSymbol .slash || token.isSymbol .doubleSlash

/-- A path, or another operand that a path may follow. -/
def operand (bindings : Bindings) (nested : Parser Expr) : Parser Expr := do
  if (← peek).any beginsPath then locationPath bindings nested
  else
    let base ← filtered bindings nested
    if ← eat .doubleSlash then
      return .pathFrom base (.anywhere :: (← steps bindings nested))
    else if ← eat .slash then
      return .pathFrom base (← steps bindings nested)
    else return base

/-! ## Operators -/

/-- What a first set of nodes is united with, at most so many times. -/
def moreUnions (operand : Parser Expr) : Nat → Expr → Parser Expr
  | 0, left => return left
  | rounds + 1, left => do
    if ← eat .pipe then
      descend
      let right ← operand
      moreUnions operand rounds (.union left right)
    else return left

/-- Operands that are united. -/
def union (operand : Parser Expr) : Parser Expr := do
  let left ← operand
  moreUnions operand (← remaining) left

/-- An operand with at most so many signs before it. -/
def signed (operand : Parser Expr) : Nat → Parser Expr
  | 0 => operand
  | rounds + 1 => do
    if ← eat .minus then
      descend
      return .negative (← signed operand rounds)
    else operand

/-- An operand with all signs that stand before it. -/
def allSigned (operand : Parser Expr) : Parser Expr := do
  signed operand (← remaining)

/-- What operators of one level add to a left operand, at most so many times. -/
def moreOperators (level : Nat) (operand : Parser Expr) : Nat → Expr → Parser Expr
  | 0, left => return left
  | rounds + 1, left => do
    match (← peek).bind Token.operator? with
    | some op =>
      if op.level = level then
        advance
        descend
        let right ← operand
        moreOperators level operand rounds (.binary op left right)
      else return left
    | none => return left

/-- Operands that are joined by operators of one level, from left to right. -/
def joined (level : Nat) (operand : Parser Expr) : Parser Expr := do
  let left ← operand
  moreOperators level operand (← remaining) left

/-- A whole expression in which at most so many can be nested. Its levels count no longer after
it. -/
def expression (bindings : Bindings) : Nat → Parser Expr
  | 0 => fail .tooDeep
  | room + 1 => do
    let depth := (← get).depth
    descend
    let nested := expression bindings room
    let found ← Operator.levels.foldr joined (allSigned (union (operand bindings nested)))
    modify fun pending => { pending with depth := depth }
    return found

end Parser

/-- The expression that a text is. -/
def Expr.ofText (bindings : Bindings) (text : String) : Except Fault Expr := do
  let found ← tokens text
  if found.isEmpty then throw (.badSyntax .emptyExpression 0)
  let pending : Pending := ⟨found, text.utf8ByteSize, 0⟩
  let (expr, rest) ← (Parser.expression bindings maxDepth).run pending
  match rest.tokens with
  | [] => return expr
  | (token, position) :: _ => throw (.badSyntax (.leftover token.toText) position)

/-- An expression with the text that it was read from. -/
structure Query where
  text : String
  expr : Expr
  deriving Inhabited

/-- Read a query. -/
def Query.ofText (bindings : Bindings) (text : String) : Except Fault Query :=
  return ⟨text, ← Expr.ofText bindings text⟩

end Markup.XPath
