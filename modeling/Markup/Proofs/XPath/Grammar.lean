import Markup.XPath.Parser

/-!
# The grammar of expressions

Expressions are derived from sequences of tokens by productions, and what is derived has a syntax
tree. Operators associate to the left, so that what they join on the left is of their own layer and
what they join on the right binds tighter. Axes and functions have to be known, functions have to
get as many arguments as they take, and prefixes have to be bound.
-/

namespace Markup.XPath

/-- The layers of operators between two operands, loosest first. -/
inductive Layer where
  | or | and | equality | relational | additive | multiplicative
  deriving DecidableEq

/-- The tokens that join two operands on a layer, each with its operator. -/
inductive Joins : Layer → Token → Operator → Prop where
  | or : Joins .or (.operator .or) .or
  | and : Joins .and (.operator .and) .and
  | equal : Joins .equality (.symbol .equal) .equal
  | notEqual : Joins .equality (.symbol .notEqual) .notEqual
  | less : Joins .relational (.symbol .less) (.relation .less)
  | atMost : Joins .relational (.symbol .atMost) (.relation .atMost)
  | greater : Joins .relational (.symbol .greater) (.relation .greater)
  | atLeast : Joins .relational (.symbol .atLeast) (.relation .atLeast)
  | add : Joins .additive (.symbol .plus) (.arithmetic .add)
  | subtract : Joins .additive (.symbol .minus) (.arithmetic .subtract)
  | multiply : Joins .multiplicative (.operator .multiply) (.arithmetic .multiply)
  | divide : Joins .multiplicative (.operator .divide) (.arithmetic .divide)
  | remainder : Joins .multiplicative (.operator .remainder) (.arithmetic .remainder)

/-- A construct of the grammar, with what it stands for in a syntax tree. -/
inductive Phrase where
  /-- Operands that operators of a layer join, or one operand that binds tighter. -/
  | layer (layer : Layer) (tree : Expr)
  /-- An operand with the signs before it. -/
  | signed (tree : Expr)
  /-- Paths that are united. -/
  | union (tree : Expr)
  /-- A location path, or another operand that a path may follow. -/
  | path (tree : Expr)
  | location (tree : Expr)
  /-- The steps of a path. -/
  | relative (steps : List Step)
  | step (step : Step)
  | axis (axis : Axis)
  | test (test : NodeTest)
  | predicates (predicates : List Expr)
  /-- An operand that is no location path, with its predicates. -/
  | filtered (tree : Expr)
  | primary (tree : Expr)
  /-- The arguments of a call. -/
  | arguments (arguments : List Expr)
  /-- The arguments after the first, each with the comma before it. -/
  | others (arguments : List Expr)

namespace Phrase

/-- A whole expression. -/
abbrev expr (tree : Expr) : Phrase := layer .or tree

/-- What operators of a layer join on the right. -/
def tighter (tree : Expr) : Layer → Phrase
  | .or => layer .and tree
  | .and => layer .equality tree
  | .equality => layer .relational tree
  | .relational => layer .additive tree
  | .additive => layer .multiplicative tree
  | .multiplicative => signed tree

end Phrase

/-- Which tokens a phrase can be written as, if prefixes stand for the given namespaces. -/
inductive Derives (bindings : Bindings) : Phrase → List Token → Prop where
  -- Operators
  | join {on : Layer} {token : Token} {op : Operator} {left right : Expr} {ts us : List Token}
      (first : Derives bindings (.layer on left) ts) (joins : Joins on token op)
      (second : Derives bindings (Phrase.tighter right on) us) :
      Derives bindings (.layer on (.binary op left right)) (ts ++ token :: us)
  | operand {on : Layer} {tree : Expr} {ts : List Token}
      (only : Derives bindings (Phrase.tighter tree on) ts) : Derives bindings (.layer on tree) ts
  | negative {tree : Expr} {ts : List Token} (inner : Derives bindings (.signed tree) ts) :
      Derives bindings (.signed (.negative tree)) (.symbol .minus :: ts)
  | unsigned {tree : Expr} {ts : List Token} (only : Derives bindings (.union tree) ts) :
      Derives bindings (.signed tree) ts
  | unite {left right : Expr} {ts us : List Token} (first : Derives bindings (.union left) ts)
      (second : Derives bindings (.path right) us) :
      Derives bindings (.union (.union left right)) (ts ++ .symbol .pipe :: us)
  | single {tree : Expr} {ts : List Token} (only : Derives bindings (.path tree) ts) :
      Derives bindings (.union tree) ts
  -- Paths
  | location {tree : Expr} {ts : List Token} (only : Derives bindings (.location tree) ts) :
      Derives bindings (.path tree) ts
  | filtered {tree : Expr} {ts : List Token} (only : Derives bindings (.filtered tree) ts) :
      Derives bindings (.path tree) ts
  | pathFrom {base : Expr} {steps : List Step} {ts us : List Token}
      (start : Derives bindings (.filtered base) ts)
      (follows : Derives bindings (.relative steps) us) :
      Derives bindings (.path (.pathFrom base steps)) (ts ++ .symbol .slash :: us)
  | anywhereFrom {base : Expr} {steps : List Step} {ts us : List Token}
      (start : Derives bindings (.filtered base) ts)
      (follows : Derives bindings (.relative steps) us) :
      Derives bindings (.path (.pathFrom base (.anywhere :: steps)))
        (ts ++ .symbol .doubleSlash :: us)
  | root : Derives bindings (.location (.rootPath [])) [.symbol .slash]
  | fromRoot {steps : List Step} {ts : List Token}
      (follows : Derives bindings (.relative steps) ts) :
      Derives bindings (.location (.rootPath steps)) (.symbol .slash :: ts)
  | anywhere {steps : List Step} {ts : List Token}
      (follows : Derives bindings (.relative steps) ts) :
      Derives bindings (.location (.rootPath (.anywhere :: steps))) (.symbol .doubleSlash :: ts)
  | relative {steps : List Step} {ts : List Token} (only : Derives bindings (.relative steps) ts) :
      Derives bindings (.location (.path steps)) ts
  | firstStep {step : Step} {ts : List Token} (only : Derives bindings (.step step) ts) :
      Derives bindings (.relative [step]) ts
  | nextStep {steps : List Step} {step : Step} {ts us : List Token}
      (before : Derives bindings (.relative steps) ts) (last : Derives bindings (.step step) us) :
      Derives bindings (.relative (steps ++ [step])) (ts ++ .symbol .slash :: us)
  | anywhereStep {steps : List Step} {step : Step} {ts us : List Token}
      (before : Derives bindings (.relative steps) ts) (last : Derives bindings (.step step) us) :
      Derives bindings (.relative (steps ++ [.anywhere, step])) (ts ++ .symbol .doubleSlash :: us)
  -- Steps
  | self : Derives bindings (.step (.to .self .anyNode [])) [.symbol .dot]
  | parent : Derives bindings (.step (.to .parent .anyNode [])) [.symbol .dotDot]
  | step {axis : Axis} {test : NodeTest} {predicates : List Expr} {ts us vs : List Token}
      (along : Derives bindings (.axis axis) ts) (takes : Derives bindings (.test test) us)
      (keeps : Derives bindings (.predicates predicates) vs) :
      Derives bindings (.step (.to axis test predicates)) (ts ++ us ++ vs)
  | child : Derives bindings (.axis .child) []
  | attributes : Derives bindings (.axis .attributes) [.symbol .atSign]
  | axis {axis : Axis} {name : QName} (known : name.toText = axis.name) :
      Derives bindings (.axis axis) [.axis name, .symbol .doubleColon]
  | anyNode :
      Derives bindings (.test .anyNode) [.nodeType .node, .symbol .leftParen, .symbol .rightParen]
  | text :
      Derives bindings (.test .text) [.nodeType .text, .symbol .leftParen, .symbol .rightParen]
  | comment : Derives bindings (.test .comment)
      [.nodeType .comment, .symbol .leftParen, .symbol .rightParen]
  | instruction : Derives bindings (.test (.instruction none))
      [.nodeType .instruction, .symbol .leftParen, .symbol .rightParen]
  | target {target : String} : Derives bindings (.test (.instruction (some target)))
      [.nodeType .instruction, .symbol .leftParen, .literal target, .symbol .rightParen]
  | anyName : Derives bindings (.test .anyName) [.name .any]
  | anyNameIn {nsPrefix uri : String} (bound : bindings.resolve? nsPrefix = some uri) :
      Derives bindings (.test (.anyNameIn uri)) [.name (.anyOf nsPrefix)]
  | named {localName : String} :
      Derives bindings (.test (.named none localName)) [.name (.exactly ⟨none, localName⟩)]
  | namedIn {nsPrefix uri localName : String} (bound : bindings.resolve? nsPrefix = some uri) :
      Derives bindings (.test (.named (some uri) localName))
        [.name (.exactly ⟨some nsPrefix, localName⟩)]
  | noPredicate : Derives bindings (.predicates []) []
  | predicate {predicate : Expr} {predicates : List Expr} {ts us : List Token}
      (first : Derives bindings (.expr predicate) ts)
      (rest : Derives bindings (.predicates predicates) us) :
      Derives bindings (.predicates (predicate :: predicates))
        (.symbol .leftBracket :: ts ++ .symbol .rightBracket :: us)
  -- Other operands
  | plain {tree : Expr} {ts : List Token} (only : Derives bindings (.primary tree) ts) :
      Derives bindings (.filtered tree) ts
  | filter {base : Expr} {predicates : List Expr} {ts us : List Token}
      (start : Derives bindings (.primary base) ts)
      (keeps : Derives bindings (.predicates predicates) us) (nonempty : predicates ≠ []) :
      Derives bindings (.filtered (.filter base predicates)) (ts ++ us)
  | reference {name : QName}
      (bound : ∀ nsPrefix, name.nsPrefix = some nsPrefix → (bindings.resolve? nsPrefix).isSome) :
      Derives bindings (.primary (.reference name)) [.reference name]
  | literal {text : String} : Derives bindings (.primary (.literal text)) [.literal text]
  | number {value : Float} : Derives bindings (.primary (.number value)) [.number value]
  | parentheses {tree : Expr} {ts : List Token} (inner : Derives bindings (.expr tree) ts) :
      Derives bindings (.primary tree) (.symbol .leftParen :: ts ++ [.symbol .rightParen])
  | call {function : Function} {name : QName} {given : List Expr} {ts : List Token}
      (known : name.toText = function.spelling) (gets : Derives bindings (.arguments given) ts)
      (fits : function.arity.admits given.length = true) :
      Derives bindings (.primary (.call function given))
        (.function name :: .symbol .leftParen :: ts ++ [.symbol .rightParen])
  | noArgument : Derives bindings (.arguments []) []
  | argument {argument : Expr} {others : List Expr} {ts us : List Token}
      (first : Derives bindings (.expr argument) ts)
      (rest : Derives bindings (.others others) us) :
      Derives bindings (.arguments (argument :: others)) (ts ++ us)
  | noOther : Derives bindings (.others []) []
  | other {argument : Expr} {others : List Expr} {ts us : List Token}
      (first : Derives bindings (.expr argument) ts)
      (rest : Derives bindings (.others others) us) :
      Derives bindings (.others (argument :: others)) (.symbol .comma :: ts ++ us)

/-! ## Operators and names -/

/-- How tightly the operators of a layer bind. -/
def Layer.level : Layer → Nat
  | or => 0
  | and => 1
  | equality => 2
  | relational => 3
  | additive => 4
  | multiplicative => 5

theorem joins_iff {on : Layer} {token : Token} {op : Operator} :
    Joins on token op ↔ token.operator? = some op ∧ op.level = on.level := by
  constructor
  · intro joins
    cases joins <;> exact ⟨rfl, rfl⟩
  · rintro ⟨stands, level⟩
    unfold Token.operator? at stands
    split at stands
    all_goals cases stands
    all_goals cases on <;> first | exact absurd level (by decide) | constructor

theorem Axis.ofName?_eq_some_iff {axis : Axis} {name : String} :
    Axis.ofName? name = some axis ↔ name = axis.name := by
  constructor
  · intro found
    rw [ofName?] at found
    have same := List.find?_some found
    exact (beq_iff_eq.mp same).symm
  · rintro rfl
    cases axis <;> decide +kernel

theorem Function.ofName?_eq_some_iff {function : Function} {name : String} :
    Function.ofName? name = some function ↔ name = function.spelling := by
  constructor
  · intro found
    rw [ofName?] at found
    have same := List.find?_some found
    exact (beq_iff_eq.mp same).symm
  · rintro rfl
    cases function <;> decide +kernel

end Markup.XPath
