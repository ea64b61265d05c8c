import Markup.XPath.Expr

/-!
# What can be wrong with a query
-/

namespace Markup.XPath

/-- What an expression has to go on with. -/
inductive Wanted where
  | token (text : String)
  | expression
  | nodeTest
  deriving Repr, DecidableEq

/-- The words for what is wanted. -/
def Wanted.phrase : Wanted → String
  | token text => s!"'{text}'"
  | expression => "expression"
  | nodeTest => "node test"

/-- What can be wrong with the text of an expression. Tokens are given by their text. -/
inductive SyntaxProblem where
  | doubleColonMissing
  | equalsMissing
  | unterminatedLiteral
  | variableNameMissing
  | operatorMissing (found : String)
  | unexpectedChar (found : Char)
  | emptyExpression
  | leftover (token : String)
  | tooDeep
  /-- Another token stands here, or the expression ends. -/
  | expected (wanted : Wanted) (found : Option String)
  | unknownAxis (name : String)
  deriving Repr, DecidableEq

/-- The text of a problem. -/
def SyntaxProblem.message : SyntaxProblem → String
  | doubleColonMissing => "expected '::'"
  | equalsMissing => "expected '=' after '!'"
  | unterminatedLiteral => "unterminated string literal"
  | variableNameMissing => "expected name after '$'"
  | operatorMissing found => s!"expected an operator, found '{found}'"
  | unexpectedChar found => s!"unexpected character '{found}'"
  | emptyExpression => "empty XPath expression"
  | leftover token => s!"unexpected token '{token}' after expression"
  | tooDeep => "expression nested too deeply"
  | expected wanted none => s!"expected {wanted.phrase}, found end of expression"
  | expected wanted (some found) => s!"expected {wanted.phrase}, found '{found}'"
  | unknownAxis name => s!"unknown axis '{name}'"

/-- The types of values. -/
inductive ValueType where
  | boolean | number | string | nodes
  deriving Repr, DecidableEq

/-- A type as messages name it. -/
def ValueType.name : ValueType → String
  | boolean => "boolean"
  | number => "number"
  | string => "string"
  | nodes => "node-set"

/-- Why a query cannot be read or has no value. -/
inductive Fault where
  /-- The text is no expression; the position is a number of bytes. -/
  | badSyntax (problem : SyntaxProblem) (position : Nat)
  | unknownNamespace (nsPrefix : String)
  | undefinedVariable (name : String)
  | undefinedFunction (name : String)
  | wrongArity (function : Function) (found : Nat)
  /-- A value of another type stands where nodes are needed. -/
  | nodesExpected (found : ValueType)
  deriving Repr, DecidableEq

/-- The text of a fault. -/
def Fault.message : Fault → String
  | badSyntax problem position => s!"XPath syntax error at position {position}: {problem.message}"
  | unknownNamespace nsPrefix => s!"unbound namespace prefix '{nsPrefix}'"
  | undefinedVariable name => s!"undefined variable: ${name}"
  | undefinedFunction name => s!"undefined function: {name}()"
  | wrongArity function found =>
    s!"invalid argument count for {function.spelling}(): expected {function.arity.phrase}, " ++
      s!"found {found}"
  | nodesExpected found => s!"type error: expected node-set, found {found.name}"

end Markup.XPath
