import Markup.XPath.Fault
import Markup.Text.Utf8
import Markup.XPath.Number

/-!
# Tokens of a query

An asterisk or a name means different things in different places. After a token that ends an
operand the asterisk multiplies and a name is that of an operator. Elsewhere a name before an
opening parenthesis is that of a function or a kind of node, a name before two colons is that of an
axis, and any other name is tested for.
-/

namespace Markup.XPath

/-- The marks that are written alike everywhere. -/
inductive Symbol where
  | leftParen | rightParen | leftBracket | rightBracket
  | dot | dotDot | atSign | comma | doubleColon | slash | doubleSlash | pipe
  | plus | minus | equal | notEqual | less | atMost | greater | atLeast
  deriving Repr, DecidableEq

/-- A mark as it is written. -/
def Symbol.spelling : Symbol → String
  | leftParen => "("
  | rightParen => ")"
  | leftBracket => "["
  | rightBracket => "]"
  | dot => "."
  | dotDot => ".."
  | atSign => "@"
  | comma => ","
  | doubleColon => "::"
  | slash => "/"
  | doubleSlash => "//"
  | pipe => "|"
  | plus => "+"
  | minus => "-"
  | equal => "="
  | notEqual => "!="
  | less => "<"
  | atMost => "<="
  | greater => ">"
  | atLeast => ">="

/-- The operators that are written as a word or as an asterisk. -/
inductive WordOperator where
  | and | or | remainder | divide | multiply
  deriving Repr, DecidableEq

namespace WordOperator

/-- An operator as it is written. -/
def spelling : WordOperator → String
  | and => "and"
  | or => "or"
  | remainder => "mod"
  | divide => "div"
  | multiply => "*"

/-- The operator that a word stands for. -/
def ofWord? (word : String) : Option WordOperator :=
  [and, or, remainder, divide].find? (·.spelling == word)

end WordOperator

/-- The kinds of node that a test can name. -/
inductive NodeType where
  | comment | text | instruction | node
  deriving Repr, DecidableEq

namespace NodeType

/-- A kind of node as tests name it. -/
def name : NodeType → String
  | comment => "comment"
  | text => "text"
  | instruction => "processing-instruction"
  | node => "node"

/-- The kind of a name. -/
def ofName? (name : String) : Option NodeType :=
  [comment, text, instruction, node].find? (·.name == name)

end NodeType

/-- A test for names as it is written. -/
inductive NamePattern where
  | any
  | anyOf (nsPrefix : String)
  | exactly (name : QName)
  deriving Repr, DecidableEq

/-- A test for names as it is written. -/
def NamePattern.toText : NamePattern → String
  | any => "*"
  | anyOf nsPrefix => nsPrefix ++ ":*"
  | exactly name => name.toText

/-- A token of an expression. -/
inductive Token where
  | symbol (symbol : Symbol)
  | operator (operator : WordOperator)
  | number (value : Float)
  | literal (text : String)
  | name (pattern : NamePattern)
  | reference (name : QName)
  | function (name : QName)
  | nodeType (nodeType : NodeType)
  | axis (name : QName)

namespace Token

/-- The text of a token in messages. -/
def toText : Token → String
  | symbol s => s.spelling
  | operator op => op.spelling
  | number value => if value.isInf then "inf" else Number.shortestText value
  | literal text => "\"" ++ text ++ "\""
  | name pattern => pattern.toText
  | reference qname => "$" ++ qname.toText
  | function qname => qname.toText
  | nodeType type => type.name
  | axis qname => qname.toText

/-- Whether a token is a certain mark. -/
def isSymbol (token : Token) (wanted : Symbol) : Bool :=
  match token with
  | symbol s => s == wanted
  | _ => false

/-- Whether an operand can end with a token. -/
def endsOperand : Token → Bool
  | symbol .rightParen | symbol .rightBracket | symbol .dot | symbol .dotDot => true
  | number _ | literal _ | name _ | reference _ => true
  | _ => false

/-- The operator that stands between two operands as a token. -/
def operator? : Token → Option Operator
  | operator .or => some .or
  | operator .and => some .and
  | symbol .equal => some .equal
  | symbol .notEqual => some .notEqual
  | symbol .less => some (.relation .less)
  | symbol .atMost => some (.relation .atMost)
  | symbol .greater => some (.relation .greater)
  | symbol .atLeast => some (.relation .atLeast)
  | symbol .plus => some (.arithmetic .add)
  | symbol .minus => some (.arithmetic .subtract)
  | operator .multiply => some (.arithmetic .multiply)
  | operator .divide => some (.arithmetic .divide)
  | operator .remainder => some (.arithmetic .remainder)
  | _ => none

end Token

/-! ## Reading tokens -/

/-- Whether a character may continue a name without colons. -/
def isPlainNameChar (c : Char) : Bool :=
  c != ':' && isNameChar c

/-- What a name is called for by the text that follows it. -/
def classify (name : QName) (after : List Char) : Token :=
  match after.dropWhile Text.isMarkupBlank with
  | '(' :: _ =>
    match NodeType.ofName? name.toText with
    | some type => .nodeType type
    | none => .function name
  | ':' :: ':' :: _ => .axis name
  | _ => .name (.exactly name)

/-- The number of characters of a qualified name that begins with a given plain name. The part
after the colon has to begin as a name does; it may be another colon, which is then no part of the
name. -/
def qualifiedName (first : List Char) (after : List Char) : QName × Nat :=
  match after with
  | ':' :: next :: rest =>
    if isNameStart next then
      let localName := (next :: rest).takeWhile isPlainNameChar
      (⟨some (.ofList first), .ofList localName⟩, first.length + 1 + localName.length)
    else (⟨none, .ofList first⟩, first.length)
  | _ => (⟨none, .ofList first⟩, first.length)

/-- A name that is not that of an operator, and the number of its characters. -/
def readName (first : List Char) (after : List Char) : Token × Nat :=
  match after with
  | ':' :: ':' :: _ => (classify ⟨none, .ofList first⟩ after, first.length)
  | ':' :: '*' :: _ => (.name (.anyOf (.ofList first)), first.length + 2)
  | _ =>
    let (name, length) := qualifiedName first after
    (classify name (after.drop (length - first.length)), length)

/-- The number of characters of a number and its value. -/
def readNumber (text : List Char) : Token × Nat :=
  let before := text.takeWhile Char.isDigit
  match text.drop before.length with
  | '.' :: rest =>
    let after := rest.takeWhile Char.isDigit
    (.number (Number.ofDigits false before after), before.length + 1 + after.length)
  | _ => (.number (Number.ofDigits false before []), before.length)

/-- Marks of one character that begin no other. -/
def mark? : Char → Option Symbol
  | '(' => some .leftParen
  | ')' => some .rightParen
  | '[' => some .leftBracket
  | ']' => some .rightBracket
  | '@' => some .atSign
  | ',' => some .comma
  | '|' => some .pipe
  | '+' => some .plus
  | '-' => some .minus
  | '=' => some .equal
  | _ => none

/-- A mark of two characters if the second follows, or else another token of one character. -/
def paired (second : Char) (pair single : Symbol) (rest : List Char) : Token × Nat :=
  if rest.head? == some second then (.symbol pair, 2) else (.symbol single, 1)

/-- The first token of a text without blanks before it, and the number of its characters. -/
def scan (afterOperand : Bool) (position : Nat) (first : Char) (rest : List Char) :
    Except Fault (Token × Nat) :=
  match mark? first with
  | some symbol => .ok (.symbol symbol, 1)
  | none =>
    if first == '*' then
      .ok (if afterOperand then .operator .multiply else .name .any, 1)
    else if first == ':' then
      if rest.head? == some ':' then .ok (.symbol .doubleColon, 2)
      else .error (.badSyntax .doubleColonMissing position)
    else if first == '.' then
      if rest.head? == some '.' then .ok (.symbol .dotDot, 2)
      else if rest.head?.any Char.isDigit then .ok (readNumber (first :: rest))
      else .ok (.symbol .dot, 1)
    else if first == '/' then .ok (paired '/' .doubleSlash .slash rest)
    else if first == '<' then .ok (paired '=' .atMost .less rest)
    else if first == '>' then .ok (paired '=' .atLeast .greater rest)
    else if first == '!' then
      if rest.head? == some '=' then .ok (.symbol .notEqual, 2)
      else .error (.badSyntax .equalsMissing position)
    else if first == '"' || first == '\'' then
      let content := rest.takeWhile (· != first)
      if content.length < rest.length then
        .ok (.literal (.ofList content), content.length + 2)
      else .error (.badSyntax .unterminatedLiteral position)
    else if first == '$' then
      if rest.head?.any isNameStart then
        let plain := rest.takeWhile isPlainNameChar
        let (name, length) := qualifiedName plain (rest.drop plain.length)
        .ok (.reference name, length + 1)
      else .error (.badSyntax .variableNameMissing (position + 1))
    else if first.isDigit then .ok (readNumber (first :: rest))
    else if isNameStart first then
      let plain := (first :: rest).takeWhile isPlainNameChar
      if afterOperand then
        let word := String.ofList plain
        match WordOperator.ofWord? word with
        | some op => .ok (.operator op, plain.length)
        | none => .error (.badSyntax (.operatorMissing word) position)
      else .ok (readName plain ((first :: rest).drop plain.length))
    else .error (.badSyntax (.unexpectedChar first) position)

/-- The tokens of a text without blanks before them, each with its place, if the text begins at a
place. -/
def tokensFrom (afterOperand : Bool) (position : Nat) :
    List Char → Except Fault (List (Token × Nat))
  | [] => .ok []
  | first :: rest =>
    if Text.isMarkupBlank first then tokensFrom afterOperand (position + 1) rest
    else do
      let (token, length) ← scan afterOperand position first rest
      let consumed := Text.byteLength (first :: rest.take (length - 1))
      let more ← tokensFrom token.endsOperand (position + consumed) (rest.drop (length - 1))
      return (token, position) :: more
  termination_by text => text.length

/-- The tokens of an expression, each with the number of bytes before it. -/
def tokens (text : String) : Except Fault (List (Token × Nat)) :=
  tokensFrom false 0 text.toList

end Markup.XPath
