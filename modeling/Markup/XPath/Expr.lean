import Markup.Name

/-!
# Query expressions

An expression selects nodes or computes a value. Prefixes are resolved and functions are looked up
when an expression is read, so that an expression stands on its own.
-/

namespace Markup.XPath

/-- The directions in which a step looks for nodes. -/
inductive Axis where
  | child | descendant | parent | ancestor | followingSibling | precedingSibling | following
  | preceding | attributes | namespaces | self | descendantOrSelf | ancestorOrSelf
  deriving Repr, DecidableEq

namespace Axis

/-- All axes. -/
def all : List Axis :=
  [child, descendant, parent, ancestor, followingSibling, precedingSibling, following, preceding,
    attributes, namespaces, self, descendantOrSelf, ancestorOrSelf]

/-- An axis as expressions name it. -/
def name : Axis → String
  | child => "child"
  | descendant => "descendant"
  | parent => "parent"
  | ancestor => "ancestor"
  | followingSibling => "following-sibling"
  | precedingSibling => "preceding-sibling"
  | following => "following"
  | preceding => "preceding"
  | attributes => "attribute"
  | namespaces => "namespace"
  | self => "self"
  | descendantOrSelf => "descendant-or-self"
  | ancestorOrSelf => "ancestor-or-self"

/-- The axis of a name. -/
def ofName? (name : String) : Option Axis :=
  all.find? (·.name == name)

/-- Whether positions count against the order of the document. -/
def isReverse : Axis → Bool
  | ancestor | ancestorOrSelf | preceding | precedingSibling => true
  | _ => false

end Axis

/-- Which of the nodes on an axis a step takes. -/
inductive NodeTest where
  /-- Nodes of a local name in a namespace, or in none. -/
  | named (uri : Option String) (localName : String)
  /-- Nodes of any name: attributes on the axis of attributes, elements on the others. -/
  | anyName
  /-- Nodes of any name in a namespace. -/
  | anyNameIn (uri : String)
  | anyNode
  /-- Text and CDATA. -/
  | text
  | comment
  /-- Instructions, or those of one target. -/
  | instruction (target : Option String)
  deriving Repr, DecidableEq

/-- A test with the namespace in place of the prefix. -/
def NodeTest.toText : NodeTest → String
  | named none localName => localName
  | named (some uri) localName => "\x7b" ++ uri ++ "\x7d" ++ localName
  | anyName => "*"
  | anyNameIn uri => "\x7b" ++ uri ++ "\x7d*"
  | anyNode => "node()"
  | text => "text()"
  | comment => "comment()"
  | instruction none => "processing-instruction()"
  | instruction (some target) => "processing-instruction('" ++ target ++ "')"

/-- The comparisons of order. -/
inductive Relation where
  | less | atMost | greater | atLeast
  deriving Repr, DecidableEq

/-- The operations on numbers. -/
inductive Arithmetic where
  | add | subtract | multiply | divide | remainder
  deriving Repr, DecidableEq

/-- The operators between two expressions. -/
inductive Operator where
  | or | and | equal | notEqual
  | relation (relation : Relation)
  | arithmetic (operation : Arithmetic)
  deriving Repr, DecidableEq

namespace Operator

/-- An operator as expressions write it. -/
def symbol : Operator → String
  | or => "or"
  | and => "and"
  | equal => "="
  | notEqual => "!="
  | relation .less => "<"
  | relation .atMost => "<="
  | relation .greater => ">"
  | relation .atLeast => ">="
  | arithmetic .add => "+"
  | arithmetic .subtract => "-"
  | arithmetic .multiply => "*"
  | arithmetic .divide => "div"
  | arithmetic .remainder => "mod"

/-- How tightly an operator binds. -/
def level : Operator → Nat
  | or => 0
  | and => 1
  | equal | notEqual => 2
  | relation _ => 3
  | arithmetic .add | arithmetic .subtract => 4
  | arithmetic _ => 5

/-- The levels of operators, loosest first. -/
def levels : List Nat := [0, 1, 2, 3, 4, 5]

end Operator

/-- The functions that an expression may call. -/
inductive Function where
  | last | position | count | id | localName | namespaceUri | name
  | string | concat | startsWith | contains | substringBefore | substringAfter | substring
  | stringLength | normalizeSpace | translate
  | boolean | negation | truth | falsehood | lang
  | number | sum | floor | ceiling | round
  deriving Repr, DecidableEq

/-- How many arguments a function takes. -/
structure Arity where
  least : Nat
  /-- The largest number, if there is one. -/
  most : Option Nat
  deriving Repr, DecidableEq

namespace Arity

/-- Whether a number of arguments fits. -/
def admits (arity : Arity) (count : Nat) : Bool :=
  arity.least ≤ count && arity.most.all fun most => count ≤ most

/-- The numbers that fit, in words. -/
def phrase : Arity → String
  | ⟨least, none⟩ => s!"at least {least}"
  | ⟨least, some most⟩ => if least = most then toString least else s!"{least} or {most}"

end Arity

namespace Function

/-- All functions. -/
def all : List Function :=
  [last, position, count, id, localName, namespaceUri, name, string, concat, startsWith, contains,
    substringBefore, substringAfter, substring, stringLength, normalizeSpace, translate, boolean,
    negation, truth, falsehood, lang, number, sum, floor, ceiling, round]

/-- A function as expressions name it. -/
def spelling : Function → String
  | last => "last"
  | position => "position"
  | count => "count"
  | id => "id"
  | localName => "local-name"
  | namespaceUri => "namespace-uri"
  | name => "name"
  | string => "string"
  | concat => "concat"
  | startsWith => "starts-with"
  | contains => "contains"
  | substringBefore => "substring-before"
  | substringAfter => "substring-after"
  | substring => "substring"
  | stringLength => "string-length"
  | normalizeSpace => "normalize-space"
  | translate => "translate"
  | boolean => "boolean"
  | negation => "not"
  | truth => "true"
  | falsehood => "false"
  | lang => "lang"
  | number => "number"
  | sum => "sum"
  | floor => "floor"
  | ceiling => "ceiling"
  | round => "round"

/-- The function of a name. -/
def ofName? (name : String) : Option Function :=
  all.find? (·.spelling == name)

/-- How many arguments a function takes. -/
def arity : Function → Arity
  | last | position | truth | falsehood => ⟨0, some 0⟩
  | localName | namespaceUri | name | string | stringLength | normalizeSpace | number =>
    ⟨0, some 1⟩
  | count | id | boolean | negation | lang | sum | floor | ceiling | round => ⟨1, some 1⟩
  | startsWith | contains | substringBefore | substringAfter => ⟨2, some 2⟩
  | substring => ⟨2, some 3⟩
  | translate => ⟨3, some 3⟩
  | concat => ⟨2, none⟩

end Function

mutual

/-- A query expression. -/
inductive Expr where
  | number (value : Float)
  | literal (text : String)
  | reference (name : QName)
  | binary (op : Operator) (left right : Expr)
  | negative (operand : Expr)
  | call (function : Function) (arguments : List Expr)
  /-- A path that starts at the node in focus. -/
  | path (steps : List Step)
  /-- A path that starts at the document node. -/
  | rootPath (steps : List Step)
  /-- Nodes of an expression that satisfy predicates. -/
  | filter (base : Expr) (predicates : List Expr)
  /-- A path that starts at the nodes of an expression. -/
  | pathFrom (base : Expr) (steps : List Step)
  | union (left right : Expr)

/-- A step of a path. -/
inductive Step where
  | to (axis : Axis) (test : NodeTest) (predicates : List Expr)

end

instance : Inhabited Expr := ⟨.literal ""⟩

/-- The step to a node and everything below it. -/
def Step.anywhere : Step := .to .descendantOrSelf .anyNode []

end Markup.XPath
