import Markup.Text.Lower
import Markup.Text.Search
import Markup.XPath.Value

/-!
# Functions of queries

Texts are sequences of characters, and their positions count from one. A function without arguments
that could take one works on the node in focus.
-/

namespace Markup.XPath

/-- The node an expression is evaluated at, its position among the nodes it was selected with, and
their number. -/
structure Focus where
  node : Node
  position : Nat
  size : Nat

/-! ## Texts -/

/-- A number as a count of characters: at least zero, without the digits after the point. -/
def countOf (x : Float) : Nat := x.toUInt64.toNat

/-- The characters from a position on, or as many of them as a length says. Both are rounded; the
first position is one. A position that is no number selects nothing. -/
def slice (text : List Char) (start : Float) (length : Option Float) : List Char :=
  let first := round start
  if first.isNaN then []
  else
    match length with
    | none => text.drop (countOf (first - 1))
    | some length =>
      let finish := first + round length
      (text.take (countOf (finish - 1))).drop (countOf (first - 1))

/-- The words of a text, which are separated by blanks. -/
def words (text : List Char) : List (List Char) :=
  (text.splitOnP Text.isMarkupBlank).filter fun word => !word.isEmpty

/-- A text with characters replaced: each that occurs in `from` by the one at the same place in
`to`, or by nothing if there is none. -/
def translate (text source target : List Char) : List Char :=
  text.filterMap fun c =>
    match source.idxOf? c with
    | some index => target[index]?
    | none => some c

/-! ## Nodes -/

/-- Whether an attribute is one that the prefix `xml` reserves. -/
def isReserved (attr : Attribute) (localName : String) : Bool :=
  attr.name.localName == localName &&
    (attr.uri == some xmlNamespace || attr.name.nsPrefix == some "xml")

/-- Whether an attribute identifies its element. -/
def isIdentifier (attr : Attribute) : Bool :=
  (attr.name.localName == "id" && attr.name.nsPrefix.isNone) || isReserved attr "id"

/-- The elements that one of the words of a text identifies. -/
def identified (doc : Document) (text : String) : List Node :=
  let wanted := words text.toList
  let matched (attr : Attribute) :=
    isIdentifier attr && wanted.contains (Text.trim Text.isBlank attr.value.toList)
  if wanted.isEmpty then []
  else ((doc.descendants Document.root).filter fun id => (doc.attributes id).any matched).map .tree

/-- Whether the language at a node is a given one or a variety of it. The nearest declaration
counts, and letters are compared without regard to case. -/
def isInLanguage (doc : Document) (id : NodeId) (language : String) : Bool :=
  let declared := (doc.ancestors id).findSome? fun ancestor =>
    (doc.attributes ancestor).find? (isReserved · "lang")
  let wanted := Text.lower language.toList
  declared.any fun attr =>
    let found := Text.lower attr.value.toList
    found == wanted || (wanted ++ ['-']).isPrefixOf found

/-! ## Application -/

/-- The number of a length. -/
def sizeValue (size : Nat) : Value := .number (.ofNat size)

/-- The text of a list of characters. -/
def textValue (text : List Char) : Value := .string (.ofList text)

/-- The value of a function. The number of arguments was checked when the expression was read. -/
def Function.apply (doc : Document) (focus : Focus) (function : Function)
    (arguments : List Value) : Except Fault Value :=
  let text (value : Value) := (value.toText doc).toList
  let ofNode (f : Document → Node → String) (node : Option Node) : Value :=
    .string ((node.map (f doc)).getD "")
  match function, arguments with
  | .last, [] => .ok (sizeValue focus.size)
  | .position, [] => .ok (sizeValue focus.position)
  | .count, [value] => return sizeValue (← value.asNodes).length
  | .id, [.nodes found] =>
    .ok (.nodes (identified doc (" ".intercalate (found.map (·.text doc)))))
  | .id, [value] => .ok (.nodes (identified doc (value.toText doc)))
  | .localName, [] => .ok (ofNode Node.localName focus.node)
  | .localName, [value] => return ofNode Node.localName (← value.asNodes).head?
  | .namespaceUri, [] => .ok (ofNode Node.uri focus.node)
  | .namespaceUri, [value] => return ofNode Node.uri (← value.asNodes).head?
  | .name, [] => .ok (ofNode Node.name focus.node)
  | .name, [value] => return ofNode Node.name (← value.asNodes).head?
  | .string, [] => .ok (.string (focus.node.text doc))
  | .string, [value] => .ok (.string (value.toText doc))
  | .concat, values => .ok (.string (String.join (values.map (·.toText doc))))
  | .startsWith, [value, start] => .ok (.boolean ((text start).isPrefixOf (text value)))
  | .contains, [value, part] =>
    .ok (.boolean (Text.contains (text part) (text value)))
  | .substringBefore, [value, part] =>
    .ok (textValue (((Text.splitAround (text part) (text value)).map (·.1)).getD []))
  | .substringAfter, [value, part] =>
    .ok (textValue (((Text.splitAround (text part) (text value)).map (·.2)).getD []))
  | .substring, [value, start] => .ok (textValue (slice (text value) (start.toNumber doc) none))
  | .substring, [value, start, length] =>
    .ok (textValue (slice (text value) (start.toNumber doc) (length.toNumber doc)))
  | .stringLength, [] => .ok (sizeValue (focus.node.text doc).length)
  | .stringLength, [value] => .ok (sizeValue (value.toText doc).length)
  | .normalizeSpace, [] => .ok (textValue ([' '].intercalate (words (focus.node.text doc).toList)))
  | .normalizeSpace, [value] => .ok (textValue ([' '].intercalate (words (text value))))
  | .translate, [value, source, target] =>
    .ok (textValue (XPath.translate (text value) (text source) (text target)))
  | .boolean, [value] => .ok (.boolean value.toBoolean)
  | .negation, [value] => .ok (.boolean !value.toBoolean)
  | .truth, [] => .ok (.boolean true)
  | .falsehood, [] => .ok (.boolean false)
  | .lang, [value] => .ok (.boolean (isInLanguage doc focus.node.owner (value.toText doc)))
  | .number, [] => .ok (.number (numberOf (focus.node.text doc)))
  | .number, [value] => .ok (.number (value.toNumber doc))
  | .sum, [value] => do
    let numbers := (← value.asNodes).map fun node => numberOf (node.text doc)
    return .number (numbers.foldl (· + ·) (-0.0))
  | .floor, [value] => .ok (.number (Number.floor (value.toNumber doc)))
  | .ceiling, [value] => .ok (.number (Number.ceiling (value.toNumber doc)))
  | .round, [value] => .ok (.number (XPath.round (value.toNumber doc)))
  | function, arguments => .error (.wrongArity function arguments.length)

end Markup.XPath
