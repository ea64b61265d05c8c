import Markup.Document.Basic
import Markup.XPath.Fault
import Markup.XPath.Number

/-!
# Values of queries

A value is a boolean, a number, a text or a list of nodes. Nodes stand for the text of the first of
them where a text or a number is needed, so the conversions need the document.
-/

namespace Markup.XPath

/-- A node that a query can select: one of the tree, or an attribute. -/
inductive Node where
  | tree (id : NodeId)
  /-- The attribute at a place in the list of an element. -/
  | attr (owner : NodeId) (index : Nat)
  deriving Repr, DecidableEq, Inhabited

namespace Node

/-- The node of the tree that the node is or belongs to. -/
def owner : Node → NodeId
  | tree id => id
  | attr owner _ => owner

/-- The node of the tree that the node is. -/
def tree? : Node → Option NodeId
  | tree id => some id
  | attr .. => none

/-- The attribute that the node is. -/
def attribute? (doc : Document) : Node → Option Attribute
  | tree _ => none
  | attr owner index => (doc.attributes owner)[index]?

/-- What a node stands for as a text. -/
def text (doc : Document) : Node → String
  | attr owner index => (((doc.attributes owner)[index]?).map (·.value)).getD ""
  | tree id =>
    match doc.kind id with
    | .document | .element .. => doc.textContent id
    | other => (other.content?).getD ""

/-- The part of the name after the prefix, empty where a node has no name. -/
def localName (doc : Document) (node : Node) : String :=
  match node.attribute? doc with
  | some found => found.name.localName
  | none => (doc.kind node.owner).localName?.getD ""

/-- The name as it is written, empty where a node has no name. -/
def name (doc : Document) (node : Node) : String :=
  match node.attribute? doc with
  | some found => found.name.toText
  | none => (doc.kind node.owner).qualifiedName?.getD ""

/-- The namespace of the name, empty where there is none. -/
def uri (doc : Document) (node : Node) : String :=
  match node.attribute? doc with
  | some found => found.uri.getD ""
  | none => (doc.kind node.owner).uri?.getD ""

end Node

/-- The value of a query. -/
inductive Value where
  | boolean (value : Bool)
  | number (value : Float)
  | string (value : String)
  | nodes (nodes : List Node)
  deriving Inhabited

namespace Value

/-- The type of a value. -/
def type : Value → ValueType
  | boolean _ => .boolean
  | number _ => .number
  | string _ => .string
  | nodes _ => .nodes

/-- Whether two values have one type and are equal. Numbers are equal as numbers are, so that none
is equal to itself if it is not a number. -/
protected def beq : Value → Value → Bool
  | boolean left, boolean right => left == right
  | number left, number right => left == right
  | string left, string right => left == right
  | nodes left, nodes right => left == right
  | _, _ => false

instance : BEq Value := ⟨Value.beq⟩

/-- Zero or one. -/
def ofBit (bit : Bool) : Float := if bit then 1 else 0

/-- A value as a boolean: whether it is not zero, not empty, and a number at all. -/
def toBoolean : Value → Bool
  | boolean value => value
  | number value => value != 0 && !value.isNaN
  | string value => !value.isEmpty
  | nodes found => !found.isEmpty

/-- A value as a number. -/
def toNumber (doc : Document) : Value → Float
  | boolean value => ofBit value
  | number value => value
  | string value => numberOf value
  | nodes [] => Number.nan
  | nodes (first :: _) => numberOf (first.text doc)

/-- A value as a text. -/
def toText (doc : Document) : Value → String
  | boolean value => toString value
  | number value => numberText value
  | string value => value
  | nodes [] => ""
  | nodes (first :: _) => first.text doc

/-- The nodes of a value that has to be one of nodes. -/
def asNodes : Value → Except Fault (List Node)
  | nodes found => .ok found
  | other => .error (.nodesExpected other.type)

/-- Whether a predicate with this value holds at a position: a number is a position itself. -/
def selects (value : Value) (position : Nat) : Bool :=
  match value with
  | number wanted => wanted == Float.ofNat position
  | other => other.toBoolean

/-- A value on its own, without the document. -/
def describe : Value → String
  | boolean value => toString value
  | number value => numberText value
  | string value => value
  | nodes found => s!"<node-set of {found.length} nodes>"

end Value
end Markup.XPath
