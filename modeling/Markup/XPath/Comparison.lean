import Markup.XPath.Value

/-!
# Operations on values

Nodes compare as their texts do, and it is enough that one of them satisfies a comparison. So nodes
can at the same time be equal to a value and differ from it. Only a boolean is compared with all of
the nodes at once, namely with whether there are any.
-/

namespace Markup.XPath

/-- Whether a relation holds between two numbers. -/
def Relation.holds : Relation → Float → Float → Bool
  | less, x, y => decide (x < y)
  | atMost, x, y => decide (x ≤ y)
  | greater, x, y => decide (y < x)
  | atLeast, x, y => decide (y ≤ x)

/-- The result of an operation on two numbers. -/
def Arithmetic.apply : Arithmetic → Float → Float → Float
  | add, x, y => x + y
  | subtract, x, y => x - y
  | multiply, x, y => x * y
  | divide, x, y => x / y
  | remainder, x, y => Number.remainder x y

namespace Value

/-- The texts of nodes. -/
def texts (doc : Document) (found : List Node) : List String :=
  found.map (·.text doc)

/-- The numbers that nodes stand for. -/
def numbers (doc : Document) (found : List Node) : List Float :=
  found.map fun node => numberOf (node.text doc)

/-- Whether two values are equal or, if the test is turned around, whether they differ. -/
def agree (doc : Document) (negated : Bool) : Value → Value → Bool
  | nodes left, nodes right =>
    let others := texts doc right
    (texts doc left).any fun x => others.any fun y => (x == y) != negated
  | nodes found, boolean value => (!found.isEmpty == value) != negated
  | boolean value, nodes found => (!found.isEmpty == value) != negated
  | nodes found, number value => (numbers doc found).any fun x => (x == value) != negated
  | number value, nodes found => (numbers doc found).any fun x => (x == value) != negated
  | nodes found, string value => (texts doc found).any fun x => (x == value) != negated
  | string value, nodes found => (texts doc found).any fun x => (x == value) != negated
  | boolean left, right => (left == right.toBoolean) != negated
  | left, boolean right => (left.toBoolean == right) != negated
  | number left, right => (left == right.toNumber doc) != negated
  | left, number right => (left.toNumber doc == right) != negated
  | string left, string right => (left == right) != negated

/-- Whether a relation holds between two values, taken as numbers. -/
def related (doc : Document) (relation : Relation) : Value → Value → Bool
  | nodes left, nodes right =>
    let others := numbers doc right
    (numbers doc left).any fun x => others.any fun y => relation.holds x y
  | nodes found, boolean value => relation.holds (ofBit !found.isEmpty) (ofBit value)
  | boolean value, nodes found => relation.holds (ofBit value) (ofBit !found.isEmpty)
  | nodes found, right =>
    let other := right.toNumber doc
    (numbers doc found).any fun x => relation.holds x other
  | left, nodes found =>
    let other := left.toNumber doc
    (numbers doc found).any fun y => relation.holds other y
  | left, right => relation.holds (left.toNumber doc) (right.toNumber doc)

end Value
end Markup.XPath
