import Markup.XPath.Comparison
import Markup.XPath.Function
import Markup.XPath.Order
import Markup.XPath.Parser
import Markup.XPath.Selection

/-!
# Evaluating queries

Predicates see the nodes on an axis in the order of the axis; the nodes of a path are always in
document order. The nodes of one axis are in order by themselves, so that only what was found from
several nodes has to be arranged.
-/

namespace Markup.XPath

/-- What an expression is evaluated in. -/
structure Scope where
  doc : Document
  /-- The values of the variables; of two of one name the first counts. -/
  values : List (String × Value)
  ranks : Ranks

namespace Scope

/-- The scope of a document and the values of variables. -/
def of (doc : Document) (values : List (String × Value)) : Scope :=
  ⟨doc, values, .ofDocument doc⟩

/-- The value of a variable. -/
def lookup (scope : Scope) (name : String) : Except Fault Value :=
  match scope.values.lookup name with
  | some value => .ok value
  | none => .error (.undefinedVariable name)

end Scope

/-- The nodes for which a predicate holds, if the first of them has a position among so many. -/
def keepFrom (holds : Focus → Except Fault Value) (size : Nat) :
    Nat → List Node → Except Fault (List Node)
  | _, [] => .ok []
  | position, node :: rest => do
    let value ← holds ⟨node, position, size⟩
    let kept ← keepFrom holds size (position + 1) rest
    return if value.selects position then node :: kept else kept

/-- The nodes for which a predicate holds. -/
def keep (holds : Focus → Except Fault Value) (nodes : List Node) : Except Fault (List Node) :=
  keepFrom holds nodes.length 1 nodes

/-- In document order what was found on an axis from each of some nodes. -/
def collect (ranks : Ranks) (axis : Axis) : List (List Node) → List Node
  | [] => []
  | [found] => if axis.isReverse then found.reverse else found
  | found => ranks.arrange found.flatten

mutual

/-- The value of an expression at a focus. -/
def Expr.eval (scope : Scope) : Expr → Focus → Except Fault Value
  | .number value, _ => .ok (.number value)
  | .literal text, _ => .ok (.string text)
  | .reference name, _ => scope.lookup name.toText
  | .binary .or left right, focus => do
    if (← left.eval scope focus).toBoolean then return .boolean true
    else return .boolean (← right.eval scope focus).toBoolean
  | .binary .and left right, focus => do
    if (← left.eval scope focus).toBoolean then
      return .boolean (← right.eval scope focus).toBoolean
    else return .boolean false
  | .binary (.arithmetic operation) left right, focus => do
    let x ← left.eval scope focus
    let y ← right.eval scope focus
    return .number (operation.apply (x.toNumber scope.doc) (y.toNumber scope.doc))
  | .binary .equal left right, focus => do
    let x ← left.eval scope focus
    let y ← right.eval scope focus
    return .boolean (x.agree scope.doc false y)
  | .binary .notEqual left right, focus => do
    let x ← left.eval scope focus
    let y ← right.eval scope focus
    return .boolean (x.agree scope.doc true y)
  | .binary (.relation relation) left right, focus => do
    let x ← left.eval scope focus
    let y ← right.eval scope focus
    return .boolean (x.related scope.doc relation y)
  | .negative operand, focus => do
    return .number (-(← operand.eval scope focus).toNumber scope.doc)
  | .call function arguments, focus => do
    function.apply scope.doc focus (← evalAll scope arguments focus)
  | .path steps, focus => do
    return .nodes (← follow scope steps [focus.node])
  | .rootPath steps, _ => do
    return .nodes (← follow scope steps [.tree Document.root])
  | .filter base predicates, focus => do
    let found ← (← base.eval scope focus).asNodes
    return .nodes (← keepAll scope predicates found)
  | .pathFrom base steps, focus => do
    let found ← (← base.eval scope focus).asNodes
    return .nodes (← follow scope steps found)
  | .union left right, focus => do
    let first ← (← left.eval scope focus).asNodes
    let second ← (← right.eval scope focus).asNodes
    return .nodes (scope.ranks.arrange (first ++ second))

/-- The values of expressions, from left to right. -/
def evalAll (scope : Scope) : List Expr → Focus → Except Fault (List Value)
  | [], _ => .ok []
  | expr :: rest, focus => do
    let value ← expr.eval scope focus
    return value :: (← evalAll scope rest focus)

/-- The nodes for which predicates hold, each among the nodes that the one before has left. -/
def keepAll (scope : Scope) : List Expr → List Node → Except Fault (List Node)
  | [], nodes => .ok nodes
  | predicate :: rest, nodes => do
    keepAll scope rest (← keep (predicate.eval scope) nodes)

/-- The nodes that a step leads to. -/
def Step.take (scope : Scope) : Step → List Node → Except Fault (List Node)
  | .to axis test predicates, nodes => do
    let found ← nodes.mapM fun node =>
      keepAll scope predicates (candidates scope.doc axis test node)
    return collect scope.ranks axis found

/-- The nodes that a path leads to. -/
def follow (scope : Scope) : List Step → List Node → Except Fault (List Node)
  | [], nodes => .ok nodes
  | step :: rest, nodes => do
    follow scope rest (← step.take scope nodes)

end

/-- The value of a query at a node. -/
def Query.evaluate (scope : Scope) (query : Query) (node : NodeId) : Except Fault Value :=
  query.expr.eval scope ⟨.tree node, 1, 1⟩

end Markup.XPath
