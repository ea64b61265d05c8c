import Markup.XPath.Fault

/-!
# What can be wrong with an operation on a node
-/

namespace Markup

/-- Why an operation does not apply to a node, or would break the tree. -/
inductive Misuse where
  | attributeOfOther
  | unwritableChar
  | commentText
  | noText
  | noTag
  | noChildren
  | noParent
  | ownSubtree
  deriving Repr, DecidableEq

/-- The text of a misuse. -/
def Misuse.message : Misuse → String
  | attributeOfOther => "attributes can only be set on elements"
  | unwritableChar => "text contains a character that XML cannot represent"
  | commentText => "comment text cannot contain '--' or end with '-'"
  | noText => "node has no text content"
  | noTag => "only elements have a tag"
  | noChildren => "only elements can have children"
  | noParent => "node has no parent element"
  | ownSubtree => "cannot move a node into its own subtree"

/-- Why an operation on a node was refused. -/
inductive Refusal where
  /-- The node is no longer part of its document. -/
  | gone
  | query (fault : XPath.Fault)
  /-- A prefix or a namespace is not declared where it is used. -/
  | unknownNamespace (name : String)
  | invalidName (name : String)
  | misuse (misuse : Misuse)
  deriving Repr, DecidableEq

namespace Refusal

/-- The refusal that a fault of a query leads to. -/
def ofFault : XPath.Fault → Refusal
  | .unknownNamespace nsPrefix => unknownNamespace nsPrefix
  | fault => query fault

/-- The text of a refusal. -/
def message : Refusal → String
  | gone => "node handle is no longer attached to its document"
  | query fault => fault.message
  | unknownNamespace name => s!"unknown namespace '{name}'"
  | invalidName name => s!"invalid name '{name}'"
  | misuse problem => s!"invalid operation: {problem.message}"

end Refusal
end Markup
