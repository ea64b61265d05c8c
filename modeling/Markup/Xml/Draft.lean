import Markup.Tree
import Markup.Problem

/-!
# Drafts of documents

What a parse yields before nodes are numbered. A draft tells nodes that are written out in the
document from subtrees that were copied out of replacement text, because the two are numbered
differently. Character data that follows character data extends the text node before it.
-/

namespace Markup.Xml

/-- A node with everything below it, as a parse yields it. -/
inductive Draft where
  /-- A node that is written out in the document. -/
  | written (kind : NodeKind) (children : List Draft)
  /-- A subtree that was copied out of replacement text. -/
  | copied (tree : Tree)
  deriving Inhabited

namespace Draft

mutual

/-- The tree that a draft stands for. -/
def toTree : Draft → Tree
  | written kind children => .node kind (toTrees children)
  | copied tree => tree

/-- The trees that drafts stand for. -/
def toTrees : List Draft → List Tree
  | [] => []
  | draft :: rest => toTree draft :: toTrees rest

end

/-- Add character data after earlier nodes, latest first. Nothing is added for empty data, nor for
blank data if blank text is to be dropped. -/
def addText (noBlanks : Bool) (content : String) (before : List Draft) : List Draft :=
  if content.isEmpty || (noBlanks && content.toList.all Text.isAsciiBlank) then before
  else
    match before with
    | written (.text earlier) _ :: rest => written (.text (earlier ++ content)) [] :: rest
    | _ => written (.text content) [] :: before

/-- Add the nodes that replacement text yielded after earlier nodes, latest first. -/
def addCopies (noBlanks : Bool) (before : List Draft) : List Draft → List Draft
  | [] => before
  | written (.text content) _ :: rest => addCopies noBlanks (addText noBlanks content before) rest
  | draft :: rest => addCopies noBlanks (copied draft.toTree :: before) rest

end Draft

/-- A whole document, as a parse yields it. -/
structure DocumentDraft where
  version : Option String
  encoding : Option String
  standalone : Option Bool
  /-- What was reported, in the order of the text. -/
  diagnostics : List Diagnostic
  /-- The top-level nodes. -/
  nodes : List Draft

end Markup.Xml
