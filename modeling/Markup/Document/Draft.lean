import Markup.Document.Edit
import Markup.Xml.Draft

/-!
# Documents from drafts

The nodes that are written out in a text are created in the order of the text. A subtree that was
copied out of replacement text is copied in where it stands.
-/

namespace Markup.Document

mutual

/-- Create what a draft stands for as the last child of a node. -/
def addDraft (doc : Document) (parent : NodeId) : Xml.Draft → Document
  | .written kind children =>
    let (id, doc) := doc.create kind
    (doc.appendChild parent id).addDrafts id children
  | .copied tree =>
    let (id, doc) := doc.graft tree
    doc.appendChild parent id

/-- Create what drafts stand for as the last children of a node. -/
def addDrafts (doc : Document) (parent : NodeId) : List Xml.Draft → Document
  | [] => doc
  | draft :: rest => (doc.addDraft parent draft).addDrafts parent rest

end

/-- The document that a parse yielded. -/
def ofDraft (draft : Xml.DocumentDraft) : Document :=
  { empty with
    version := draft.version
    encoding := draft.encoding
    standalone := draft.standalone
    diagnostics := draft.diagnostics }.addDrafts root draft.nodes

end Markup.Document
