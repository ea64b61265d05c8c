import Markup.Document.Scope
import Markup.Xml.Writer

/-!
# Writing documents and parts of them

A part of a document is written so that it can be read on its own: the topmost elements repeat the
declarations that they rely on and that stand above them.
-/

namespace Markup.Document

/-- The declaration at the start of a document. The text is always written as UTF-8. -/
def writeDeclaration (doc : Document) : String :=
  let encoding := if doc.encoding.isSome then " encoding=\"UTF-8\"" else ""
  let standalone := match doc.standalone with
    | some true => " standalone=\"yes\""
    | some false => " standalone=\"no\""
    | none => ""
  let version := doc.version.getD "1.0"
  s!"<?xml version=\"{version}\"{encoding}{standalone}?>\n"

/-- The top-level nodes as they are written. Without indentation, each but the last and every
document type declaration ends its line. -/
def writeTop (options : Xml.WriteOptions) : List Tree → String
  | [] => ""
  | tree :: rest =>
    let ends := match tree.kind with
      | .doctype .. => true
      | _ => !rest.isEmpty
    Xml.write options 0 options.indent [] tree ++
      (if !options.indent && ends then "\n" else "") ++ writeTop options rest

/-- A document as it is written. It ends with a line feed. -/
def write (doc : Document) (options : Xml.WriteOptions) : String :=
  let text := (if options.declaration then doc.writeDeclaration else "") ++
    writeTop options (doc.tree root).children
  if text.endsWith '\n' then text else text ++ "\n"

/-- The prefixes, `none` for the default namespace, that a node relies on declarations for. -/
def usedPrefixes : NodeKind → List (Option String)
  | .element name uri attributes =>
    (if name.nsPrefix.isSome || uri.isSome then [name.nsPrefix] else []) ++
      (attributes.filter fun attr => !attr.isDeclaration && attr.name.nsPrefix.isSome).map
        (·.name.nsPrefix)
  | _ => []

/-- The bindings that the tree of an element relies on and that are declared above it. -/
def inheritedBindings (doc : Document) (id : NodeId) : List (Option String × String) :=
  match (doc.parent id).filter fun parent => (doc.kind parent).isElement with
  | none => []
  | some parent =>
    if !(doc.kind id).isElement then []
    else
      let used := ((doc.tree id).outline 0).flatMap fun entry => usedPrefixes entry.2
      let declared := (doc.attributes id).filterMap Attribute.declared?
      (doc.namespaces parent).filter fun (nsPrefix, uri) =>
        used.contains nsPrefix && !declared.contains nsPrefix && uri != xmlNamespace

/-- A node as it is written on its own. -/
def writeNode (doc : Document) (options : Xml.WriteOptions) (id : NodeId) : String :=
  Xml.write options 0 false (doc.inheritedBindings id) (doc.tree id)

/-- The children of a node as they are written on their own. -/
def writeChildren (doc : Document) (options : Xml.WriteOptions) (id : NodeId) : String :=
  let pretty := options.indent && Xml.isElementOnly (doc.tree id).children
  String.join <| (doc.children id).map fun child =>
    if pretty && Xml.isBlankText (doc.kind child) then ""
    else Xml.write options 0 pretty (doc.inheritedBindings child) (doc.tree child)

end Markup.Document
