import Markup.Document.Basic

/-!
# Namespaces in scope

The namespace that a prefix stands for at a node is given by the nearest declaration on the way up
to the document node. A declaration of the empty namespace takes a binding back. The prefix `xml`
is bound everywhere and never declared.
-/

namespace Markup.Document

/-- The declarations made by a node and by what stands above it, nearest first: a prefix, or `none`
for the default namespace, and the namespace. -/
def declarations (doc : Document) (id : NodeId) : List (Option String × String) :=
  (doc.ancestors id).flatMap fun ancestor =>
    (doc.attributes ancestor).filterMap fun attr =>
      attr.declared?.map fun nsPrefix => (nsPrefix, attr.value)

/-- The namespace that a prefix, or the default namespace, stands for at a node. -/
def namespaceOf? (doc : Document) (id : NodeId) (nsPrefix : Option String) : Option String :=
  if nsPrefix == some "xml" then some xmlNamespace
  else ((doc.declarations id).lookup nsPrefix).filter fun uri => !uri.isEmpty

/-- A prefix, or `none` for the default namespace, that stands for a namespace at a node. -/
def prefixOf? (doc : Document) (id : NodeId) (uri : String) : Option (Option String) :=
  if uri == xmlNamespace then some (some "xml")
  else
    ((doc.declarations id).find? fun (nsPrefix, bound) =>
      bound == uri && doc.namespaceOf? id nsPrefix == some uri).map (·.1)

/-- Keep the first of the pairs that share a key. -/
def firstOfEach (pairs : List (Option String × String)) : List (Option String × String) :=
  pairs.foldl (fun kept pair => if kept.any (·.1 == pair.1) then kept else kept ++ [pair]) []

/-- The bindings in force at a node, nearest first. -/
def namespaces (doc : Document) (id : NodeId) : List (Option String × String) :=
  (firstOfEach (doc.declarations id)).filter fun (_, uri) => !uri.isEmpty

end Markup.Document
