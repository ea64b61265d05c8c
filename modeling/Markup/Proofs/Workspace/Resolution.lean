import Markup.Proofs.Workspace.Sound
import Markup.Proofs.Xml.Recovery
import Markup.Proofs.Xml.Resolved
import Markup.Proofs.Xml.RoundTrip

/-!
# The parser and the tree agree on namespaces

The parser looks a prefix up among the bindings it keeps while it reads, the newest first. In the
tree a prefix is looked up among the attributes of the ancestors, the first declaration of the
nearest first. In every document that was parsed both find the same, so that elements and attributes
have the namespaces that their prefixes stand for, whatever the parser recovered from and wherever
their text came from.
-/

namespace Markup

namespace Xml.Scope

variable {scope : Scope} {declared : List (Option String × String)} {nsPrefix : Option String}
  {attributes : List Attribute}

/-- Whether bindings that a parser keeps and declarations that are found going up bind all prefixes
but `xml` alike. -/
def Agrees (scope : Scope) (declared : List (Option String × String)) : Prop :=
  ∀ nsPrefix, nsPrefix ≠ some "xml" → scope.lookup nsPrefix = declared.lookup nsPrefix

theorem agrees_initial : Agrees initial [] := by
  intro nsPrefix other
  rw [initial, List.lookup_cons, show (nsPrefix == some "xml") = false by simpa using other]

/-- The attributes of a tag are added one after the other to the bindings, and as they stand to the
declarations. As no prefix is bound twice, it does not matter which comes first. -/
theorem Agrees.declare (agrees : scope.Agrees declared)
    (distinct : (attributes.map (·.name)).Nodup) :
    (scope.declare attributes).Agrees (Attribute.bindings attributes ++ declared) := by
  intro nsPrefix other
  rw [declare_eq, List.lookup_append, List.lookup_append, agrees nsPrefix other,
    lookup_reverse (Attribute.nodup_bindings distinct)]

theorem Agrees.resolve_eq {doc : Document} {id : NodeId}
    (agrees : scope.Agrees (doc.declarations id))
    (other : nsPrefix ≠ some "xml") : scope.resolve nsPrefix = doc.namespaceOf? id nsPrefix := by
  rw [resolve, Document.namespaceOf?_eq other, agrees nsPrefix other]

end Xml.Scope

theorem NodeKind.IsResolved.distinct {scope : Xml.Scope} {kind : NodeKind}
    (resolved : kind.IsResolved scope) : (kind.attributes.map (·.name)).Nodup := by
  cases kind with
  | element name uri attributes => exact Xml.IsResolved.distinct resolved
  | _ => exact List.nodup_nil

namespace Document

open Xml

variable {doc : Document} {id parent : NodeId} {name : QName} {uri : Option String}
  {attributes : List Attribute}

/-- Whether a node and those below it have the namespaces that were found with bindings like those
that its ancestors declare. -/
def IsResolvedAt (doc : Document) (id : NodeId) : Prop :=
  ∃ scope, Resolved scope (doc.tree id) ∧
    (scope.declare (doc.attributes id)).Agrees (doc.declarations id)

/-- A parser enters a child with the bindings that hold inside its parent. -/
theorem IsResolvedAt.child (linked : doc.WellLinked) (live : doc.IsLive id)
    (above : doc.parent id = some parent) (resolved : doc.IsResolvedAt parent) :
    doc.IsResolvedAt id := by
  obtain ⟨scope, within, agrees⟩ := resolved
  obtain ⟨liveP, listed⟩ := linked.listed live above
  rw [linked.tree_eq liveP] at within
  have here := resolvedAll_iff.mp within.2 _ (List.mem_map_of_mem listed)
  refine ⟨_, here, ?_⟩
  rw [declarations_child linked live above]
  rw [linked.tree_eq live] at here
  exact agrees.declare here.1.distinct

theorem isResolvedAt_root (linked : doc.WellLinked) (plain : (doc.kind root).isElement = false)
    (resolved : Resolved .initial (doc.tree root)) : doc.IsResolvedAt root := by
  refine ⟨.initial, resolved, ?_⟩
  have bare : doc.attributes root = [] := by
    rw [attributes]
    cases kind : doc.kind root with
    | element => simp [kind, NodeKind.isElement] at plain
    | _ => rfl
  rw [bare, declarations_root linked plain]
  exact Scope.agrees_initial

theorem isResolvedAt_of_ofXml {options : ParseOptions} {text : String}
    (parsed : ofXml options text = .ok doc) : doc.isAttached id = true → doc.IsResolvedAt id := by
  have linked := wellLinked_ofXml parsed
  obtain ⟨draft, read, rfl⟩ := map_eq_ok.mp parsed
  have shown := tree_ofDraft draft
  have plain : ((ofDraft draft).kind root).isElement = false := by
    rw [← kind_tree, shown]
    rfl
  have resolved : Resolved .initial ((ofDraft draft).tree root) := by
    rw [shown]
    exact ⟨trivial, (resolved_of_parse read).all⟩
  intro attached
  refine linked.ascent (motive := fun id => (ofDraft draft).isAttached id = true →
    (ofDraft draft).IsResolvedAt id) ?_ ?_ id (linked.live_of_isAttached attached) attached
  · intro id live highest attached
    have hangs := (linked.isAttached_iff.mp attached).2
    rw [HasShape.ancestors_of_top linked live highest] at hangs
    obtain rfl := List.mem_singleton.mp hangs
    exact isResolvedAt_root linked plain resolved
  · intro id parent live liveP above ih attached
    have attachedP : (ofDraft draft).isAttached parent = true := by
      apply linked.isAttached_above attached
      rw [HasShape.ancestors_of_parent linked live above]
      exact List.mem_cons_of_mem _ (HasShape.mem_ancestors_self linked liveP)
    exact (ih attachedP).child linked live above

/-- The parser and the tree agree on namespaces: in a document that was parsed, each element has the
namespace that its prefix stands for there, and so has each attribute with a prefix that declares
nothing. Attributes without a prefix have none. -/
theorem namespaces_of_ofXml {options : ParseOptions} {text : String}
    (parsed : ofXml options text = .ok doc) (attached : doc.isAttached id = true)
    (kind : doc.kind id = .element name uri attributes) :
    (name.nsPrefix ≠ some "xml" → uri = doc.namespaceOf? id name.nsPrefix) ∧
    ∀ attr ∈ attributes,
      (∀ nsPrefix, attr.name.nsPrefix = some nsPrefix → nsPrefix ≠ "xml" →
        attr.isDeclaration = false → attr.uri = doc.namespaceOf? id (some nsPrefix)) ∧
      (attr.name.nsPrefix = none → attr.uri = none) := by
  have linked := wellLinked_ofXml parsed
  obtain ⟨scope, resolved, agrees⟩ := isResolvedAt_of_ofXml parsed attached
  rw [linked.tree_eq (linked.live_of_isAttached attached), kind] at resolved
  rw [Document.attributes, kind, NodeKind.attributes] at agrees
  obtain ⟨uri_eq, listed, -⟩ := resolved.1
  refine ⟨fun other => ?_, fun attr member => ⟨fun nsPrefix prefixed other plain => ?_, ?_⟩⟩
  · rw [uri_eq, agrees.resolve_eq other]
  · rw [listed attr member, Scope.uriOf, plain, prefixed]
    exact agrees.resolve_eq (by simpa using other)
  · intro bare
    rw [listed attr member, Scope.uriOf, bare]
    cases attr.isDeclaration <;> rfl

section

open Xml.Reader

/-- An element that binds its prefix, with an attribute whose prefix is bound to nothing. -/
def recovered : Document :=
  ofDraft ⟨none, none, none,
    [⟨.error, .duplicateAttribute "xmlns:p", ⟨1, 29, 28⟩⟩,
      ⟨.error, .undeclaredPrefix "q", ⟨1, 36, 35⟩⟩],
    [.written (.element ⟨some "p", "r"⟩ (some "u")
      [⟨⟨some "xmlns", "p"⟩, none, "u"⟩, ⟨⟨some "q", "a"⟩, none, ""⟩]) []]⟩

-- The loop over attributes does not unfold inside other readers, so its rounds are taken one by one.
theorem ofXml_recovered :
    ofXml { recover := true } "<p:r xmlns:p='u' xmlns:p='v' q:a=''/>" = .ok recovered := by
  let cx : Context := ⟨{ recover := true }, .empty, []⟩
  let first : Attribute := ⟨⟨some "xmlns", "p"⟩, none, "u"⟩
  let last : Attribute := ⟨⟨some "q", "a"⟩, none, ""⟩
  let twice : Log := ⟨[⟨.error, .duplicateAttribute "xmlns:p", ⟨1, 29, 28⟩⟩], 0⟩
  let both : Log := ⟨⟨.error, .undeclaredPrefix "q", ⟨1, 36, 35⟩⟩ :: twice.reports, 0⟩
  let start := (Reader.ofText "<p:r xmlns:p='u' xmlns:p='v' q:a=''/>").skipBlanks.skipBlanks
  let named : Reader := ⟨" xmlns:p='u' xmlns:p='v' q:a=''/>".toList, ⟨1, 5, 4⟩, none, ⟨[], 0⟩⟩
  let one : Reader := ⟨" xmlns:p='v' q:a=''/>".toList, ⟨1, 17, 16⟩, none, ⟨[], 0⟩⟩
  let two : Reader := ⟨" q:a=''/>".toList, ⟨1, 29, 28⟩, none, ⟨[], 0⟩⟩
  let three : Reader := ⟨"/>".toList, ⟨1, 36, 35⟩, none, twice⟩
  have name : (start.skip 1).name cx.options = .ok ("p:r", named) := by cbv
  have attr₁ : named.skipBlanks.attr cx = .ok (first, one) := by cbv
  have attr₂ : one.skipBlanks.attr cx = .ok ({ first with value := "v" }, two) := by cbv
  have attr₃ : ({ two with log := twice } : Reader).skipBlanks.attr cx = .ok (last, three) := by cbv
  have attrs : Reader.attributes cx named [] = .ok ([last, first], three) := by
    rw [attributes_cons (by rfl) (by rfl) attr₁ List.not_mem_nil, attributes_eq]
    refine bind_eq_ok.mpr ⟨_, attr₂, bind_eq_ok.mpr ⟨([first], { two with log := twice }), rfl, ?_⟩⟩
    rw [attributes_cons (by rfl) (by rfl) attr₃ (by decide)]
    cbv
  have tag : start.startTag cx 1 .initial = .ok (⟨⟨some "p", "r"⟩, some "u", [first, last],
      Scope.initial.declare [first, last], true⟩, ⟨[], ⟨1, 38, 37⟩, none, both⟩) := by
    rw [startTag, if_neg (by decide)]
    exact bind_eq_ok.mpr ⟨_, expect_eq_ok (by rfl), bind_eq_ok.mpr
      ⟨_, name, bind_eq_ok.mpr ⟨_, attrs, rfl⟩⟩⟩
  have letter : isNameStart 'p' = true := by decide
  exact map_eq_ok.mpr ⟨_, parse_eq_ok letter (by rfl) (bind_eq_ok.mpr ⟨_, tag, rfl⟩) rfl, rfl⟩

end

/-- A recovering parser drops the second declaration of a prefix, and the tree holds the first. A
prefix that is bound to nothing stands for no namespace in both. -/
theorem namespaces_of_ofXml_recovered :
    ofXml { recover := true } "<p:r xmlns:p='u' xmlns:p='v' q:a=''/>" = .ok recovered ∧
    recovered.isAttached ⟨2, 0⟩ = true ∧
    recovered.kind ⟨2, 0⟩ = .element ⟨some "p", "r"⟩ (some "u")
      [⟨⟨some "xmlns", "p"⟩, none, "u"⟩, ⟨⟨some "q", "a"⟩, none, ""⟩] ∧
    recovered.namespaceOf? ⟨2, 0⟩ (some "p") = some "u" ∧
    recovered.namespaceOf? ⟨2, 0⟩ (some "q") = none := by
  have attached : recovered.isAttached ⟨2, 0⟩ = true := by decide
  obtain ⟨element, each⟩ := namespaces_of_ofXml ofXml_recovered attached rfl
  refine ⟨ofXml_recovered, attached, rfl, (element (by decide)).symm, ?_⟩
  exact ((each ⟨⟨some "q", "a"⟩, none, ""⟩ (by simp)).1 "q" rfl (by decide) rfl).symm

end Document
end Markup
