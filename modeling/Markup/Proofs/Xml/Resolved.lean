import Markup.Proofs.Xml.Parsed
import Markup.Proofs.Xml.Reparse

/-!
# Namespaces that a parse finds

While a parser reads, it keeps a list of bindings, the newest first, and looks prefixes up in it.
Whether it recovers from problems or stops at them, each element and attribute it yields has the
namespace that its prefix is bound to inside its tag: a prefix that is bound to nothing leaves it
without one. Of several attributes with one name only the first is kept, so that no tag binds a
prefix twice.

The nodes are put together in one place only, whatever is to be shown of them: a property that a node
gets from those below it holds of all that a parse yields (`kept_of_parse`).
-/

namespace Markup

namespace Xml

variable {scope : Scope}

/-- An element whose namespaces are what prefixes are bound to inside its tag. -/
structure IsResolved (scope : Scope) (name : QName) (uri : Option String)
    (attributes : List Attribute) : Prop where
  uri_eq : uri = (scope.declare attributes).resolve name.nsPrefix
  listed : ∀ attr ∈ attributes, attr.uri = (scope.declare attributes).uriOf attr
  distinct : (attributes.map (·.name)).Nodup

end Xml

/-- Whether the namespaces of a node are what prefixes are bound to there. -/
def NodeKind.IsResolved (scope : Xml.Scope) : NodeKind → Prop
  | element name uri attributes => Xml.IsResolved scope name uri attributes
  | _ => True

namespace Xml

mutual

/-- Whether the namespaces in a tree are what prefixes are bound to where they stand. -/
def Resolved (scope : Scope) : Tree → Prop
  | .node kind children =>
    kind.IsResolved scope ∧ ResolvedAll (scope.declare kind.attributes) children

/-- Whether the namespaces in each of some trees are what prefixes are bound to there. -/
def ResolvedAll (scope : Scope) : List Tree → Prop
  | [] => True
  | tree :: rest => Resolved scope tree ∧ ResolvedAll scope rest

end

theorem resolvedAll_iff {trees : List Tree} :
    ResolvedAll scope trees ↔ ∀ tree ∈ trees, Resolved scope tree := by
  induction trees with
  | nil => simp [ResolvedAll]
  | cons tree rest ih => rw [ResolvedAll, ih, List.forall_mem_cons]

/-- Whether the namespaces in drafts are what prefixes are bound to where the drafts stand. -/
def ResolvedDrafts (scope : Scope) (drafts : List Draft) : Prop :=
  ∀ draft ∈ drafts, Resolved scope draft.toTree

theorem ResolvedDrafts.all {drafts : List Draft} (resolved : ResolvedDrafts scope drafts) :
    ResolvedAll scope (Draft.toTrees drafts) := by
  rw [toTrees_eq_map, resolvedAll_iff]
  exact List.forall_mem_map.mpr resolved

/-! ## Tags -/

/-- Attributes of a tag whose prefixes are not yet looked up. -/
structure Unresolved (attributes : List Attribute) : Prop where
  bare : ∀ attr ∈ attributes, attr.uri = none
  distinct : (attributes.map (·.name)).Nodup

namespace Reader

variable {r next : Reader} {options : ParseOptions} {cx : Context} {attr full : Attribute}
  {found kept attributes resolved : List Attribute} {uri : Option String}

theorem uri_of_attr (h : r.attr cx = .ok (attr, next)) : attr.uri = none := by
  obtain ⟨⟨written, first⟩, _, h⟩ := bind_eq_ok.mp h
  obtain ⟨second, _, h⟩ := bind_eq_ok.mp h
  obtain ⟨⟨value, last⟩, _, h⟩ := bind_eq_ok.mp h
  cases h
  rfl

/-- Attributes stay distinct, because one whose name is taken is left out. -/
theorem unresolved_of_keepAttribute (h : r.keepAttribute options found attr = .ok (kept, next))
    (before : Unresolved found) (bare : attr.uri = none) : Unresolved kept := by
  unfold keepAttribute at h
  split at h
  · obtain ⟨_, _, h⟩ := bind_eq_ok.mp h
    cases h
    exact before
  · rename_i free
    cases h
    refine ⟨List.forall_mem_cons.mpr ⟨bare, before.bare⟩, List.nodup_cons.mpr ⟨fun taken => ?_,
      before.distinct⟩⟩
    obtain ⟨other, listed, same⟩ := List.mem_map.mp taken
    exact free (List.any_eq_true.mpr ⟨other, listed, by simpa using same⟩)

theorem unresolved_of_attributes (h : Reader.attributes cx r found = .ok (attributes, next))
    (before : Unresolved found) : Unresolved attributes := by
  fun_induction Reader.attributes cx r found with
  | case1 => cases h; exact before
  | case2 => exact absurd h not_fail
  | case3 | case4 => cases h
  | case5 r found _ _ attr middle read kept last keeps ih =>
    exact ih h (unresolved_of_keepAttribute keeps before (uri_of_attr read))

theorem uri_of_boundUri {nsPrefix : String}
    (h : r.boundUri options scope nsPrefix = .ok (uri, next)) :
    uri = scope.resolve (some nsPrefix) := by
  unfold boundUri at h
  split at h
  · rename_i bound
    cases h
    exact bound.symm
  · rename_i unbound
    obtain ⟨_, _, h⟩ := bind_eq_ok.mp h
    cases h
    exact unbound.symm

theorem uri_of_elementUri {name : QName}
    (h : r.elementUri options scope name = .ok (uri, next)) :
    uri = scope.resolve name.nsPrefix := by
  unfold elementUri at h
  split at h
  · rename_i plain
    cases h
    rw [plain]
  · rename_i nsPrefix prefixed
    rw [prefixed]
    exact uri_of_boundUri h

theorem uri_of_resolveAttribute (bare : attr.uri = none)
    (h : r.resolveAttribute options scope attr = .ok (full, next)) :
    full.bare = attr ∧ full.uri = scope.uriOf full := by
  unfold resolveAttribute at h
  split at h
  · rename_i nsPrefix plain prefixed
    obtain ⟨⟨uri, last⟩, bound, h⟩ := bind_eq_ok.mp h
    cases h
    refine ⟨by rw [Attribute.bare, ← bare], ?_⟩
    show uri = scope.uriOf attr
    rw [Scope.uriOf, plain, prefixed, uri_of_boundUri bound]
  · rename_i other
    cases h
    refine ⟨by rw [Attribute.bare, ← bare], ?_⟩
    rw [bare, Scope.uriOf]
    split
    · rename_i plain prefixed
      exact absurd prefixed (other _ plain)
    · rfl

theorem uris_of_resolveAttributes (bare : ∀ attr ∈ attributes, attr.uri = none)
    (h : resolveAttributes options scope r attributes = .ok (resolved, next)) :
    resolved.map Attribute.bare = attributes ∧ ∀ attr ∈ resolved, attr.uri = scope.uriOf attr := by
  induction attributes generalizing r resolved with
  | nil => cases h; exact ⟨rfl, nofun⟩
  | cons attr attributes ih =>
    obtain ⟨⟨first, r₁⟩, one, h⟩ := bind_eq_ok.mp h
    obtain ⟨⟨others, r₂⟩, more, h⟩ := bind_eq_ok.mp h
    cases h
    obtain ⟨bareFirst, bareRest⟩ := List.forall_mem_cons.mp bare
    obtain ⟨same, uri_eq⟩ := uri_of_resolveAttribute bareFirst one
    obtain ⟨rest, listed⟩ := ih bareRest more
    exact ⟨by rw [List.map_cons, same, rest], List.forall_mem_cons.mpr ⟨uri_eq, listed⟩⟩

/-- The prefixes of a start tag are looked up among the bindings that the tag itself extends. -/
theorem resolved_of_startTag {depth : Nat} {tag : StartTag}
    (h : r.startTag cx depth scope = .ok (tag, next)) :
    IsResolved scope tag.name tag.uri tag.attributes ∧
      tag.scope = scope.declare tag.attributes := by
  unfold startTag at h
  split at h
  · exact absurd h not_fail
  · obtain ⟨r₁, _, h⟩ := bind_eq_ok.mp h
    obtain ⟨⟨written, r₂⟩, _, h⟩ := bind_eq_ok.mp h
    obtain ⟨⟨found, r₃⟩, listed, h⟩ := bind_eq_ok.mp h
    obtain ⟨⟨uri, r₄⟩, element, h⟩ := bind_eq_ok.mp h
    obtain ⟨⟨full, r₅⟩, resolved, h⟩ := bind_eq_ok.mp h
    obtain ⟨⟨closed, r₆⟩, _, h⟩ := bind_eq_ok.mp h
    cases h
    obtain ⟨bare, distinct⟩ := unresolved_of_attributes listed ⟨nofun, .nil⟩
    obtain ⟨same, within⟩ := uris_of_resolveAttributes (by simpa using bare) resolved
    have sameScope : scope.declare found.reverse = scope.declare full := by
      rw [← same, Scope.declare_bare]
    rw [sameScope] at within element
    refine ⟨⟨uri_of_elementUri element, within, ?_⟩, sameScope⟩
    have names : full.map (·.name) = (found.map (·.name)).reverse := by
      rw [← List.map_reverse, ← same, List.map_map]
      rfl
    rw [names]
    exact List.pairwise_reverse.mpr (distinct.imp Ne.symm)

end Reader

/-! ## What holds of all that is read -/

/-- What holds of every tree that a parse yields, with the bindings that it stands in, because it
holds of a node whenever it holds of what is below the node: only elements have anything below them,
and their namespaces are looked up inside their own tags. -/
structure KeptByParse (sort : Scope → Tree → Prop) : Prop where
  node : ∀ {scope : Scope} {kind : NodeKind} {children : List Tree}, kind.IsResolved scope →
    (kind.isElement = false → children = []) →
    (∀ child ∈ children, sort (scope.declare kind.attributes) child) →
    sort scope (.node kind children)

theorem KeptByParse.leaf {sort : Scope → Tree → Prop} (kept : KeptByParse sort) {kind : NodeKind}
    (resolved : kind.IsResolved scope) : sort scope (Draft.written kind []).toTree :=
  kept.node resolved (fun _ => rfl) (List.forall_mem_nil _)

/-- Whether what is kept holds of drafts where they stand. -/
def KeptDrafts (sort : Scope → Tree → Prop) (scope : Scope) (drafts : List Draft) : Prop :=
  ∀ draft ∈ drafts, sort scope draft.toTree

namespace KeptDrafts

variable {sort : Scope → Tree → Prop} {drafts copies : List Draft} {draft : Draft}

theorem nil : KeptDrafts sort scope [] := List.forall_mem_nil _

theorem cons (first : sort scope draft.toTree) (rest : KeptDrafts sort scope drafts) :
    KeptDrafts sort scope (draft :: drafts) :=
  List.forall_mem_cons.mpr ⟨first, rest⟩

theorem tail (held : KeptDrafts sort scope (draft :: drafts)) : KeptDrafts sort scope drafts :=
  fun other listed => held other (List.mem_cons_of_mem _ listed)

theorem reverse (held : KeptDrafts sort scope drafts) : KeptDrafts sort scope drafts.reverse :=
  fun draft listed => held draft (List.mem_reverse.mp listed)

theorem trees (held : KeptDrafts sort scope drafts) :
    ∀ tree ∈ Draft.toTrees drafts, sort scope tree := by
  rw [toTrees_eq_map]
  exact List.forall_mem_map.mpr held

theorem addText (held : KeptDrafts sort scope drafts) (kept : KeptByParse sort) (noBlanks : Bool)
    (content : String) : KeptDrafts sort scope (Draft.addText noBlanks content drafts) := by
  unfold Draft.addText
  split
  · exact held
  · split
    · exact .cons (kept.leaf trivial) held.tail
    · exact .cons (kept.leaf trivial) held

theorem flush (held : KeptDrafts sort scope drafts) (kept : KeptByParse sort)
    (options : ParseOptions) (pending : Pending) :
    KeptDrafts sort scope (pending.flush options drafts) :=
  held.addText kept _ _

/-- What replacement text yielded was read with the bindings that hold where it is copied in. -/
theorem addCopies (held : KeptDrafts sort scope drafts) (kept : KeptByParse sort)
    (yielded : KeptDrafts sort scope copies) (noBlanks : Bool) :
    KeptDrafts sort scope (Draft.addCopies noBlanks drafts copies) := by
  fun_induction Draft.addCopies noBlanks drafts copies with
  | case1 => exact held
  | case2 drafts content children rest ih => exact ih (held.addText kept _ _) yielded.tail
  | case3 drafts draft rest _ ih =>
    exact ih (.cons (yielded draft List.mem_cons_self) held) yielded.tail

end KeptDrafts

/-- What is kept holds of an element if it holds of what was read inside its tag. -/
theorem KeptByParse.element {sort : Scope → Tree → Prop} (kept : KeptByParse sort) {tag : StartTag}
    {children : List Draft} (resolved : IsResolved scope tag.name tag.uri tag.attributes)
    (scope_eq : tag.scope = scope.declare tag.attributes)
    (inside : KeptDrafts sort tag.scope children) :
    sort scope (Draft.written tag.kind children).toTree := by
  refine kept.node resolved (fun other => Bool.noConfusion other) ?_
  rw [StartTag.kind, NodeKind.attributes, ← scope_eq]
  exact inside.trees

/-! ## Content -/

/-- A piece of markup whose namespaces are what prefixes are bound to where it stands. -/
def Item.IsResolved (scope : Scope) : Item → Prop
  | .leaf kind => kind.IsResolved scope
  | .start tag => Xml.IsResolved scope tag.name tag.uri tag.attributes ∧
      tag.scope = scope.declare tag.attributes

/-- Opened elements, each with the namespaces that its prefixes are bound to inside those further
out, and before it only nodes of which what is kept holds. -/
inductive KeptPath (sort : Scope → Tree → Prop) (base : Level) : List OpenElement → Prop where
  | nil : KeptPath sort base []
  | cons {tag : StartTag} {before : List Draft} {path : List OpenElement}
      (outer : KeptPath sort base path)
      (resolved : IsResolved (base.inside path).scope tag.name tag.uri tag.attributes)
      (scope_eq : tag.scope = (base.inside path).scope.declare tag.attributes)
      (earlier : KeptDrafts sort (base.inside path).scope before) :
      KeptPath sort base (⟨tag, before⟩ :: path)

theorem KeptPath.close {sort : Scope → Tree → Prop} (kept : KeptByParse sort) {base : Level}
    {element : OpenElement} {path : List OpenElement} {children : List Draft}
    (opened : KeptPath sort base (element :: path))
    (inside : KeptDrafts sort (base.inside (element :: path)).scope children) :
    KeptDrafts sort (base.inside path).scope (element.close children) ∧
      KeptPath sort base path := by
  obtain _ | ⟨outer, resolved, scope_eq, earlier⟩ := opened
  exact ⟨earlier.cons (kept.element resolved scope_eq inside.reverse), outer⟩

namespace Reader

variable {r next : Reader} {options : ParseOptions} {cx : Context} {base level : Level}
  {here children before after : List Draft}

theorem resolved_of_item {found : Item} (h : r.item cx level = .ok (found, next)) :
    found.IsResolved level.scope := by
  unfold item at h
  split at h
  · obtain ⟨_, _, h⟩ := bind_eq_ok.mp h
    cases h
    exact trivial
  · split at h
    · obtain ⟨_, _, h⟩ := bind_eq_ok.mp h
      cases h
      exact trivial
    · split at h
      · obtain ⟨⟨⟨_, _⟩, _⟩, _, h⟩ := bind_eq_ok.mp h
        cases h
        exact trivial
      · obtain ⟨⟨tag, last⟩, read, h⟩ := bind_eq_ok.mp h
        have resolved := resolved_of_startTag read
        cases h
        cases tag.closed with
        | true => exact resolved.1
        | false => exact resolved

variable {sort : Scope → Tree → Prop} (kept : KeptByParse sort)
include kept

/-- Replacement text is read with the bindings that hold at the reference, so that its nodes can be
copied in as they are. -/
theorem kept_of_content {path : List OpenElement} {pending : Pending}
    (h : content cx base r here path pending = .ok (children, next))
    (opened : KeptPath sort base path) (held : KeptDrafts sort (base.inside path).scope here) :
    KeptDrafts sort base.scope children := by
  fun_induction content cx base r here path pending generalizing children next with
  | case1 | case4 =>
    cases h
    exact (held.flush kept _ _).reverse
  | case3 | case6 =>
    -- The innermost element is closed, by the end of the text or by an end tag.
    rename_i ih
    obtain ⟨closed, outer⟩ := opened.close kept (held.flush kept _ _)
    exact ih h outer closed
  | case8 =>
    rename_i read ih
    exact ih h opened (.cons (kept.leaf (resolved_of_item read)) (held.flush kept _ _))
  | case9 =>
    -- A start tag opens an element inside the innermost one.
    rename_i read ih
    obtain ⟨isResolved, scope_eq⟩ := resolved_of_item read
    exact ih h (.cons opened isResolved scope_eq (held.flush kept _ _)) .nil
  | case12 | case14 | case20 | case23 =>
    rename_i ih
    exact ih h opened held
  | case16 =>
    rename_i read _ _ within ih
    exact ih h opened ((held.flush kept _ _).addCopies kept (within read .nil .nil) _)
  | case17 => exact absurd h not_fail
  | _ => cases h

/-! ## Whole documents -/

theorem kept_of_rootElement {root : Draft} (h : r.rootElement cx = .ok (root, next)) :
    sort .initial root.toTree := by
  obtain ⟨⟨tag, first⟩, start, h⟩ := bind_eq_ok.mp h
  obtain ⟨resolved, scope_eq⟩ := resolved_of_startTag start
  dsimp only at h
  split at h
  · cases h
    exact kept.leaf resolved
  · obtain ⟨⟨children, second⟩, inside, h⟩ := bind_eq_ok.mp h
    have within := kept_of_content kept inside .nil .nil
    have root_eq : root = .written tag.kind children := by
      dsimp only at h
      split at h
      · obtain ⟨_, _, h⟩ := bind_eq_ok.mp h
        cases h
        rfl
      · obtain ⟨_, _, h⟩ := bind_eq_ok.mp h
        cases h
        rfl
    subst root_eq
    exact kept.element resolved scope_eq within

theorem kept_of_misc (h : misc options r before = .ok (after, next))
    (held : KeptDrafts sort scope before) : KeptDrafts sort scope after := by
  fun_induction misc options r before with
  | case1 | case3 => cases h
  | case2 | case4 =>
    rename_i ih
    exact ih h (.cons (kept.leaf trivial) held)
  | case5 => cases h; exact held

theorem kept_of_typeDeclaration {table : EntityTable}
    (h : r.typeDeclaration options before = .ok ((after, table), next))
    (held : KeptDrafts sort scope before) : KeptDrafts sort scope after := by
  unfold typeDeclaration at h
  split at h
  · obtain ⟨⟨⟨doctype, declared⟩, first⟩, _, h⟩ := bind_eq_ok.mp h
    obtain ⟨⟨nodes, second⟩, others, h⟩ := bind_eq_ok.mp h
    cases h
    exact kept_of_misc kept others (.cons (kept.leaf trivial) held)
  · cases h
    exact held

end Reader

open Reader

/-- At the top level of a document only the prefix `xml` is bound. -/
theorem kept_of_parse {sort : Scope → Tree → Prop} (kept : KeptByParse sort)
    {options : ParseOptions} {text : String} {draft : DocumentDraft}
    (h : parse options text = .ok draft) : KeptDrafts sort .initial draft.nodes := by
  obtain ⟨_, r₁, early, r₂, middle, table, r₃, root, r₄, late, r₅, _, -, misc₁, type, -, -, element,
    misc₂, -, rfl⟩ := parse_eq_ok_iff.mp h
  have before : KeptDrafts sort .initial middle :=
    kept_of_typeDeclaration kept type (kept_of_misc kept misc₁ .nil)
  exact (kept_of_misc kept misc₂ (.cons (kept_of_rootElement kept element) before)).reverse

/-- The namespaces in what a parse yields are what prefixes are bound to where they stand. -/
theorem resolved_of_parse {options : ParseOptions} {text : String} {draft : DocumentDraft}
    (h : parse options text = .ok draft) : ResolvedDrafts .initial draft.nodes := by
  refine kept_of_parse ⟨fun own _ below => ?_⟩ h
  exact ⟨own, resolvedAll_iff.mpr below⟩

end Xml
end Markup
