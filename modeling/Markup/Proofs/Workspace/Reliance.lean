import Markup.Proofs.Workspace.Settle
import Markup.Proofs.Xml.Resolved

/-!
# What trees rely on

A tree leaves it to its surroundings what a prefix stands for if it has the prefix and declares it
nowhere above. It has the same namespaces, and can be read, in all scopes that bind these prefixes
alike. The declarations that are repeated on a tree bind them as those above it do, with one
exception: no prefix but `xml` is bound to the namespace of `xml`.
-/

namespace Markup

open Attribute

variable {kind : NodeKind} {tree : Tree} {children trees : List Tree} {nsPrefix : Option String}

/-! ## What a tree relies on -/

/-- Whether an element has a prefix, or none, or has an attribute with that prefix which declares
nothing. -/
def NodeKind.Names (nsPrefix : Option String) : NodeKind → Prop
  | element name _ attributes => name.nsPrefix = nsPrefix ∨ nsPrefix.isSome = true ∧
      ∃ attr ∈ attributes, attr.isDeclaration = false ∧ attr.name.nsPrefix = nsPrefix
  | _ => False

namespace Tree

mutual

/-- Whether it is left to what is declared above a tree what a prefix, or the default namespace,
stands for in it. -/
def ReliesOn (nsPrefix : Option String) : Tree → Prop
  | node kind children => (bindings kind.attributes).lookup nsPrefix = none ∧
      (kind.Names nsPrefix ∨ AnyReliesOn nsPrefix children)

/-- Whether this is left to what is declared above for any of some trees. -/
def AnyReliesOn (nsPrefix : Option String) : List Tree → Prop
  | [] => False
  | tree :: rest => ReliesOn nsPrefix tree ∨ AnyReliesOn nsPrefix rest

end

theorem anyReliesOn_iff :
    AnyReliesOn nsPrefix trees ↔ ∃ tree ∈ trees, tree.ReliesOn nsPrefix := by
  induction trees with
  | nil => simp [AnyReliesOn]
  | cons tree rest ih => simp [AnyReliesOn, ih]

end Tree

namespace Xml

variable {options : ParseOptions} {depth depth' : Nat} {scope scope' : Scope}

/-! ## Trees in other scopes -/

theorem Scope.lookup_declare_of_none {attributes : List Attribute}
    (free : (bindings attributes).lookup nsPrefix = none) :
    (scope.declare attributes).lookup nsPrefix = scope.lookup nsPrefix := by
  have searched : (bindings attributes).reverse.lookup nsPrefix = none := by
    simpa only [List.lookup_eq_none_iff, List.mem_reverse] using free
  rw [declare_eq, List.lookup_append, searched, Option.none_or]

theorem Scope.resolve_declare_of_none {attributes : List Attribute}
    (free : (bindings attributes).lookup nsPrefix = none) :
    (scope.declare attributes).resolve nsPrefix = scope.resolve nsPrefix := by
  rw [resolve, resolve, lookup_declare_of_none free]

/-- Inside a tag, other scopes differ only in prefixes that it does not declare. -/
theorem Scope.resolve_declare_iff {attributes : List Attribute} :
    (scope'.declare attributes).resolve nsPrefix = (scope.declare attributes).resolve nsPrefix ↔
      ((bindings attributes).lookup nsPrefix = none →
        scope'.resolve nsPrefix = scope.resolve nsPrefix) := by
  by_cases free : (bindings attributes).lookup nsPrefix = none
  · rw [resolve_declare_of_none free, resolve_declare_of_none free]
    exact ⟨fun same _ => same, fun same => same free⟩
  · have searched : (bindings attributes).reverse.lookup nsPrefix ≠ none := by
      simpa only [List.lookup_eq_none_iff, List.mem_reverse, ne_eq] using free
    obtain ⟨uri, found⟩ := Option.ne_none_iff_exists'.mp searched
    simp only [resolve, declare_eq, List.lookup_append, found, Option.some_or]
    exact ⟨fun _ none => absurd none free, fun _ => trivial⟩

theorem IsResolved.iff {name : QName} {uri : Option String} {attributes : List Attribute}
    (resolved : IsResolved scope name uri attributes) :
    IsResolved scope' name uri attributes ↔
      ∀ nsPrefix, (NodeKind.element name uri attributes).Names nsPrefix →
        (scope'.declare attributes).resolve nsPrefix =
          (scope.declare attributes).resolve nsPrefix := by
  constructor
  · rintro other nsPrefix (rfl | ⟨prefixed, attr, member, proper, rfl⟩)
    · exact other.uri_eq.symm.trans resolved.uri_eq
    · have same := (other.listed attr member).symm.trans (resolved.listed attr member)
      obtain ⟨nsPrefix, found⟩ := Option.isSome_iff_exists.mp prefixed
      rw [Scope.uriOf, Scope.uriOf, proper, found] at same
      rw [found]
      exact same
  · intro agree
    refine ⟨resolved.uri_eq.trans (agree _ (.inl rfl)).symm, fun attr member => ?_,
      resolved.distinct⟩
    rw [resolved.listed attr member, Scope.uriOf, Scope.uriOf]
    split
    · rename_i nsPrefix proper prefixed
      exact (agree _ (.inr ⟨rfl, attr, member, proper, prefixed⟩)).symm
    · rfl

/-- A tree is resolved in another scope as well exactly if the prefixes that it relies on are bound
alike there. -/
theorem Resolved.iff (resolved : Resolved scope tree) : Resolved scope' tree ↔
    ∀ nsPrefix, tree.ReliesOn nsPrefix → scope'.resolve nsPrefix = scope.resolve nsPrefix := by
  induction tree using Tree.induction generalizing scope scope' with
  | node kind children ih =>
    obtain ⟨here, inside⟩ := resolved
    have inside := resolvedAll_iff.mp inside
    have own : kind.IsResolved scope' ↔ ∀ nsPrefix, kind.Names nsPrefix →
        (scope'.declare kind.attributes).resolve nsPrefix =
          (scope.declare kind.attributes).resolve nsPrefix := by
      cases kind with
      | element name uri attributes => exact IsResolved.iff here
      | _ => exact ⟨fun _ _ => False.elim, fun _ => trivial⟩
    have below : ResolvedAll (scope'.declare kind.attributes) children ↔
        ∀ nsPrefix, Tree.AnyReliesOn nsPrefix children →
          (scope'.declare kind.attributes).resolve nsPrefix =
            (scope.declare kind.attributes).resolve nsPrefix := by
      simp only [resolvedAll_iff, Tree.anyReliesOn_iff, forall_exists_index, and_imp]
      exact ⟨fun all nsPrefix child member => (ih child member (inside child member)).mp
          (all child member) nsPrefix,
        fun all child member => (ih child member (inside child member)).mpr
          fun nsPrefix => all nsPrefix child member⟩
    rw [Resolved, own, below]
    simp only [Scope.resolve_declare_iff, Tree.ReliesOn, and_imp, or_imp]
    grind

/-- What a tree relies on that is bound there is used in it. -/
theorem Resolved.mem_used (resolved : Resolved scope tree) (relies : tree.ReliesOn nsPrefix)
    (bound : (scope.resolve nsPrefix).isSome = true) : nsPrefix ∈ tree.used := by
  induction tree using Tree.induction generalizing scope with
  | node kind children ih =>
    obtain ⟨here, inside⟩ := resolved
    obtain ⟨free, names | below⟩ := relies
    all_goals
      rw [← Scope.resolve_declare_of_none free] at bound
      rw [Tree.mem_used_node]
    · left
      cases kind with
      | element name uri attributes =>
        rcases names with rfl | ⟨prefixed, attr, member, proper, rfl⟩
        · rw [NodeKind.attributes, ← IsResolved.uri_eq here] at bound
          simp [Document.usedPrefixes, bound]
        · refine List.mem_append_right _ (List.mem_map.mpr ⟨attr, ?_, rfl⟩)
          exact List.mem_filter.mpr ⟨member, by simp [proper, prefixed]⟩
      | _ => exact names.elim
    · right
      obtain ⟨child, member, relies⟩ := Tree.anyReliesOn_iff.mp below
      exact ⟨child, member, ih child member (resolvedAll_iff.mp inside child member) relies bound⟩

/-! ## Readable trees -/

theorem IsTag.isResolved {name : QName} {uri : Option String} {attributes : List Attribute}
    (isTag : IsTag options scope name uri attributes) : IsResolved scope name uri attributes where
  uri_eq := isTag.uri_eq
  listed attr member := (isTag.listed attr member).uri_eq
  distinct := isTag.distinct

theorem IsTag.rescope {name : QName} {uri : Option String} {attributes : List Attribute}
    (isTag : IsTag options scope name uri attributes)
    (resolved : IsResolved scope' name uri attributes) :
    IsTag options scope' name uri attributes :=
  { isTag with
    uri_eq := resolved.uri_eq
    listed := fun attr member =>
      { isTag.listed attr member with uri_eq := resolved.listed attr member } }

theorem Readable.resolved (readable : Readable options depth scope tree)
    (canonical : Canonical tree) : Resolved scope tree := by
  induction tree using Tree.induction generalizing depth scope with
  | node kind children ih =>
    cases kind with
    | element name uri attributes =>
      obtain ⟨-, isTag, inside⟩ := readable
      refine ⟨isTag.isResolved, resolvedAll_iff.mpr fun child member => ?_⟩
      exact ih child member (readableAll_iff.mp inside child member)
        (canonicalAll_iff.mp canonical.1 child member)
    | _ =>
      obtain rfl := canonical.childless rfl
      exact ⟨trivial, trivial⟩

/-- A tree that is resolved in another scope can be read there, too, and further up. -/
theorem Readable.rescope (readable : Readable options depth scope tree)
    (resolved : Resolved scope' tree) (higher : depth' ≤ depth) :
    Readable options depth' scope' tree := by
  induction tree using Tree.induction generalizing depth depth' scope scope' with
  | node kind children ih =>
    cases kind with
    | element name uri attributes =>
      obtain ⟨shallow, isTag, inside⟩ := readable
      refine ⟨Nat.lt_of_le_of_lt higher shallow, isTag.rescope resolved.1,
        readableAll_iff.mpr fun child member => ?_⟩
      exact ih child member (readableAll_iff.mp inside child member)
        (resolvedAll_iff.mp resolved.2 child member) (Nat.succ_le_succ higher)
    | _ => exact readable

/-- A prefix that a readable tree relies on is bound where the tree stands. -/
theorem Readable.isSome_resolve (readable : Readable options depth scope tree)
    (canonical : Canonical tree) {nsPrefix : String} (relies : tree.ReliesOn (some nsPrefix)) :
    (scope.resolve (some nsPrefix)).isSome = true := by
  induction tree using Tree.induction generalizing depth scope with
  | node kind children ih =>
    obtain ⟨free, relies⟩ := relies
    cases kind with
    | element name uri attributes =>
      obtain ⟨-, isTag, inside⟩ := readable
      rw [← Scope.resolve_declare_of_none free]
      rcases relies with (prefixed | ⟨-, attr, member, proper, prefixed⟩) | below
      · have bound := isTag.bound (by rw [prefixed]; rfl)
        rwa [isTag.uri_eq, prefixed] at bound
      · have bound := (isTag.listed attr member).bound proper (by rw [prefixed]; rfl)
        rwa [(isTag.listed attr member).uri_eq, Scope.uriOf, proper, prefixed] at bound
      · obtain ⟨child, member, relies⟩ := Tree.anyReliesOn_iff.mp below
        exact ih child member (readableAll_iff.mp inside child member)
          (canonicalAll_iff.mp canonical.1 child member) relies
    | _ =>
      obtain rfl := canonical.childless rfl
      exact (relies.elim id id).elim

end Xml

/-! ## Declarations at the top of a tree -/

section

open Xml

variable {options : ParseOptions} {scope scope' : Scope} {name : QName} {uri : Option String}
  {attributes : List Attribute} {extra outer : List (Option String × String)}

theorem Xml.write_declaring (options : WriteOptions) (level : Nat) (pretty : Bool) (tree : Tree) :
    write options level pretty extra tree =
      write options level pretty [] (tree.declaring (Xml.declarationsOf extra)) := by
  obtain ⟨kind, children⟩ := tree
  cases kind with
  | element name uri attributes =>
    simp only [Tree.declaring, NodeKind.declaring, write, Xml.declarationsOf, List.map_nil,
      List.nil_append]
  | _ => simp only [Tree.declaring, NodeKind.declaring, write]

theorem Attribute.declared?_congr {left right : Attribute} (same : left.name = right.name) :
    left.declared? = right.declared? := by
  rw [declared?, declared?, isDeclaration, isDeclaration, same]

/-- Declarations of different prefixes that an element lacks have different names, and none that it
has. -/
theorem nodup_names_declaring (single : (extra.map (·.1)).Nodup)
    (free : ∀ pair ∈ extra, (bindings attributes).lookup pair.1 = none)
    (distinct : (attributes.map (·.name)).Nodup) :
    ((Xml.declarationsOf extra ++ attributes).map (·.name)).Nodup := by
  rw [List.map_append, List.nodup_append]
  refine ⟨?_, distinct, ?_⟩
  · rw [List.Nodup, List.pairwise_map] at single ⊢
    rw [Xml.declarationsOf, List.pairwise_map]
    refine single.imp fun {first second} apart same => apart ?_
    have declared := declared?_congr same
    rw [declared?_declaration, declared?_declaration] at declared
    exact Option.some.inj declared
  · intro left listed right listed' same
    subst same
    obtain ⟨attr, member, same⟩ := List.mem_map.mp listed'
    obtain ⟨_, made, rfl⟩ := List.mem_map.mp listed
    obtain ⟨pair, given, rfl⟩ := List.mem_map.mp made
    have declares := declared?_congr same
    rw [declared?_declaration] at declares
    have bound : (pair.1, attr.value) ∈ bindings attributes :=
      List.mem_filterMap.mpr ⟨attr, member, by rw [binding?, declares]; rfl⟩
    have found := lookup_isSome_iff.mpr (List.mem_map_of_mem (f := (·.1)) bound)
    rw [free pair given] at found
    cases found

/-- Declarations that an element lacks work on its tree as those around it do. -/
theorem Xml.resolved_declaring_iff (single : (extra.map (·.1)).Nodup)
    (free : ∀ pair ∈ extra, (bindings tree.kind.attributes).lookup pair.1 = none)
    (isElement : tree.kind.isElement = true) :
    Resolved scope (tree.declaring (Xml.declarationsOf extra)) ↔
      Resolved (scope.declare (Xml.declarationsOf extra)) tree := by
  obtain ⟨kind, children⟩ := tree
  obtain ⟨name, uri, attributes, rfl⟩ := NodeKind.exists_of_isElement isElement
  have inner : scope.declare (Xml.declarationsOf extra ++ attributes) =
      (scope.declare (Xml.declarationsOf extra)).declare attributes := List.foldl_append ..
  rw [Tree.declaring, NodeKind.declaring, Resolved, Resolved, NodeKind.attributes,
    NodeKind.attributes, inner]
  refine and_congr_left fun _ => ⟨fun here => ?_, fun here => ?_⟩
  · obtain ⟨uri_eq, listed, distinct⟩ := here
    rw [inner] at uri_eq listed
    rw [List.map_append] at distinct
    exact ⟨uri_eq, fun attr member => listed attr (List.mem_append_right _ member),
      (List.nodup_append.mp distinct).2.1⟩
  · obtain ⟨uri_eq, listed, distinct⟩ := here
    refine ⟨by rwa [inner], fun attr member => ?_, nodup_names_declaring single free distinct⟩
    rw [inner]
    rcases List.mem_append.mp member with made | member
    · obtain ⟨pair, -, rfl⟩ := List.mem_map.mp made
      rw [Scope.uriOf, isDeclaration_declaration]
      rcases pair with ⟨_ | _, _⟩ <;> rfl
    · exact listed attr member

/-- A binding that a declaration makes which was read somewhere. -/
def Xml.IsReadBinding (options : ParseOptions) (pair : Option String × String) : Prop :=
  ∃ scope attr, IsAttribute options scope attr ∧ attr.declared? = some pair.1 ∧
    attr.value = pair.2

/-- A readable element can be read with declarations that were read elsewhere. -/
theorem Xml.Readable.declaring {depth depth' : Nat} (readable : Readable options depth scope tree)
    (read : ∀ pair ∈ extra, IsReadBinding options pair)
    (resolved : Resolved scope' (tree.declaring (Xml.declarationsOf extra)))
    (higher : depth' ≤ depth) :
    Readable options depth' scope' (tree.declaring (Xml.declarationsOf extra)) := by
  obtain ⟨kind, children⟩ := tree
  cases kind with
  | element name uri attributes =>
    obtain ⟨shallow, isTag, inside⟩ := readable
    obtain ⟨here, below⟩ := resolved
    refine ⟨Nat.lt_of_le_of_lt higher shallow, { isTag with
      uri_eq := here.uri_eq
      listed := fun attr member => ?_
      distinct := here.distinct }, readableAll_iff.mpr fun child member => ?_⟩
    · rcases List.mem_append.mp member with made | member
      · obtain ⟨pair, given, rfl⟩ := List.mem_map.mp made
        obtain ⟨_, attr, isAttribute, declares, value⟩ := read pair given
        have same := (name_of_declared declares).2
        rw [value] at same
        exact {
          named := same ▸ isAttribute.named
          split := same ▸ isAttribute.split
          legal := by
            rw [value_declaration, ← value]
            exact isAttribute.legal
          uri_eq := here.listed _ (List.mem_append_left _ made)
          bound := by simp [isDeclaration_declaration] }
      · exact { isTag.listed attr member with
          uri_eq := here.listed attr (List.mem_append_right _ member) }
    · exact (readableAll_iff.mp inside child member).rescope
        (resolvedAll_iff.mp below child member) (Nat.succ_le_succ higher)
  | _ => exact readable

theorem Xml.Scope.lookup_initial (other : nsPrefix ≠ some "xml") :
    Scope.initial.lookup nsPrefix = none := by
  rw [Scope.initial, List.lookup_cons, show (nsPrefix == some "xml") = false by simpa using other]
  rfl

/-- Of what is declared above a tree and relied on, all is repeated but what is bound to nothing or
to the namespace of `xml`. -/
theorem Needed.lookup_eq {depth : Nat} {needed : List (Option String × String)}
    (needs : Needed outer tree needed) (readable : Readable options depth scope tree)
    (canonical : Canonical tree) (relies : tree.ReliesOn nsPrefix)
    (agree : scope.lookup nsPrefix = (outer ++ Scope.initial).lookup nsPrefix) :
    needed.lookup nsPrefix =
      (outer.lookup nsPrefix).filter fun uri => uri != "" && uri != xmlNamespace := by
  refine Option.ext fun uri => ?_
  rw [lookup_eq_some_iff_mem needs.single, needs.mem_iff, Option.filter_eq_some_iff]
  simp only [Bool.and_eq_true, bne_iff_ne, ne_eq]
  constructor
  · rintro ⟨-, -, found, solid, other⟩
    exact ⟨found, solid, other⟩
  · rintro ⟨found, solid, other⟩
    refine ⟨(readable.resolved canonical).mem_used relies ?_, ?_, found, solid, other⟩
    · rw [Scope.resolve, agree, List.lookup_append, found, Option.some_or,
        Option.filter_some_pos (by simpa using solid)]
      rfl
    · obtain ⟨kind, children⟩ := tree
      exact relies.1

/-- A binding that is repeated unless it is bound to nothing or to the namespace of `xml` stands for
the same, unless it is bound to that namespace. -/
theorem filter_repeated_iff (found : Option String) :
    ((found.filter fun uri => uri != "" && uri != xmlNamespace).filter fun uri => !uri.isEmpty) =
        found.filter (fun uri => !uri.isEmpty) ↔
      found.filter (fun uri => !uri.isEmpty) ≠ some xmlNamespace := by
  cases found with
  | none => exact iff_of_true rfl fun bound => by cases bound
  | some uri =>
    by_cases solid : uri = ""
    · subst solid
      exact iff_of_true rfl fun bound => by cases bound
    · by_cases same : uri = xmlNamespace
      · subst same
        exact iff_of_false (by decide) (absurd rfl)
      · have stays : (some uri).filter (fun uri => !uri.isEmpty) = some uri :=
          Option.filter_some_pos (by simpa using solid)
        rw [Option.filter_some_pos (by simp [solid, same]), stays]
        exact iff_of_true rfl (by simpa using same)

/-- The prefix `xml` stands for the same without being repeated, if it is not bound to nothing. -/
theorem or_xmlNamespace_of_isSome {found : Option String}
    (bound : ((found.or (some xmlNamespace)).filter fun uri => !uri.isEmpty).isSome = true) :
    (found.filter fun uri => uri != "" && uri != xmlNamespace).or (some xmlNamespace) =
      found.or (some xmlNamespace) := by
  cases found with
  | none => rfl
  | some uri =>
    by_cases same : uri = xmlNamespace
    · subst same
      rfl
    · have solid : uri ≠ "" := by
        rintro rfl
        cases bound
      rw [Option.filter_some_pos (by simp [solid, same])]

/-- The bindings that are repeated stand for what the tree relies on, except for another prefix than
`xml` that is bound to the namespace of `xml`. -/
theorem Needed.resolve_iff {depth : Nat} {needed : List (Option String × String)}
    (needs : Needed outer tree needed) (readable : Readable options depth scope tree)
    (canonical : Canonical tree) (relies : tree.ReliesOn nsPrefix)
    (agree : scope.lookup nsPrefix = (outer ++ Scope.initial).lookup nsPrefix) :
    (Scope.initial.declare (Xml.declarationsOf needed)).resolve nsPrefix = scope.resolve nsPrefix ↔
      (nsPrefix ≠ some "xml" → scope.resolve nsPrefix ≠ some xmlNamespace) := by
  have listed := needs.lookup_eq readable canonical relies agree
  have inner : (Scope.initial.declare (Xml.declarationsOf needed)).lookup nsPrefix =
      ((outer.lookup nsPrefix).filter fun uri => uri != "" && uri != xmlNamespace).or
        (Scope.initial.lookup nsPrefix) := by
    rw [Scope.declare_eq, List.lookup_append, show Xml.declarationsOf needed =
      Attribute.declarationsOf needed from rfl, bindings_declarationsOf,
      lookup_reverse needs.single, listed]
  have bound : nsPrefix = some "xml" → (scope.resolve nsPrefix).isSome = true := by
    rintro rfl
    exact readable.isSome_resolve canonical relies
  rw [Scope.resolve, inner]
  rw [Scope.resolve, agree, List.lookup_append] at bound ⊢
  by_cases isXml : nsPrefix = some "xml"
  · subst isXml
    refine iff_of_true ?_ (absurd rfl)
    exact congrArg (Option.filter _) (or_xmlNamespace_of_isSome (bound rfl))
  · rw [Scope.lookup_initial isXml, Option.or_none, Option.or_none, filter_repeated_iff]
    exact ⟨fun apart _ => apart, fun apart => apart isXml⟩

end

end Markup
