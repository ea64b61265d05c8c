import Markup.Proofs.Workspace.Carried
import Markup.Workspace.Change

/-!
# Declarations that go along

A tree that is taken elsewhere gets declarations of the bindings that it relies on and that do not
hold at the new place. Then it can be written there as it could before. Only where the topmost
element has a prefix, a default namespace may reach what is in no namespace further down.
-/

namespace Markup

open Attribute

variable {bound : Option String → Option String} {kind : NodeKind} {children : List Tree}
  {own outer outer' needed : List (Option String × String)} {nsPrefix : Option String}
  {uri : String} {bare : Bool}

namespace Attribute

@[simp] theorem value_declaration (nsPrefix : Option String) (uri : String) :
    (declaration nsPrefix uri).value = uri := by
  cases nsPrefix <;> rfl

@[simp] theorem isDeclaration_declaration (nsPrefix : Option String) (uri : String) :
    (declaration nsPrefix uri).isDeclaration = true := by
  cases nsPrefix <;> simp [isDeclaration, declaration, plain]

@[simp] theorem declared?_declaration (nsPrefix : Option String) (uri : String) :
    (declaration nsPrefix uri).declared? = some nsPrefix := by
  rw [declared?, isDeclaration_declaration, if_pos rfl]
  cases nsPrefix <;> rfl

theorem bindings_append (left right : List Attribute) :
    bindings (left ++ right) = bindings left ++ bindings right := List.filterMap_append

/-- Declarations of bindings. -/
def declarationsOf (pairs : List (Option String × String)) : List Attribute :=
  pairs.map fun pair => declaration pair.1 pair.2

theorem bindings_declarationsOf (pairs : List (Option String × String)) :
    bindings (declarationsOf pairs) = pairs := by
  rw [bindings, declarationsOf, List.filterMap_map]
  refine (List.filterMap_congr fun pair _ => ?_).trans List.filterMap_some
  simp [binding?]

/-- Declarations of different prefixes may stand on one element. -/
theorem eq_of_sameIdentity {attr : Attribute} (free : nsPrefix ≠ some "xmlns")
    {other : Option String} (free' : other ≠ some "xmlns") (declares : attr.declared? = some other)
    (same : (declaration nsPrefix uri).sameIdentity attr = true) : nsPrefix = other := by
  have names := (sameIdentity_iff.mp same).1
  rw [(name_of_declared declares).2] at names
  cases nsPrefix with
  | none =>
    cases other with
    | none => rfl
    | some other => exact absurd (congrArg some names.symm) free'
  | some nsPrefix =>
    cases other with
    | none => exact absurd (congrArg some names) free
    | some other => exact congrArg some names

/-- A declaration that can be written somewhere can be written anywhere. -/
theorem IsSound.declaration {attr : Attribute} (sound : attr.IsSound bound)
    (declares : attr.declared? = some nsPrefix) (bound' : Option String → Option String) :
    (declaration nsPrefix attr.value).IsSound bound' where
  formed := by
    rw [← (name_of_declared declares).2]
    exact sound.formed
  legal := by
    rw [value_declaration]
    exact sound.legal
  uri_eq := by
    rw [uriIn, isDeclaration_declaration]
    cases nsPrefix <;> rfl
  resolved := by simp [isDeclaration_declaration]
  fixed isXml := by
    rw [declared?_declaration] at isXml
    rw [value_declaration]
    exact sound.fixed (declares.trans isXml)

end Attribute

/-- What an element is with declarations in front of its attributes. -/
def NodeKind.declaring (declarations : List Attribute) : NodeKind → NodeKind
  | .element name uri attributes => .element name uri (declarations ++ attributes)
  | other => other

/-- A tree with declarations on its topmost element. -/
def Tree.declaring (declarations : List Attribute) : Tree → Tree
  | .node kind children => .node (kind.declaring declarations) children

/-! ## Bindings that are added -/

/-- A binding that can be declared on any element. -/
structure IsDeclarable (nsPrefix : Option String) (uri : String) : Prop where
  sound : ∀ bound, (declaration nsPrefix uri).IsSound bound
  free : nsPrefix ≠ some "xmlns"
  reserved : uri = xmlNamespace → nsPrefix = some "xml"

/-- No default namespace can be declared anywhere. -/
theorem isDeclarable_none : IsDeclarable none "" where
  sound bound :=
    { formed := by decide
      legal := by simp [declaration, plain, Xml.isLegal_nil]
      uri_eq := rfl
      resolved := nofun
      fixed := nofun }
  free := nofun
  reserved := by decide

/-- The bindings that a node needs to declare, where prefixes stand for the given namespaces, to
keep those that it relies on. -/
def added (bound : Option String → Option String) (bare : Bool)
    (needed : List (Option String × String)) : List (Option String × String) :=
  (needed.filter fun pair => bound pair.1 != some pair.2) ++
    if bare && (bound none).isSome then [(none, "")] else []

theorem mem_added : (nsPrefix, uri) ∈ added bound bare needed ↔
    (nsPrefix, uri) ∈ needed ∧ bound nsPrefix ≠ some uri ∨
      (bare = true ∧ (bound none).isSome) ∧ nsPrefix = none ∧ uri = "" := by
  rw [added, List.mem_append, List.mem_filter, bne_iff_ne]
  split
  · rename_i both
    rw [Bool.and_eq_true] at both
    simp [both]
  · rename_i both
    rw [Bool.and_eq_true] at both
    simp [both]

/-- The bindings that a tree relies on and that are declared above it, each once. -/
structure Needed (outer : List (Option String × String)) (tree : Tree)
    (needed : List (Option String × String)) : Prop where
  mem_iff : ∀ {nsPrefix uri}, (nsPrefix, uri) ∈ needed ↔ nsPrefix ∈ tree.used ∧
    (bindings tree.kind.attributes).lookup nsPrefix = none ∧
      outer.lookup nsPrefix = some uri ∧ uri ≠ "" ∧ uri ≠ xmlNamespace
  single : (needed.map (·.1)).Nodup

namespace Tree.StandsIn

variable (stands : (node kind children).StandsIn outer)

section

include stands

/-- Where an element without a prefix in no namespace, or a node above one, stands, there is no
default namespace. -/
theorem bound_none_of_reached (reached : kind.isBare = true ∨ anyExposed children = true) :
    boundIn (bindings kind.attributes ++ outer) none = none := by
  obtain ⟨sound, -, -, inside⟩ := stands
  rcases reached with bare | inner
  · exact sound.bound_of_isBare bare
  · obtain ⟨child, member, exposed⟩ := anyExposed_iff.mp inner
    exact (standAllIn_iff.mp inside child member).bound_none exposed

/-- If such a node declares no default namespace, none is declared above it. -/
theorem lookup_none_of_reached (reached : kind.isBare = true ∨ anyExposed children = true)
    (hidden : (bindings kind.attributes).lookup none = none) (solid : uri ≠ "") :
    outer.lookup none ≠ some uri := by
  intro found
  have nothing := stands.bound_none_of_reached reached
  rw [boundIn_append_of_none hidden, (boundIn_eq_some (by decide)).mpr ⟨found, solid⟩] at nothing
  cases nothing

variable (outer') (needs : Needed outer (node kind children) needed)
include needs

omit outer' in
/-- No default namespace is needed where something relies on there being none. -/
theorem none_not_mem_needed (reached : kind.isBare = true ∨ anyExposed children = true)
    (hidden : (bindings kind.attributes).lookup none = none) : (none, uri) ∉ needed := by
  intro inherited
  obtain ⟨-, -, found, solid, -⟩ := needs.mem_iff.mp inherited
  exact stands.lookup_none_of_reached reached hidden solid found

/-- Nothing is added that the node declares itself. -/
theorem lookup_own_of_added (listed : (nsPrefix, uri) ∈
      added (boundIn (bindings kind.attributes ++ outer')) kind.isBare needed) :
    (bindings kind.attributes).lookup nsPrefix = none := by
  rcases mem_added.mp listed with ⟨inherited, -⟩ | ⟨⟨bare, inForce⟩, rfl, -⟩
  · exact (needs.mem_iff.mp inherited).2.1
  · cases own : (bindings kind.attributes).lookup none with
    | none => rfl
    | some value =>
      have nothing := stands.bound_none_of_reached (.inl bare)
      rw [boundIn_append_of_some own] at nothing inForce
      rw [nothing] at inForce
      cases inForce

theorem nodup_added : ((added (boundIn (bindings kind.attributes ++ outer')) kind.isBare
    needed).map (·.1)).Nodup := by
  rw [added, List.map_append, List.nodup_append]
  refine ⟨(List.filter_sublist.map _).nodup needs.single, by split <;> simp,
    fun key listed other appended => ?_⟩
  rintro rfl
  split at appended
  · rename_i both
    obtain rfl := List.mem_singleton.mp appended
    obtain ⟨⟨_, value⟩, member, rfl⟩ := List.mem_map.mp listed
    obtain ⟨-, hidden, found, solid, -⟩ := needs.mem_iff.mp (List.mem_filter.mp member).1
    have bare := (Bool.and_eq_true _ _ ▸ both).1
    exact stands.lookup_none_of_reached (.inl bare) hidden solid found
  · cases appended

/-- With what is added every prefix that is used stands for what it stood for. -/
theorem bound_added (reserved : ∀ pair ∈ outer, pair.2 = xmlNamespace → pair.1 = some "xml")
    (member : nsPrefix ∈ (node kind children).used) (uri : String)
    (before : boundIn (bindings kind.attributes ++ outer) nsPrefix = some uri) :
    boundIn (added (boundIn (bindings kind.attributes ++ outer')) kind.isBare needed ++
      (bindings kind.attributes ++ outer')) nsPrefix = some uri := by
  by_cases isXml : nsPrefix = some "xml"
  · subst isXml
    exact before
  have single := stands.nodup_added outer' needs
  cases own : (bindings kind.attributes).lookup nsPrefix with
  | some value =>
    rw [boundIn_append_of_none, boundIn_append_of_some own, ← boundIn_append_of_some own, before]
    by_contra declared
    obtain ⟨other, found⟩ := Option.ne_none_iff_exists'.mp declared
    have listed := (lookup_eq_some_iff_mem single).mp found
    rw [stands.lookup_own_of_added outer' needs listed] at own
    cases own
  | none =>
    rw [boundIn_append_of_none own, boundIn_eq_some isXml] at before
    obtain ⟨found, solid⟩ := before
    obtain ⟨early, late, split, -⟩ := List.lookup_eq_some_iff.mp found
    have proper : uri ≠ xmlNamespace := fun same =>
      isXml (reserved (nsPrefix, uri) (by simp [split]) same)
    have inherited : (nsPrefix, uri) ∈ needed :=
      needs.mem_iff.mpr ⟨member, own, found, solid, proper⟩
    by_cases kept : boundIn (bindings kind.attributes ++ outer') nsPrefix = some uri
    · rw [boundIn_append_of_none, kept]
      by_contra declared
      obtain ⟨other, found'⟩ := Option.ne_none_iff_exists'.mp declared
      rcases mem_added.mp ((lookup_eq_some_iff_mem single).mp found') with
        ⟨inherited', lost⟩ | ⟨⟨bare, -⟩, rfl, -⟩
      · obtain ⟨-, -, found'', -⟩ := needs.mem_iff.mp inherited'
        rw [found, Option.some.injEq] at found''
        exact lost (found'' ▸ kept)
      · exact stands.lookup_none_of_reached (.inl bare) own solid found
    · have declared := (lookup_eq_some_iff_mem single).mpr (mem_added.mpr (.inl ⟨inherited, kept⟩))
      rw [boundIn_append_of_some declared]
      exact (boundIn_eq_some isXml).mpr ⟨declared, solid⟩

/-- With what is added there is still no default namespace where something relies on that, unless
the node has a prefix and one is in force at the new place. -/
theorem bound_none_added (isElement : kind.isElement = true)
    (safe : (node kind children).isExposed = true → kind.nsPrefix?.isSome = true →
      boundIn outer' none = none)
    (reached : kind.isBare = true ∨ anyExposed children = true) :
    boundIn (added (boundIn (bindings kind.attributes ++ outer')) kind.isBare needed ++
      (bindings kind.attributes ++ outer')) none = none := by
  have before := stands.bound_none_of_reached reached
  have single := stands.nodup_added outer' needs
  cases own : (bindings kind.attributes).lookup none with
  | some value =>
    rw [boundIn_append_of_none, boundIn_append_of_some own, ← boundIn_append_of_some own, before]
    by_contra declared
    obtain ⟨other, found⟩ := Option.ne_none_iff_exists'.mp declared
    have listed := (lookup_eq_some_iff_mem single).mp found
    rw [stands.lookup_own_of_added outer' needs listed] at own
    cases own
  | none =>
    rw [boundIn_append_of_none own] at before
    by_cases undeclare : kind.isBare = true ∧
        (boundIn (bindings kind.attributes ++ outer') none).isSome
    · have declared := (lookup_eq_some_iff_mem single).mpr
        (mem_added.mpr (.inr ⟨undeclare, rfl, rfl⟩))
      rw [boundIn_append_of_some declared, boundIn_eq (by decide), declared]
      rfl
    · rw [boundIn_append_of_none]
      · by_cases bare : kind.isBare = true
        · exact Option.not_isSome_iff_eq_none.mp fun inForce => undeclare ⟨bare, inForce⟩
        · rw [boundIn_append_of_none own]
          refine safe (by rw [isExposed, own]; simpa using reached) ?_
          obtain ⟨name, uri, attributes, rfl⟩ := NodeKind.exists_of_isElement isElement
          by_contra unprefixed
          have prefixed : name.nsPrefix = none := by simpa [NodeKind.nsPrefix?] using unprefixed
          have uri_eq := stands.1.uri_eq
          rw [prefixed, boundIn_append_of_none own, before] at uri_eq
          exact bare (by simp [NodeKind.isBare, prefixed, uri_eq])
      · by_contra declared
        obtain ⟨other, found⟩ := Option.ne_none_iff_exists'.mp declared
        rcases mem_added.mp ((lookup_eq_some_iff_mem single).mp found) with ⟨inherited, -⟩ | ⟨both, -⟩
        · exact stands.none_not_mem_needed needs reached own inherited
        · exact undeclare both

end

end Tree.StandsIn

/-! ## Trees with their declarations -/

/-- A tag can be written with more declarations if each of them can and if it makes none of them
itself. -/
theorem IsSoundTag.declare {name : QName} {uri : Option String} {attributes : List Attribute}
    (sound : IsSoundTag bound name uri attributes)
    (reserved : (NodeKind.element name uri attributes).KeepsReserved)
    {pairs : List (Option String × String)} (declarable : ∀ pair ∈ pairs, IsDeclarable pair.1 pair.2)
    (single : (pairs.map (·.1)).Nodup)
    (apart : ∀ pair ∈ pairs, (bindings attributes).lookup pair.1 = none) :
    IsSoundTag bound name uri (declarationsOf pairs ++ attributes) where
  formed := sound.formed
  uri_eq := sound.uri_eq
  resolved := sound.resolved
  listed := by
    intro attr member
    rcases List.mem_append.mp member with declares | member
    · obtain ⟨pair, listed, rfl⟩ := List.mem_map.mp declares
      exact (declarable pair listed).sound bound
    · exact sound.listed attr member
  distinct := by
    refine List.pairwise_append.mpr ⟨?_, sound.distinct, fun left declares right member => ?_⟩
    · rw [declarationsOf, List.pairwise_map]
      rw [List.Nodup, List.pairwise_map] at single
      refine single.imp_of_mem fun {left right} memberL memberR distinct => ?_
      refine Bool.eq_false_iff.mpr fun same => distinct ?_
      exact eq_of_sameIdentity (declarable left memberL).free (declarable right memberR).free
        (declared?_declaration _ _) same
    · obtain ⟨pair, listed, rfl⟩ := List.mem_map.mp declares
      refine Bool.eq_false_iff.mpr fun same => ?_
      have isDeclaration := (sameIdentity_iff.mp same).2.2
      rw [isDeclaration_declaration] at isDeclaration
      obtain ⟨key, declares⟩ : ∃ key, right.declared? = some key :=
        ⟨_, if_pos isDeclaration.symm⟩
      have bound : (key, right.value) ∈ bindings attributes :=
        List.mem_filterMap.mpr ⟨right, member, by rw [binding?, declares, Option.map_some]⟩
      have key_eq := eq_of_sameIdentity (declarable pair listed).free (reserved _ bound).1
        declares same
      have found := lookup_isSome_iff.mpr (List.mem_map_of_mem (f := (·.1)) bound)
      rw [← key_eq, apart pair listed] at found
      cases found

namespace Tree.StandsIn

/-- An element that is taken elsewhere can be written there, with everything below it, once the
bindings are added that it needs there. -/
theorem settle {name : QName} {uri : Option String} {attributes : List Attribute}
    (stands : (node (.element name uri attributes) children).StandsIn outer)
    (needs : Needed outer (node (.element name uri attributes) children) needed)
    (declarable : ∀ pair ∈ outer, IsDeclarable pair.1 pair.2)
    (safe : (node (.element name uri attributes) children).isExposed = true →
      name.nsPrefix.isSome = true → boundIn outer' none = none) :
    (node (.element name uri (declarationsOf (added (boundIn (bindings attributes ++ outer'))
      (NodeKind.element name uri attributes).isBare needed) ++ attributes)) children).StandsIn
        outer' := by
  have kept := fun (nsPrefix : Option String) (member : nsPrefix ∈ used _) =>
    stands.bound_added outer' needs (fun pair listed => (declarable pair listed).reserved) member
  have bare := stands.bound_none_added outer' needs rfl safe
  have apart : ∀ pair ∈ added (boundIn (bindings attributes ++ outer'))
      (NodeKind.element name uri attributes).isBare needed,
        (bindings attributes).lookup pair.1 = none :=
    fun _ listed => stands.lookup_own_of_added outer' needs listed
  have single := stands.nodup_added outer' needs
  have each : ∀ pair ∈ added (boundIn (bindings attributes ++ outer'))
      (NodeKind.element name uri attributes).isBare needed, IsDeclarable pair.1 pair.2 := by
    rintro ⟨nsPrefix, uri⟩ listed
    rcases mem_added.mp listed with ⟨inherited, -⟩ | ⟨-, rfl, rfl⟩
    · obtain ⟨early, late, split, -⟩ :=
        List.lookup_eq_some_iff.mp (needs.mem_iff.mp inherited).2.2.1
      exact declarable (nsPrefix, uri) (by simp [split])
    · exact isDeclarable_none
  simp only [NodeKind.attributes] at kept bare single
  generalize added (boundIn (bindings attributes ++ outer')) _ needed = extra at *
  obtain ⟨sound, reserved, childless, inside⟩ := stands
  have bindings_eq : bindings (declarationsOf extra ++ attributes) =
      extra ++ bindings attributes := by
    rw [bindings_append, bindings_declarationsOf]
  rw [StandsIn, NodeKind.attributes, bindings_eq, List.append_assoc]
  refine ⟨?_, ?_, fun plain => absurd plain Bool.noConfusion,
    standAllIn_iff.mpr fun child member => ?_⟩
  · refine IsSoundTag.declare ?_ reserved each single apart
    refine IsSoundTag.rebind sound (fun nsPrefix member => ?_) fun here => bare (.inl here)
    exact kept nsPrefix (mem_used_node.mpr (.inl member))
  · intro binding member
    rw [NodeKind.attributes, bindings_eq] at member
    rcases List.mem_append.mp member with listed | own
    · exact ⟨(each binding listed).free, (each binding listed).reserved⟩
    · exact reserved binding own
  · refine (standAllIn_iff.mp inside child member).rebind (fun nsPrefix inner => ?_) fun exposed => ?_
    · exact kept nsPrefix (mem_used_node.mpr (.inr ⟨child, member, inner⟩))
    · exact bare (.inr (anyExposed_iff.mpr ⟨child, member, exposed⟩))

/-- With what is added an element with a prefix is as exposed as it was. -/
theorem isExposed_declare {name : QName} {uri : Option String} {attributes : List Attribute}
    (stands : (node (.element name uri attributes) children).StandsIn outer)
    (needs : Needed outer (node (.element name uri attributes) children) needed)
    (exposed : (node (.element name uri attributes) children).isExposed = true)
    (prefixed : name.nsPrefix.isSome = true) :
    (node (.element name uri (declarationsOf (added bound
      (NodeKind.element name uri attributes).isBare needed) ++ attributes)) children).isExposed =
        true := by
  rw [isExposed, Bool.and_eq_true, Bool.or_eq_true, Option.isNone_iff_eq_none] at exposed
  obtain ⟨hidden, reached⟩ := exposed
  have notBare : ∀ attributes, (NodeKind.element name uri attributes).isBare = false := by
    obtain ⟨nsPrefix, found⟩ := Option.isSome_iff_exists.mp prefixed
    intro attributes
    rw [NodeKind.isBare, found]
    rfl
  have unadded : (added bound false needed).lookup none = none := by
    by_contra declared
    obtain ⟨other, found⟩ := Option.ne_none_iff_exists'.mp declared
    obtain ⟨early, late, split, -⟩ := List.lookup_eq_some_iff.mp found
    have listed : (none, other) ∈ added bound false needed := by simp [split]
    rcases mem_added.mp listed with ⟨inherited, -⟩ | ⟨⟨bare, -⟩, -⟩
    · exact stands.none_not_mem_needed needs reached hidden inherited
    · cases bare
  rw [notBare, Bool.false_eq_true, false_or] at reached
  rw [isExposed, notBare, notBare, NodeKind.attributes, bindings_append, bindings_declarationsOf,
    List.lookup_append, unadded, Option.none_or, reached]
  rw [NodeKind.attributes] at hidden
  rw [hidden]
  rfl

end Tree.StandsIn

end Markup
