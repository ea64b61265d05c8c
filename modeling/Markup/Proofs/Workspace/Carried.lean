import Markup.Document.Writer
import Markup.Proofs.Workspace.Bound

/-!
# Trees that are carried elsewhere

A tree that can be written below some declarations can be written below others if the prefixes that
it uses stand for the same there. What has no prefix and is in no namespace relies on nothing, but a
default namespace that is declared above would reach it.
-/

namespace Markup

open Attribute

variable {bound bound' : Option String → Option String} {kind : NodeKind} {tree : Tree}
  {children trees : List Tree} {outer outer' : List (Option String × String)}
  {nsPrefix : Option String} {uri : String}

namespace NodeKind

/-- Whether a node declares nothing that is reserved: it binds no prefix but `xml` to the namespace
of `xml`, and it does not bind the prefix `xmlns`. -/
def KeepsReserved (kind : NodeKind) : Prop :=
  ∀ binding ∈ bindings kind.attributes,
    binding.1 ≠ some "xmlns" ∧ (binding.2 = xmlNamespace → binding.1 = some "xml")

instance : DecidablePred KeepsReserved := fun _ => inferInstanceAs (Decidable (∀ _ ∈ _, _))

/-- Whether a node is an element without a prefix and in no namespace. -/
def isBare : NodeKind → Bool
  | element name uri _ => name.nsPrefix.isNone && uri.isNone
  | _ => false

end NodeKind

namespace Tree

/-! ## Trees -/

/-- The prefixes, `none` for the default namespace, that a tree relies on declarations for. -/
def used (tree : Tree) : List (Option String) :=
  (tree.outline 0).flatMap fun entry => Document.usedPrefixes entry.2

mutual

theorem kinds_outline (depth : Nat) : (tree : Tree) →
    (tree.outline depth).map (·.2) = (tree.outline 0).map (·.2)
  | .node kind children => by
    rw [outline, outline, List.map_cons, List.map_cons, kinds_outlineAll (depth + 1) children,
      kinds_outlineAll (0 + 1) children]

theorem kinds_outlineAll (depth : Nat) : (trees : List Tree) →
    (outlineAll depth trees).map (·.2) = trees.flatMap fun tree => (tree.outline 0).map (·.2)
  | [] => rfl
  | tree :: rest => by
    rw [outlineAll, List.map_append, List.flatMap_cons, kinds_outline depth tree,
      kinds_outlineAll depth rest]

end

theorem mem_used_node : nsPrefix ∈ (node kind children).used ↔
    nsPrefix ∈ Document.usedPrefixes kind ∨ ∃ child ∈ children, nsPrefix ∈ child.used := by
  have through : ∀ tree : Tree,
      tree.used = ((tree.outline 0).map (·.2)).flatMap Document.usedPrefixes := fun tree => by
    rw [used, List.flatMap_map]
  simp only [through]
  rw [outline, List.map_cons, kinds_outlineAll, List.flatMap_cons, List.mem_append,
    List.flatMap_assoc, List.mem_flatMap]

/-! ## Where a tree can be written -/

mutual

/-- Whether a tree can be written below declarations, declares nothing that is reserved and has
nothing below any node but elements. -/
def StandsIn (outer : List (Option String × String)) : Tree → Prop
  | node kind children =>
    kind.IsSound (boundIn (bindings kind.attributes ++ outer)) ∧ kind.KeepsReserved ∧
      (kind.isElement = false → children = []) ∧
      StandAllIn (bindings kind.attributes ++ outer) children

/-- Whether each of some trees can be written below declarations. -/
def StandAllIn (outer : List (Option String × String)) : List Tree → Prop
  | [] => True
  | tree :: rest => StandsIn outer tree ∧ StandAllIn outer rest

end

theorem standAllIn_iff : StandAllIn outer trees ↔ ∀ tree ∈ trees, tree.StandsIn outer := by
  induction trees with
  | nil => simp [StandAllIn]
  | cons tree rest ih => rw [StandAllIn, ih, List.forall_mem_cons]

mutual

/-- Whether a default namespace that is declared above a tree reaches an element without a prefix
that is in no namespace. -/
def isExposed : Tree → Bool
  | node kind children =>
    ((bindings kind.attributes).lookup none).isNone && (kind.isBare || anyExposed children)

/-- Whether a default namespace that is declared above reaches such an element of some trees. -/
def anyExposed : List Tree → Bool
  | [] => false
  | tree :: rest => isExposed tree || anyExposed rest

end

theorem anyExposed_iff : anyExposed trees = true ↔ ∃ tree ∈ trees, tree.isExposed = true := by
  induction trees with
  | nil => simp [anyExposed]
  | cons tree rest ih => simp [anyExposed, ih]

end Tree

/-! ## Other bindings -/

namespace IsSoundTag

variable {name : QName} {uri : Option String} {attributes : List Attribute}

theorem bound_of_isBare (sound : IsSoundTag bound name uri attributes)
    (bare : (NodeKind.element name uri attributes).isBare = true) : bound none = none := by
  rw [NodeKind.isBare, Bool.and_eq_true, Option.isNone_iff_eq_none, Option.isNone_iff_eq_none]
    at bare
  have uri_eq := sound.uri_eq
  rw [bare.1, bare.2] at uri_eq
  exact uri_eq.symm

/-- A tag can be written where the prefixes that it uses stand for the same, and where there is no
default namespace if it is in none. -/
theorem rebind (sound : IsSoundTag bound name uri attributes)
    (kept : ∀ nsPrefix ∈ Document.usedPrefixes (.element name uri attributes), ∀ uri,
      bound nsPrefix = some uri → bound' nsPrefix = some uri)
    (bare : (NodeKind.element name uri attributes).isBare = true → bound' none = none) :
    IsSoundTag bound' name uri attributes where
  formed := sound.formed
  resolved := sound.resolved
  distinct := sound.distinct
  uri_eq := by
    cases found : uri with
    | some uri =>
      subst found
      refine (kept name.nsPrefix ?_ uri sound.uri_eq.symm).symm
      simp [Document.usedPrefixes]
    | none =>
      subst found
      cases prefixed : name.nsPrefix with
      | some nsPrefix => exact absurd (sound.resolved (by rw [prefixed]; rfl)) nofun
      | none => exact (bare (by simp [NodeKind.isBare, prefixed])).symm
  listed := by
    intro attr member
    have before := sound.listed attr member
    refine { before with uri_eq := ?_ }
    have resolves := before.resolved
    have uri_eq := before.uri_eq
    unfold uriIn at uri_eq ⊢
    split at uri_eq
    · rename_i nsPrefix proper prefixed
      obtain ⟨uri, found⟩ := Option.isSome_iff_exists.mp (resolves proper (by rw [prefixed]; rfl))
      rw [found] at uri_eq ⊢
      refine (kept (some nsPrefix) ?_ uri uri_eq.symm).symm
      refine List.mem_append_right _ (List.mem_map.mpr ⟨attr, ?_, prefixed⟩)
      exact List.mem_filter.mpr ⟨member, by simp [proper, prefixed]⟩
    · exact uri_eq

end IsSoundTag

theorem NodeKind.IsSound.rebind (sound : kind.IsSound bound)
    (kept : ∀ nsPrefix ∈ Document.usedPrefixes kind, ∀ uri,
      bound nsPrefix = some uri → bound' nsPrefix = some uri)
    (bare : kind.isBare = true → bound' none = none) : kind.IsSound bound' := by
  cases kind with
  | element name uri attributes => exact IsSoundTag.rebind sound kept bare
  | _ => exact sound

theorem NodeKind.IsSound.bound_of_isBare (sound : kind.IsSound bound) (bare : kind.isBare = true) :
    bound none = none := by
  cases kind with
  | element name uri attributes => exact IsSoundTag.bound_of_isBare sound bare
  | _ => cases bare

namespace Tree.StandsIn

/-- Where an exposed tree stands there is no default namespace. -/
theorem bound_none (stands : tree.StandsIn outer) (exposed : tree.isExposed = true) :
    boundIn outer none = none := by
  induction tree using Tree.induction generalizing outer with
  | node kind children ih =>
    obtain ⟨sound, -, -, inside⟩ := stands
    rw [isExposed, Bool.and_eq_true, Bool.or_eq_true, Option.isNone_iff_eq_none] at exposed
    obtain ⟨hidden, reached⟩ := exposed
    rw [← boundIn_append_of_none hidden]
    rcases reached with bare | inner
    · exact sound.bound_of_isBare bare
    · obtain ⟨child, member, exposed⟩ := anyExposed_iff.mp inner
      exact ih child member (standAllIn_iff.mp inside child member) exposed

/-- A tree can be written where the prefixes that it uses stand for the same, and where there is no
default namespace if it is exposed. -/
theorem rebind (stands : tree.StandsIn outer)
    (kept : ∀ nsPrefix ∈ tree.used, ∀ uri,
      boundIn outer nsPrefix = some uri → boundIn outer' nsPrefix = some uri)
    (bare : tree.isExposed = true → boundIn outer' none = none) : tree.StandsIn outer' := by
  induction tree using Tree.induction generalizing outer outer' with
  | node kind children ih =>
    obtain ⟨sound, reserved, childless, inside⟩ := stands
    have inside := standAllIn_iff.mp inside
    have kept' : ∀ nsPrefix ∈ (node kind children).used, ∀ uri,
        boundIn (bindings kind.attributes ++ outer) nsPrefix = some uri →
          boundIn (bindings kind.attributes ++ outer') nsPrefix = some uri :=
      fun nsPrefix member => boundIn_append_mono (kept nsPrefix member)
    -- A default namespace that the node itself declares is the same for what stands below it.
    have bare' : boundIn (bindings kind.attributes ++ outer) none = none →
        (kind.isBare || anyExposed children) = true →
          boundIn (bindings kind.attributes ++ outer') none = none := by
      intro before reached
      cases own : (bindings kind.attributes).lookup none with
      | none =>
        rw [boundIn_append_of_none own]
        exact bare (by rw [isExposed, own, reached]; rfl)
      | some uri =>
        rw [boundIn_append_of_some own] at before ⊢
        exact before
    refine ⟨sound.rebind ?_ ?_, reserved, childless, standAllIn_iff.mpr fun child member => ?_⟩
    · exact fun nsPrefix member => kept' nsPrefix (mem_used_node.mpr (.inl member))
    · exact fun here => bare' (sound.bound_of_isBare here) (by rw [here]; rfl)
    · refine ih child member (inside child member) ?_ fun exposed => ?_
      · exact fun nsPrefix inner => kept' nsPrefix (mem_used_node.mpr (.inr ⟨child, member, inner⟩))
      · refine bare' ((inside child member).bound_none exposed) ?_
        rw [anyExposed_iff.mpr ⟨child, member, exposed⟩, Bool.or_true]

end Tree.StandsIn
end Markup
