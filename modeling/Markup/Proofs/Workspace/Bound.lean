import Markup.Proofs.Store.Grow
import Markup.Proofs.Workspace.Sound

/-!
# What declarations bind

What a prefix stands for is read off a list of declarations, the nearest first. Declarations put
before others hide those of the same prefixes and leave what the other prefixes stand for. Looking a
prefix up stops at the nearest declaration of it. Looking for a prefix tries every declaration that
gives the namespace and looks the prefix up again. Listing all bindings keeps the first declaration
of each prefix and then drops those that take a binding back. Each of the three tells what the others
tell.
-/

namespace Markup

variable {own outer outer' : List (Option String × String)} {nsPrefix : Option String}
  {uri : String}

/-- The namespace that a prefix, or the default namespace, stands for under declarations, the
nearest first. -/
def boundIn (declared : List (Option String × String)) (nsPrefix : Option String) :
    Option String :=
  if nsPrefix == some "xml" then some xmlNamespace
  else (declared.lookup nsPrefix).filter fun uri => !uri.isEmpty

theorem boundIn_eq (other : nsPrefix ≠ some "xml") :
    boundIn own nsPrefix = (own.lookup nsPrefix).filter fun uri => !uri.isEmpty := by
  rw [boundIn, if_neg (by simpa using other)]

theorem boundIn_eq_some (other : nsPrefix ≠ some "xml") :
    boundIn own nsPrefix = some uri ↔ own.lookup nsPrefix = some uri ∧ uri ≠ "" := by
  rw [boundIn_eq other, Option.filter_eq_some_iff]
  simp

theorem boundIn_append_of_none (hidden : own.lookup nsPrefix = none) :
    boundIn (own ++ outer) nsPrefix = boundIn outer nsPrefix := by
  rw [boundIn, boundIn, List.lookup_append, hidden, Option.none_or]

theorem boundIn_append_of_some (declares : own.lookup nsPrefix = some uri) :
    boundIn (own ++ outer) nsPrefix = boundIn own nsPrefix := by
  rw [boundIn, boundIn, List.lookup_append, declares, Option.some_or]

/-- What a prefix stands for further out, it stands for below declarations that both share. -/
theorem boundIn_append_mono
    (kept : ∀ uri, boundIn outer nsPrefix = some uri → boundIn outer' nsPrefix = some uri) :
    ∀ uri, boundIn (own ++ outer) nsPrefix = some uri →
      boundIn (own ++ outer') nsPrefix = some uri := by
  cases declares : own.lookup nsPrefix with
  | none => rwa [boundIn_append_of_none declares, boundIn_append_of_none declares]
  | some value =>
    rw [boundIn_append_of_some declares, boundIn_append_of_some declares]
    exact fun _ bound => bound

theorem lookup_isSome_iff {pairs : List (Option String × String)} :
    (pairs.lookup nsPrefix).isSome ↔ nsPrefix ∈ pairs.map (·.1) := by
  rw [← not_iff_not, Bool.not_eq_true, Option.isSome_eq_false_iff, Option.isNone_iff_eq_none,
    List.lookup_eq_none_iff]
  simp only [List.mem_map, not_exists, not_and, bne_iff_ne, ne_eq]
  exact forall₂_congr fun pair _ => not_congr eq_comm

/-- Where no key is repeated, looking up is being listed. -/
theorem lookup_eq_some_iff_mem {pairs : List (Option String × String)}
    (single : (pairs.map (·.1)).Nodup) :
    pairs.lookup nsPrefix = some uri ↔ (nsPrefix, uri) ∈ pairs := by
  constructor
  · intro found
    obtain ⟨before, after, split, -⟩ := List.lookup_eq_some_iff.mp found
    simp [split]
  · intro member
    obtain ⟨before, after, rfl⟩ := List.append_of_mem member
    refine List.lookup_eq_some_iff.mpr ⟨before, after, rfl, fun pair earlier => ?_⟩
    rw [List.map_append, List.nodup_append] at single
    have apart := single.2.2 pair.1 (List.mem_map_of_mem earlier) nsPrefix (by simp)
    simpa using apart.symm

namespace Document

variable {doc : Document} {id : NodeId}

theorem namespaceOf?_eq_boundIn : doc.namespaceOf? id = boundIn (doc.declarations id) := rfl

/-! ## The bindings in force -/

/-- Of the pairs with one key the first is kept. -/
theorem firstOfEach_spec (pairs : List (Option String × String)) :
    ((firstOfEach pairs).map (·.1)).Nodup ∧
      ∀ key, (firstOfEach pairs).lookup key = pairs.lookup key := by
  have general : ∀ (rest kept : List (Option String × String)), (kept.map (·.1)).Nodup →
      let all := rest.foldl (fun kept pair =>
        if kept.any (·.1 == pair.1) then kept else kept ++ [pair]) kept
      (all.map (·.1)).Nodup ∧ ∀ key, all.lookup key = (kept ++ rest).lookup key := by
    intro rest
    induction rest with
    | nil => exact fun kept single => ⟨single, fun key => by rw [List.append_nil]; rfl⟩
    | cons pair rest ih =>
      intro kept single
      rw [List.foldl_cons]
      by_cases known : kept.any (·.1 == pair.1) = true
      · rw [if_pos known]
        obtain ⟨single', same⟩ := ih kept single
        refine ⟨single', fun key => ?_⟩
        rw [same, List.lookup_append, List.lookup_append, List.lookup_cons]
        cases here : key == pair.1 with
        | false => rfl
        | true =>
          -- The pair is hidden by the one that was kept.
          obtain rfl := beq_iff_eq.mp here
          have listed : pair.1 ∈ kept.map (·.1) := by simpa using known
          obtain ⟨value, found⟩ := Option.isSome_iff_exists.mp (lookup_isSome_iff.mpr listed)
          rw [found]
          rfl
      · rw [if_neg known]
        have fresh : pair.1 ∉ kept.map (·.1) := by simpa using known
        obtain ⟨single', same⟩ := ih (kept ++ [pair]) (by
          rw [List.map_append, List.map_singleton, List.nodup_append]
          refine ⟨single, List.nodup_singleton _, fun key listed other here => ?_⟩
          obtain rfl := List.mem_singleton.mp here
          rintro rfl
          exact fresh listed)
        refine ⟨single', fun key => ?_⟩
        rw [same, List.append_assoc, List.singleton_append]
  exact general pairs [] List.nodup_nil

theorem nodup_namespaces (doc : Document) (id : NodeId) :
    ((doc.namespaces id).map (·.1)).Nodup :=
  (List.filter_sublist.map _).nodup (firstOfEach_spec _).1

theorem mem_namespaces : (nsPrefix, uri) ∈ doc.namespaces id ↔
    (doc.declarations id).lookup nsPrefix = some uri ∧ uri ≠ "" := by
  obtain ⟨single, same⟩ := firstOfEach_spec (doc.declarations id)
  rw [namespaces, List.mem_filter, ← lookup_eq_some_iff_mem single, same]
  simp

end Document
end Markup

/-! ## Three ways to look namespaces up -/

namespace Markup.Document

variable {doc : Document} {id parent : NodeId} {nsPrefix : Option String} {uri : String}

/-- On the way up from a node, the first declaration of a prefix gives it a namespace. -/
inductive Declares (doc : Document) (nsPrefix : Option String) : NodeId → String → Prop
  | here {id : NodeId} {uri : String}
      (own : (Attribute.bindings (doc.attributes id)).lookup nsPrefix = some uri) :
      Declares doc nsPrefix id uri
  | above {id parent : NodeId} {uri : String}
      (silent : (Attribute.bindings (doc.attributes id)).lookup nsPrefix = none)
      (hung : doc.parent id = some parent) (outer : Declares doc nsPrefix parent uri) :
      Declares doc nsPrefix id uri

/-- The declarations of a node that hangs nowhere are its own. -/
theorem declarations_top (linked : doc.WellLinked) (live : doc.IsLive id)
    (top : doc.parent id = none) :
    doc.declarations id = Attribute.bindings (doc.attributes id) := by
  rw [declarations_eq, HasShape.ancestors_of_top linked live top, List.flatMap_singleton]

theorem lookup_declarations_iff (linked : doc.WellLinked) (live : doc.IsLive id) :
    (doc.declarations id).lookup nsPrefix = some uri ↔ doc.Declares nsPrefix id uri := by
  refine linked.ascent (motive := fun id =>
    (doc.declarations id).lookup nsPrefix = some uri ↔ doc.Declares nsPrefix id uri) ?_ ?_ id live
  · intro id live top
    rw [declarations_top linked live top]
    refine ⟨.here, fun declares => ?_⟩
    cases declares with
    | here own => exact own
    | above silent hung outer =>
      rw [top] at hung
      cases hung
  · intro id parent live liveP hung ih
    rw [declarations_child linked live hung, List.lookup_append]
    cases own : (Attribute.bindings (doc.attributes id)).lookup nsPrefix with
    | some value =>
      rw [Option.some_or]
      constructor
      · rintro ⟨⟩
        exact .here own
      · intro declares
        cases declares with
        | here own' => exact own.symm.trans own'
        | above silent => exact absurd (own.symm.trans silent) nofun
    | none =>
      rw [Option.none_or, ih]
      refine ⟨.above own hung, fun declares => ?_⟩
      cases declares with
      | here own' => exact absurd (own.symm.trans own') nofun
      | above silent hung' outer =>
        obtain rfl := Option.some.inj (hung.symm.trans hung')
        exact outer

theorem namespaceOf?_eq_some_iff (other : nsPrefix ≠ some "xml") :
    doc.namespaceOf? id nsPrefix = some uri ↔
      (doc.declarations id).lookup nsPrefix = some uri ∧ uri ≠ "" := by
  rw [namespaceOf?_eq_boundIn, boundIn_eq_some other]

/-- A prefix that is found for a namespace stands for it, since it is looked up again. -/
theorem namespaceOf?_of_prefixOf? (found : doc.prefixOf? id uri = some nsPrefix) :
    doc.namespaceOf? id nsPrefix = some uri := by
  unfold prefixOf? at found
  split at found
  · rename_i fixed
    cases found
    rw [namespaceOf?_xml, beq_iff_eq.mp fixed]
  · obtain ⟨⟨declared, value⟩, first, rfl⟩ := Option.map_eq_some_iff.mp found
    have checked := List.find?_some first
    simp only [Bool.and_eq_true, beq_iff_eq] at checked
    exact checked.2

/-- If any prefix stands for a namespace, its declaration is among those that are tried. -/
theorem prefixOf?_ne_none (stands : doc.namespaceOf? id nsPrefix = some uri) :
    doc.prefixOf? id uri ≠ none := by
  unfold prefixOf?
  split
  · exact nofun
  · rename_i declared
    have other : nsPrefix ≠ some "xml" := by
      rintro rfl
      rw [namespaceOf?_xml] at stands
      exact declared (beq_iff_eq.mpr (Option.some.inj stands).symm)
    obtain ⟨before, after, split, -⟩ :=
      List.lookup_eq_some_iff.mp ((namespaceOf?_eq_some_iff other).mp stands).1
    rw [ne_eq, Option.map_eq_none_iff, List.find?_eq_none]
    intro missed
    exact missed (nsPrefix, uri) (by simp [split]) (by simp [stands])

/-- The bindings that are listed are those that looking up finds, each prefix once, and looking for
a prefix finds one that stands for the namespace if there is any. What is found is what the nearest
declaration says, unless it takes the binding back. -/
theorem lookups_agree (doc : Document) (id : NodeId) :
    ((doc.namespaces id).map (·.1)).Nodup ∧
    (∀ nsPrefix ≠ some "xml", ∀ uri,
      (nsPrefix, uri) ∈ doc.namespaces id ↔ doc.namespaceOf? id nsPrefix = some uri) ∧
    (∀ uri nsPrefix, doc.prefixOf? id uri = some nsPrefix →
      doc.namespaceOf? id nsPrefix = some uri) ∧
    (∀ uri, doc.prefixOf? id uri = none →
      ∀ nsPrefix, doc.namespaceOf? id nsPrefix ≠ some uri) ∧
    (doc.WellLinked → doc.IsLive id → ∀ nsPrefix ≠ some "xml", ∀ uri,
      doc.namespaceOf? id nsPrefix = some uri ↔ doc.Declares nsPrefix id uri ∧ uri ≠ "") := by
  refine ⟨nodup_namespaces doc id, fun nsPrefix other uri => ?_,
    fun uri nsPrefix => namespaceOf?_of_prefixOf?,
    fun uri missing nsPrefix stands => prefixOf?_ne_none stands missing,
    fun linked live nsPrefix other uri => ?_⟩
  · rw [mem_namespaces, namespaceOf?_eq_some_iff other]
  · rw [namespaceOf?_eq_some_iff other, lookup_declarations_iff linked live]

/-- A default namespace that is taken back further in, and a prefix that is declared twice on one
element and on the element inside it as well. -/
def shadowedSample : Document :=
  (((empty.grow root (.element ⟨none, "r"⟩ (some "d")
    [.declaration none "d", .declaration (some "p") "u", .declaration (some "q") "w"])).grow ⟨2, 0⟩
    (.element ⟨none, "a"⟩ none
      [.declaration none "", .declaration (some "p") "v", .declaration (some "p") "u"])).grow ⟨3, 0⟩
    (.plainElement "b"))

/-- At the innermost element nothing stands for the namespaces that were taken back and hidden. -/
theorem lookups_agree_shadowed :
    shadowedSample.namespaces ⟨4, 0⟩ = [(some "p", "v"), (some "q", "w")] ∧
    (∀ uri, (some "p", uri) ∈ shadowedSample.namespaces ⟨4, 0⟩ ↔
      shadowedSample.Declares (some "p") ⟨4, 0⟩ uri ∧ uri ≠ "") ∧
    shadowedSample.namespaceOf? ⟨4, 0⟩ (some "q") = some "w" ∧
    (∀ nsPrefix, shadowedSample.namespaceOf? ⟨4, 0⟩ nsPrefix ≠ some "u") ∧
    ∀ nsPrefix, shadowedSample.namespaceOf? ⟨4, 0⟩ nsPrefix ≠ some "d" := by
  obtain ⟨-, listed, found, missing, nearest⟩ := lookups_agree shadowedSample ⟨4, 0⟩
  have linked : shadowedSample.WellLinked := by
    have outer := extended_grow wellLinked_empty wellLinked_empty.root_live
      (.element ⟨none, "r"⟩ (some "d")
        [.declaration none "d", .declaration (some "p") "u", .declaration (some "q") "w"])
    have liveR := (outer.live_iff ⟨2, 0⟩).mpr (.inl rfl)
    have middle := extended_grow outer.linked liveR (.element ⟨none, "a"⟩ none
      [.declaration none "", .declaration (some "p") "v", .declaration (some "p") "u"])
    have liveA := (middle.live_iff ⟨3, 0⟩).mpr (.inl rfl)
    exact (extended_grow middle.linked liveA (.plainElement "b")).linked
  have live : shadowedSample.IsLive ⟨4, 0⟩ := by decide
  refine ⟨by decide, fun uri => ?_, found "w" (some "q") (by decide), missing "u" (by decide),
    missing "d" (by decide)⟩
  rw [listed (some "p") (by decide) uri, nearest linked live (some "p") (by decide) uri]

end Markup.Document
