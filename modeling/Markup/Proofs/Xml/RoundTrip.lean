import Mathlib
import Markup.Document.Parse
import Markup.Document.Writer
import Markup.Proofs.Store.Graft
import Markup.Proofs.Xml.Normal

/-!
# The round trip of a root element

The root element of a document that was parsed is written as a text of its own. The strict parser
accepts this text and yields the same tree. The names of the entities that stand for escaped
characters have up to four bytes, which a limit on names has to admit.
-/

namespace Markup

namespace Xml

variable {options wider : ParseOptions} {text : String}

/-! ## Wider limits -/

theorem IsName.mono (named : IsName options text)
    (names : options.maxNameLength ≤ wider.maxNameLength) : IsName wider text :=
  ⟨named.start, named.chars, Nat.le_trans named.short names⟩

theorem IsTag.mono {scope : Scope} {name : QName} {uri : Option String}
    {attributes : List Attribute} (isTag : IsTag options scope name uri attributes)
    (names : options.maxNameLength ≤ wider.maxNameLength) :
    IsTag wider scope name uri attributes :=
  { isTag with
    named := isTag.named.mono names
    listed := fun attr listed =>
      { isTag.listed attr listed with named := (isTag.listed attr listed).named.mono names } }

mutual

theorem Readable.mono (depths : options.maxDepth ≤ wider.maxDepth)
    (names : options.maxNameLength ≤ wider.maxNameLength) (tree : Tree) {depth : Nat}
    {scope : Scope} (readable : Readable options depth scope tree) :
    Readable wider depth scope tree := by
  obtain ⟨kind, children⟩ := tree
  cases kind with
  | element name uri attributes =>
    obtain ⟨shallow, isTag, inside⟩ := readable
    exact ⟨Nat.lt_of_lt_of_le shallow depths, isTag.mono names,
      ReadableAll.mono depths names children inside⟩
  | instruction target data =>
    exact ⟨⟨readable.1.named.mono names, readable.1.free⟩, readable.2⟩
  | _ => exact readable

theorem ReadableAll.mono (depths : options.maxDepth ≤ wider.maxDepth)
    (names : options.maxNameLength ≤ wider.maxNameLength) (trees : List Tree) {depth : Nat}
    {scope : Scope} (readable : ReadableAll options depth scope trees) :
    ReadableAll wider depth scope trees := by
  cases trees with
  | nil => trivial
  | cons tree rest =>
    exact ⟨Readable.mono depths names tree readable.1,
      ReadableAll.mono depths names rest readable.2⟩

end

end Xml

namespace Document

variable {doc : Document} {id : NodeId}

theorem kind_tree (doc : Document) (id : NodeId) : (doc.tree id).kind = doc.kind id := by
  rw [tree]
  cases doc.slots.size <;> rfl

/-- The only element of the top level is the root element. -/
theorem exists_rootElement (linked : doc.WellLinked) {kind : NodeKind} {before after : List Tree}
    {tree : Tree} (shown : doc.tree root = .node kind (before ++ tree :: after))
    (aside : ∀ other ∈ before ++ after, Xml.IsAside other) (isElement : tree.kind.isElement = true) :
    ∃ id ∈ doc.children root, doc.rootElement? = some id ∧ doc.tree id = tree ∧
      ∀ other ∈ doc.children root, other = id ∨ Xml.IsAside (doc.tree other) := by
  rw [linked.tree_eq linked.root_live] at shown
  obtain ⟨-, listed⟩ := Tree.node.inj shown
  obtain ⟨early, others, children, rfl, later⟩ := List.map_eq_append_iff.mp listed
  obtain ⟨id, late, rfl, rfl, rfl⟩ := List.map_eq_cons_iff.mp later
  have aside' : ∀ other ∈ early ++ late, Xml.IsAside (doc.tree other) := by
    intro other member
    apply aside
    rw [← List.map_append]
    exact List.mem_map_of_mem member
  refine ⟨id, by simp [children], ?_, rfl, ?_⟩
  · rw [rootElement?, children, List.find?_append, List.find?_eq_none.mpr]
    · rw [Option.none_or, List.find?_cons_of_pos]
      rwa [← kind_tree]
    · intro other member
      rw [← kind_tree, (aside' other (List.mem_append_left _ member)).1]
      nofun
  · intro other member
    rw [children, List.mem_append, List.mem_cons] at member
    rcases member with member | same | member
    · exact .inr (aside' other (List.mem_append_left _ member))
    · exact .inl same
    · exact .inr (aside' other (List.mem_append_right _ member))

/-- A node right below the document node is written as its tree, without further declarations. -/
theorem toList_writeNode {options : Xml.WriteOptions} (flat : options.indent = false)
    (top : doc.parent id = some root) (shown : (doc.kind root).isElement = false) :
    (doc.writeNode options id).toList = Xml.spell (doc.tree id) := by
  have nothing : doc.inheritedBindings id = [] := by
    rw [inheritedBindings, top, Option.filter_some_neg (by simp [shown])]
  rw [writeNode, nothing, Xml.toList_write flat]

/-- A document that was parsed strictly has a root element, which can be read again and is in normal
form, and no other element beside it. -/
theorem exists_rootElement_of_ofXml {options : Xml.ParseOptions} (strict : options.recover = false)
    {text : String} (parsed : ofXml options text = .ok doc) :
    ∃ id ∈ doc.children root, doc.rootElement? = some id ∧
      (∀ other ∈ doc.children root, other = id ∨ Xml.IsAside (doc.tree other)) ∧
      (doc.kind root).isElement = false ∧ (doc.tree id).kind.isElement = true ∧
      Xml.Readable options 0 .initial (doc.tree id) ∧ Xml.Canonical (doc.tree id) := by
  obtain ⟨draft, read, rfl⟩ := map_eq_ok.mp parsed
  obtain ⟨before, tree, after, nodes, aside, isElement, readable, canonical⟩ :=
    Xml.of_parse strict read
  have shown := tree_ofDraft draft
  have top : ((ofDraft draft).kind root).isElement = false := by
    rw [← kind_tree, shown]
    rfl
  rw [nodes] at shown
  obtain ⟨id, member, found, rfl, others⟩ :=
    exists_rootElement (wellLinked_ofDraft draft) shown aside isElement
  exact ⟨id, member, found, others, top, isElement, readable, canonical⟩

/-- A text that is parsed as one element becomes a document with this element for its root. -/
theorem exists_ofXml_of_parse {options : Xml.ParseOptions} {text : String} {tree : Tree}
    {draft : Xml.DocumentDraft} (isElement : tree.kind.isElement = true)
    (read : Xml.parse options text = .ok draft) (nodes : Xml.Draft.toTrees draft.nodes = [tree]) :
    ∃ doc id, ofXml options text = .ok doc ∧ doc.rootElement? = some id ∧ doc.tree id = tree ∧
      doc.parent id = some root ∧ (doc.kind root).isElement = false := by
  have shown := tree_ofDraft draft
  have top : ((ofDraft draft).kind root).isElement = false := by
    rw [← kind_tree, shown]
    rfl
  rw [nodes] at shown
  have linked := wellLinked_ofDraft draft
  obtain ⟨id, member, found, tree_eq, -⟩ := exists_rootElement linked
    (show _ = Tree.node .document ([] ++ tree :: []) from shown) nofun isElement
  exact ⟨ofDraft draft, id, by rw [ofXml, read]; rfl, found, tree_eq,
    (linked.child linked.root_live member).2, top⟩

/-- The text of a readable element is parsed as a document with this element for its root. -/
theorem exists_ofXml_of_readable (options : Xml.ParseOptions) {text : String} {tree : Tree}
    (room : 4 ≤ options.maxNameLength) (isElement : tree.kind.isElement = true)
    (readable : Xml.Readable options 0 .initial tree) (spelled : text.toList = Xml.spell tree)
    (fits : Text.byteLength text.toList ≤ options.maxTextLength) :
    ∃ doc id, ofXml options text = .ok doc ∧ doc.rootElement? = some id ∧
      doc.tree id = Xml.readBack options tree ∧
      (doc.writeNode {} id).toList = Xml.spell (doc.tree id) := by
  obtain ⟨draft, read, nodes⟩ := Xml.exists_parse room isElement readable spelled fits
  obtain ⟨doc, id, parsed, found, tree_eq, parent, top⟩ :=
    exists_ofXml_of_parse (show (Xml.readBack options tree).kind.isElement = true from isElement)
      read nodes
  exact ⟨doc, id, parsed, found, tree_eq, toList_writeNode rfl parent top⟩

/-! ## The round trip -/

/-- The root element of a document that was parsed strictly is written as a text that is parsed as
a document with the same root element. The limit on names is at least four bytes then, and the limit
on text admits what was written. -/
theorem roundTrip_rootElement {options : Xml.ParseOptions} (strict : options.recover = false)
    {text : String} (parsed : ofXml options text = .ok doc) :
    ∃ id, doc.rootElement? = some id ∧
      ∀ limit, Text.byteLength (doc.writeNode {} id).toList ≤ limit →
        ∃ again other,
          ofXml { options with
            recover := false
            noBlanks := false
            maxNameLength := max options.maxNameLength 4
            maxTextLength := limit } (doc.writeNode {} id) = .ok again ∧
          again.rootElement? = some other ∧ again.tree other = doc.tree id ∧
          again.writeNode {} other = doc.writeNode {} id := by
  obtain ⟨id, member, found, -, top, isElement, readable, canonical⟩ :=
    exists_rootElement_of_ofXml strict parsed
  have linked := wellLinked_ofXml parsed
  have above := (linked.child linked.root_live member).2
  have spelled : (doc.writeNode {} id).toList = Xml.spell (doc.tree id) :=
    toList_writeNode rfl above top
  refine ⟨id, found, fun limit fits => ?_⟩
  let wider : Xml.ParseOptions :=
    { options with
      recover := false
      noBlanks := false
      maxNameLength := max options.maxNameLength 4
      maxTextLength := limit }
  have depths : options.maxDepth ≤ wider.maxDepth := Nat.le_refl _
  have names : options.maxNameLength ≤ wider.maxNameLength := Nat.le_max_left ..
  have readable' := readable.mono depths names
  obtain ⟨again, other, read, root, same, spelled'⟩ :=
    exists_ofXml_of_readable wider (Nat.le_max_right ..) isElement readable' spelled fits
  have tree_eq := same.trans (Xml.readBack_eq_self rfl isElement canonical)
  refine ⟨again, other, read, root, tree_eq, ?_⟩
  rw [← String.toList_inj, spelled', tree_eq, spelled]

/-- An element with an escaped character, read where names have at most one byte. -/
theorem ofXml_ampersand : ofXml { maxNameLength := 1 } "<a>&#38;</a>" =
    .ok (ofDraft ⟨none, none, none, [],
      [.written (.element ⟨none, "a"⟩ none []) [.written (.text "&") []]]⟩) := by
  have read : (Xml.Reader.ofText "<a>&#38;</a>").skipBlanks.skipBlanks.rootElement
      ⟨{ maxNameLength := 1 }, .empty, []⟩ =
      .ok (.written (.element ⟨none, "a"⟩ none []) [.written (.text "&") []],
        ⟨[], ⟨1, 13, 12⟩, none, ⟨[], 0⟩⟩) := by
    cbv
  have start : isNameStart 'a' = true := by decide
  rw [ofXml, Xml.parse_eq_ok start (by rfl) read rfl]
  rfl

/-- With the limits of the first reading alone the round trip fails: the name of an entity that
stands for an escaped character may be longer than the limit admits. -/
theorem writeNode_not_parsed : ∃ doc id, ofXml { maxNameLength := 1 } "<a>&#38;</a>" = .ok doc ∧
    doc.rootElement? = some id ∧ doc.writeNode {} id = "<a>&amp;</a>" ∧
    ∀ limit again, ofXml { maxNameLength := 1, maxTextLength := limit } "<a>&amp;</a>" ≠ .ok again := by
  refine ⟨_, ⟨2, 0⟩, ofXml_ampersand, by decide, by decide, ?_⟩
  intro limit again parsed
  have start : isNameStart 'a' = true := by decide
  have stopped : ((Xml.Reader.ofText "<a>&amp;</a>").skipBlanks.skipBlanks.rootElement
      ⟨{ maxNameLength := 1, maxTextLength := limit }, .empty, []⟩).isOk = false := by
    cbv
  obtain ⟨draft, read, -⟩ := map_eq_ok.mp parsed
  rw [Xml.parse_eq start (by rfl)] at read
  obtain ⟨root, element, -⟩ := bind_eq_ok.mp read
  rw [element] at stopped
  cases stopped

theorem roundTrip_rootElement_ampersand : ∃ doc, ofXml { maxNameLength := 1 } "<a>&#38;</a>" = .ok doc ∧
    ∃ id, doc.rootElement? = some id ∧
      ∀ limit, Text.byteLength (doc.writeNode {} id).toList ≤ limit →
        ∃ again other,
          ofXml { maxNameLength := 4, maxTextLength := limit } (doc.writeNode {} id) = .ok again ∧
          again.rootElement? = some other ∧ again.tree other = doc.tree id ∧
          again.writeNode {} other = doc.writeNode {} id :=
  ⟨_, ofXml_ampersand, roundTrip_rootElement rfl ofXml_ampersand⟩

end Document
end Markup
