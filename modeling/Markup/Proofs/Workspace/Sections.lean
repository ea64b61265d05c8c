import Markup.Proofs.Workspace.Fragment

/-!
# Sections without loss

A CDATA node is written as several sections where its content holds the end of a section. Read
again, the sections are nodes of their own, and their contents one after the other are the content
of the node.
-/

namespace Markup

namespace Xml

variable {options : ParseOptions}

/-! ## What stands in the sections -/

/-- The contents of the sections that a CDATA node is written as. -/
def sectionParts (text : List Char) : List (List Char) :=
  (sections text).1 :: (sections text).2

/-- Cutting content into sections leaves nothing out and adds nothing. -/
theorem flatten_sectionParts (text : List Char) : (sectionParts text).flatten = text := by
  rw [sectionParts, List.flatten_cons]
  fun_induction sections text with
  | case1 rest ih => simp only [List.flatten_cons, List.cons_append, ih, List.nil_append]
  | case2 c rest other ih => rw [List.cons_append, ih]
  | case3 => rfl

theorem subset_of_mem_sectionParts {text part : List Char} (listed : part ∈ sectionParts text) :
    part ⊆ text :=
  fun _ within => flatten_sectionParts text ▸ List.mem_flatten_of_mem listed within

/-- The node that a section is read as. -/
def sectionTree (part : List Char) : Tree := .leaf (.cdata (String.ofList part))

theorem Progress.shown_sections (options : ParseOptions) (progress : Progress)
    {parts : List (List Char)} (plain : ∀ part ∈ parts, '\r' ∉ part) :
    (parts.foldl (fun progress part =>
      progress.push options (.written (.cdata (String.ofList (lineEnds part))) []))
      progress).shown options = progress.shown options ++ parts.map sectionTree := by
  induction parts generalizing progress with
  | nil => exact (List.append_nil _).symm
  | cons part others ih =>
    obtain ⟨first, later⟩ := List.forall_mem_cons.mp plain
    rw [List.foldl_cons, ih _ later, shown_push, lineEnds_eq_self first, List.append_assoc]
    rfl

/-! ## An element with sections in it -/

/-- Beside character data nothing is indented. -/
theorem toList_write_cdata (layout : WriteOptions) {kind : NodeKind}
    (isElement : kind.isElement = true) (content : String) :
    (write layout 0 false [] (.node kind [.leaf (.cdata content)])).toList =
      spell (.node kind [.leaf (.cdata content)]) := by
  obtain ⟨name, uri, attributes, rfl⟩ := NodeKind.exists_of_isElement isElement
  have flat : ({} : WriteOptions).indent = false := rfl
  rw [← toList_write flat 0]
  simp [write, writeAll, isElementOnly, Tree.leaf, Tree.kind, NodeKind.isElement,
    WriteOptions.margin]

/-- An element with one CDATA node in it is read back with several. There is no limit on how long
the content of the node is. -/
theorem exists_parse_cdata {text content : String} {kind : NodeKind}
    (room : 4 ≤ options.maxNameLength) (isElement : kind.isElement = true)
    (readable : Readable options 0 .initial (.leaf kind)) (legal : IsLegal content.toList)
    (plain : '\r' ∉ content.toList)
    (spelled : text.toList = spell (.node kind [.leaf (.cdata content)])) :
    ∃ draft, parse options text = .ok draft ∧
      Draft.toTrees draft.nodes = [.node kind ((sectionParts content.toList).map sectionTree)] := by
  obtain ⟨name, uri, attributes, rfl⟩ := NodeKind.exists_of_isElement isElement
  obtain ⟨shallow, isTag, -⟩ := readable
  have whole : Readable options 0 .initial
      (.node (.element name uri attributes) [.leaf (.cdata content)]) :=
    ⟨shallow, isTag, legal, trivial⟩
  obtain ⟨c, rest, begins, start⟩ := exists_cons_of_readable rfl whole
  have begins' := spelled.trans begins
  have spelled' : (Reader.ofText text).skipBlanks.skipBlanks.rest =
      writtenHead name attributes ++ (writtenEnd false ++ (spellAll [.leaf (.cdata content)] ++
        ("</".toList ++ name.toText.toList ++ '>' :: []))) := by
    rw [rest_beforeRoot begins', spelled, Reader.spell_element]
  obtain ⟨first, others⟩ := isSection_sections legal
  obtain ⟨last, read, ends⟩ := Reader.exists_rootElement_of_goOn ⟨options, .empty, []⟩ room shallow
    isTag (fun opened inside => Reader.goOn_sections first others
      (by rw [inside, spellAll, spellAll, List.append_nil, Tree.leaf, Reader.spell_cdata])) spelled'
  refine ⟨_, parse_eq_ok start begins' read ends, ?_⟩
  have shown := Progress.shown_sections options .start
    fun part listed within => plain (subset_of_mem_sectionParts listed within)
  rw [Progress.shown_start, List.nil_append, Progress.shown] at shown
  rw [← shown]
  rfl

end Xml

namespace Document

open Xml

variable {doc : Document} {id : NodeId} {options : ParseOptions}

/-- An element that holds nothing but a CDATA node is written, in any layout, as a text that is
parsed as the same element with one or more CDATA nodes in it, which hold the same content between
them. The content may be any legal text without carriage returns, and the element any whose tag can
be read where it stands alone. -/
theorem roundTrip_sections (layout : WriteOptions) (room : 4 ≤ options.maxNameLength)
    {kind : NodeKind} {content : String} (isElement : kind.isElement = true)
    (shown : doc.tree id = .node kind [.leaf (.cdata content)])
    (readable : Readable options 0 .initial (.leaf (doc.fragment id).kind))
    (legal : IsLegal content.toList) (plain : '\r' ∉ content.toList) :
    ∃ again other parts, ofXml options (doc.writeNode layout id) = .ok again ∧
      again.rootElement? = some other ∧
      again.tree other = .node (doc.fragment id).kind (parts.map fun part => .leaf (.cdata part)) ∧
      parts ≠ [] ∧ String.join parts = content := by
  have fragment_eq : doc.fragment id = .node (doc.fragment id).kind [.leaf (.cdata content)] := by
    rw [fragment, shown]
    rfl
  have isElement' : (doc.fragment id).kind.isElement = true := by
    obtain ⟨name, uri, attributes, rfl⟩ := NodeKind.exists_of_isElement isElement
    rw [fragment, shown]
    rfl
  have spelled : (doc.writeNode layout id).toList =
      spell (.node (doc.fragment id).kind [.leaf (.cdata content)]) := by
    rw [writeNode_eq, fragment_eq]
    exact toList_write_cdata layout isElement' content
  obtain ⟨draft, read, nodes⟩ := exists_parse_cdata room isElement' readable legal plain spelled
  obtain ⟨again, other, parsed, found, tree_eq, -, -⟩ :=
    exists_ofXml_of_parse (by exact isElement') read nodes
  refine ⟨again, other, (sectionParts content.toList).map String.ofList, parsed, found, ?_,
    List.cons_ne_nil _ _, ?_⟩
  · rw [tree_eq, List.map_map]
    rfl
  · rw [← String.toList_inj, String.toList_join, List.flatMap_map]
    simpa using flatten_sectionParts content.toList

/-- Brackets next to the ends of sections, which are cut twice. -/
theorem roundTrip_sections_brackets : ∃ (doc : Document) (id : NodeId) (again : Document)
    (other : NodeId) (parts : List String),
    doc.tree id = .node (.plainElement "a") [.leaf (.cdata "]]]>]]>>")] ∧
      doc.writeNode {} id = "<a><![CDATA[]]]]]><![CDATA[>]]]]><![CDATA[>>]]></a>" ∧
      ofXml {} (doc.writeNode {} id) = .ok again ∧ again.rootElement? = some other ∧
      again.tree other = .node (.plainElement "a") (parts.map fun part => .leaf (.cdata part)) ∧
      parts ≠ [] ∧ String.join parts = "]]]>]]>>" := by
  let doc := ofDraft ⟨none, none, none, [],
    [.written (.plainElement "a") [.written (.cdata "]]]>]]>>") []]]⟩
  have shown : doc.tree ⟨2, 0⟩ = .node (.plainElement "a") [.leaf (.cdata "]]]>]]>>")] := rfl
  have isTag : IsTag {} .initial ⟨none, "a"⟩ none [] := {
    named := ⟨by decide, List.all_eq_true.mp (by decide), by decide⟩
    split := by decide
    uri_eq := rfl
    bound := nofun
    listed := nofun
    distinct := List.nodup_nil }
  have readable : Readable {} 0 .initial (.leaf (doc.fragment ⟨2, 0⟩).kind) :=
    ⟨by decide, isTag, trivial⟩
  have legal : IsLegal "]]]>]]>>".toList := List.all_eq_true.mp (by decide)
  obtain ⟨again, other, parts, read, found, tree_eq, several, joined⟩ :=
    roundTrip_sections {} (by decide) rfl shown readable legal (by decide)
  exact ⟨doc, ⟨2, 0⟩, again, other, parts, shown, by decide, read, found, tree_eq, several, joined⟩

end Document
end Markup
