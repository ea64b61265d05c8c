import Markup.Proofs.Xml.DocumentTrip
import Markup.Proofs.Xml.Indented

/-!
# The round trip of a document through indentation

A document that was parsed and is written with indentation is read again as a document whose root
element is the indented form of the first one.
-/

namespace Markup

open Xml

namespace Xml

variable {options : WriteOptions} {parse : ParseOptions} {layout : Layout} {tree : Tree}
  {trees : List Tree} {text : String}

theorem IsMisc.canonical (isMisc : IsMisc parse tree) : Canonical tree := by
  obtain ⟨kind, children⟩ := tree
  cases kind with
  | comment => exact isMisc.2
  | instruction => exact isMisc.2.2
  | _ => exact isMisc.elim

theorem IsMisc.indented_eq (isMisc : IsMisc parse tree) : indented options 0 tree = tree := by
  obtain ⟨kind, children⟩ := tree
  cases kind with
  | comment | instruction =>
    obtain rfl := isMisc.2.2
    rfl
  | _ => exact isMisc.elim

namespace Layout

/-- The top level of a document whose root element is indented. -/
def indented (options : WriteOptions) (layout : Layout) : Layout :=
  { layout with root := Xml.indented options 0 layout.root }

theorem IsParsed.indented (parsed : layout.IsParsed parse) (plain : options.IsPlain) :
    (layout.indented options).IsParsed parse :=
  { parsed with
    element := (congrArg NodeKind.isElement (kind_indented _)).trans parsed.element
    readable := parsed.readable.indented plain 0
    canonical := parsed.canonical.indented 0 }

/-- Only the root element is changed by indentation. -/
theorem IsParsed.map_indented (parsed : layout.IsParsed parse) :
    layout.trees.map (Xml.indented options 0) = (layout.indented options).trees := by
  have same : ∀ trees : List Tree, (∀ tree ∈ trees, IsMisc parse tree) →
      trees.map (Xml.indented options 0) = trees := fun trees each =>
    (List.map_congr_left fun tree listed => (each tree listed).indented_eq).trans trees.map_id
  have typed : (typedTrees layout.type).map (Xml.indented options 0) = typedTrees layout.type := by
    cases type : layout.type with
    | none => rfl
    | some found => simp [typedTrees, indented_leaf, same _ (parsed.type found type).2]
  simp only [trees, Layout.indented, List.map_append, List.map_cons, typed, same _ parsed.early,
    same _ parsed.late]

/-- What stands at the top level: the document type, the root element, comments and instructions. -/
theorem IsParsed.cases (parsed : layout.IsParsed parse) (listed : tree ∈ layout.trees) :
    (∃ type : Doctype, tree = .leaf type.kind) ∨ tree = layout.root ∨ IsMisc parse tree := by
  simp only [trees, List.mem_append, List.mem_cons] at listed
  rcases listed with (listed | listed) | rfl | listed
  · exact .inr (.inr (parsed.early tree listed))
  · cases type : layout.type with
    | none =>
      rw [type] at listed
      cases listed
    | some found =>
      rw [type] at listed
      rcases List.mem_cons.mp listed with rfl | listed
      · exact .inl ⟨_, rfl⟩
      · exact .inr (.inr ((parsed.type found type).2 tree listed))
  · exact .inr (.inl rfl)
  · exact .inr (.inr (parsed.late tree listed))

/-- Each node of the top level is written on a line of its own. -/
theorem IsParsed.toList_write (parsed : layout.IsParsed parse) (indents : options.indent = true)
    (plain : options.IsPlain) (listed : tree ∈ layout.trees) :
    (write options 0 true [] tree).toList = spell (Xml.indented options 0 tree) ++ ['\n'] := by
  have onLine (canonical : Canonical tree)
      (solid : isBlankText tree.kind = false ∧ isSolidText tree.kind = false) :
      (write options 0 true [] tree).toList = spell (Xml.indented options 0 tree) ++ ['\n'] := by
    simpa [WriteOptions.margin, WriteOptions.lineEnd] using
      toList_write_indented indents plain 0 true tree canonical fun _ => solid
  rcases parsed.cases listed with ⟨type, rfl⟩ | rfl | isMisc
  · simp [Tree.leaf, Doctype.kind, write, Xml.indented, spell, indentedAll, WriteOptions.breaks,
      WriteOptions.lineEnd, isElementOnly]
  · have isElement := parsed.element
    refine onLine parsed.canonical ?_
    cases kind : layout.root.kind with
    | element => exact ⟨rfl, rfl⟩
    | _ => simp [kind, NodeKind.isElement] at isElement
  · refine onLine isMisc.canonical ?_
    obtain ⟨kind, children⟩ := tree
    cases kind with
    | comment | instruction => exact ⟨rfl, rfl⟩
    | _ => exact isMisc.elim

end Layout

/-- An instruction is not taken for a declaration: its target is another one than `xml`. -/
theorem seesDeclaration_instruction {r : Reader} {target : String} {data : Option String}
    {tail : List Char} (isTarget : IsTarget parse target)
    (spelled : r.rest = (writeLeaf (.instruction target data)).toList ++ tail) :
    r.seesDeclaration = false := by
  obtain ⟨d, after, solid, written⟩ : ∃ d after, isNameChar d = false ∧
      r.rest = "<?".toList ++ (target.toList ++ d :: after) := by
    cases data with
    | none => exact ⟨'?', '>' :: tail, by decide, by simp [spelled, writeLeaf, toString]⟩
    | some data =>
      exact ⟨' ', data.toList ++ "?>".toList ++ tail, by decide,
        by simp [spelled, writeLeaf, toString]⟩
  rw [← Bool.not_eq_true]
  intro sees
  obtain ⟨begins, blank⟩ := (Bool.and_eq_true _ _).mp sees
  obtain ⟨rest, whole⟩ := Reader.startsWith_iff.mp begins
  rw [← whole] at written blank
  -- The name ends where the blank stands, after three letters.
  cases rest with
  | nil => simp at blank
  | cons c rest =>
    have ends : isNameChar c = false := by
      have blank : Text.isAsciiBlank c = true := by simpa using blank
      simp only [Text.isAsciiBlank, Text.isMarkupBlank, Bool.or_eq_true, beq_iff_eq] at blank
      rcases blank with (((rfl | rfl) | rfl) | rfl) | rfl <;> decide
    have letters : 'x' :: 'm' :: 'l' :: c :: rest = target.toList ++ d :: after := by
      simpa using written
    have before : (target.toList ++ d :: after).takeWhile isNameChar = target.toList := by
      rw [List.takeWhile_append_of_pos isTarget.named.chars,
        List.takeWhile_cons_of_neg (by simp [solid]), List.append_nil]
    have three : ('x' :: 'm' :: 'l' :: c :: rest).takeWhile isNameChar = ['x', 'm', 'l'] := by
      rw [List.takeWhile_cons_of_pos (by decide), List.takeWhile_cons_of_pos (by decide),
        List.takeWhile_cons_of_pos (by decide), List.takeWhile_cons_of_neg (by simp [ends])]
    have free := isTarget.free
    rw [← before, ← letters, three] at free
    revert free
    decide

/-- Neither a comment nor a document type is taken for a declaration. -/
theorem seesDeclaration_exclamation {r : Reader} {tail : List Char}
    (spelled : r.rest = '<' :: '!' :: tail) : r.seesDeclaration = false := by
  simp [Reader.seesDeclaration, Reader.startsWith, spelled]

/-- Each node of the top level begins as markup, and not as a declaration. -/
theorem Layout.IsParsed.begins {r : Reader} {tail : List Char} (parsed : layout.IsParsed parse)
    (listed : tree ∈ layout.trees) (spelled : r.rest = spell tree ++ tail) :
    (∃ letters, r.rest = '<' :: letters) ∧ r.seesDeclaration = false := by
  rcases parsed.cases listed with ⟨type, rfl⟩ | rfl | isMisc
  · obtain ⟨letters, begins⟩ : ∃ letters, spell (.leaf type.kind) = '<' :: '!' :: letters := by
      rw [spell_doctype]
      simp [writeLeaf, Doctype.kind, toString]
    rw [begins] at spelled
    exact ⟨⟨_, spelled⟩, seesDeclaration_exclamation spelled⟩
  · obtain ⟨c, letters, begins, start⟩ := exists_cons_of_readable parsed.element parsed.readable
    rw [begins] at spelled
    exact ⟨⟨_, spelled⟩, by rw [Reader.seesDeclaration, (startsWith_element start spelled).1]; rfl⟩
  · obtain ⟨kind, children⟩ := tree
    cases kind with
    | comment content =>
      rw [spell_comment] at spelled
      exact ⟨⟨_, spelled⟩, seesDeclaration_exclamation spelled⟩
    | instruction target data =>
      obtain ⟨letters, begins⟩ := isMisc.exists_cons
      refine ⟨⟨_, by rw [spelled, begins]; rfl⟩, ?_⟩
      rw [spell_instruction] at spelled
      exact seesDeclaration_instruction isMisc.1 spelled
    | _ => exact isMisc.elim

/-- No declaration is read where a line of a document comes first. -/
theorem head_of_lines (parsed : layout.IsParsed parse)
    (spelled : '\n' :: text.toList = spellLines layout.trees ++ ['\n']) :
    ∃ next, (Reader.ofText text).head = .ok (none, next) ∧ next.skipBlanks.rest = text.toList := by
  obtain ⟨tree, listed, tail, whole⟩ : ∃ tree ∈ layout.trees, ∃ tail,
      text.toList = spell tree ++ tail := by
    cases trees : layout.trees with
    | nil => simp [Layout.trees] at trees
    | cons tree rest =>
      rw [trees] at spelled
      exact ⟨tree, List.mem_cons_self, spellLines rest ++ ['\n'], by simpa using spelled⟩
  have rest : (Reader.ofText text).rest = spell tree ++ tail := whole
  obtain ⟨⟨letters, first⟩, undeclared⟩ := parsed.begins listed rest
  have second := (Reader.rest_skipBlanks_cons first (by decide)).trans first
  refine ⟨_, ?_, (Reader.rest_skipBlanks_cons second (by decide)).trans (second.trans first.symm)⟩
  rw [Reader.head, if_neg (by simp [undeclared]), if_neg]
  simp [Reader.seesBlank, first, Text.isMarkupBlank]

end Xml

namespace Document

variable {doc : Document} {options : WriteOptions} {parse : ParseOptions} {layout : Layout}
  {trees : List Tree} {text unit : String}

/-! ## What is written -/

/-- Each node of the top level is written on a line of its own, with a line end after it. -/
theorem cons_writeTop (indents : options.indent = true)
    (each : ∀ tree ∈ trees,
      (Xml.write options 0 true [] tree).toList = spell (indented options 0 tree) ++ ['\n']) :
    '\n' :: (writeTop options trees).toList =
      spellLines (trees.map (indented options 0)) ++ ['\n'] := by
  induction trees with
  | nil => rfl
  | cons tree rest ih =>
    obtain ⟨first, others⟩ := List.forall_mem_cons.mp each
    have ih := ih others
    simp [writeTop, indents, first, ← ih]

/-- A document is written with indentation, and without its declaration, as the lines of its
indented form. -/
theorem cons_write_indented (parsed : layout.IsParsed parse)
    (shown : (doc.tree root).children = layout.trees) (indents : options.indent = true)
    (bare : options.declaration = false) (plain : options.IsPlain) :
    '\n' :: (doc.write options).toList =
      spellLines (layout.indented options).trees ++ ['\n'] := by
  have lines := cons_writeTop indents fun _ listed => parsed.toList_write indents plain listed
  rw [parsed.map_indented] at lines
  have ends : (writeTop options layout.trees).endsWith '\n' = true := by
    rw [String.endsWith_char_eq_getLast?]
    cases trees : (layout.indented options).trees with
    | nil => simp [Layout.trees] at trees
    | cons tree rest =>
      rw [trees, spellLines_cons] at lines
      simp [(List.cons.inj lines).2]
  rw [← lines, write, shown, bare]
  simp [ends]

/-! ## The round trip -/

/-- How a document is written without its declaration and with lines that are indented by some unit
at each level. -/
def indenting (unit : String) : WriteOptions := { indent := true, unit, declaration := false }

theorem exists_rootElement_of_layout {draft : DocumentDraft} (parsed : layout.IsParsed parse)
    (nodes : Draft.toTrees draft.nodes = layout.trees) :
    ∃ id, (ofDraft draft).rootElement? = some id ∧ (ofDraft draft).tree id = layout.root := by
  have shown : (ofDraft draft).tree root = .node .document
      ((layout.early ++ typedTrees layout.type) ++ layout.root :: layout.late) :=
    (tree_ofDraft draft).trans (congrArg _ nodes)
  obtain ⟨id, -, found, same, -⟩ :=
    exists_rootElement (wellLinked_ofDraft draft) shown parsed.isAside parsed.element
  exact ⟨id, found, same⟩

/-- A document that is written with indentation is read again with an indented root element. -/
theorem exists_indented (strict : parse.recover = false) (parsed : ofXml parse text = .ok doc)
    (quotable : doc.IsQuotable) (plain : (indenting unit).IsPlain) {limit : Nat}
    (fits : Text.byteLength (doc.write (indenting unit)).toList ≤ limit) :
    ∃ again id other, ofXml (parse.rereading limit) (doc.write (indenting unit)) = .ok again ∧
      doc.rootElement? = some id ∧ again.rootElement? = some other ∧ Canonical (doc.tree id) ∧
      again.tree other = indented (indenting unit) 0 (doc.tree id) := by
  obtain ⟨draft, read, rfl⟩ := map_eq_ok.mp parsed
  obtain ⟨layout, isParsed, nodes, -⟩ := exists_layout strict read
  have wide : layout.IsParsed (parse.rereading limit) :=
    isParsed.mono (Nat.le_refl _) (Nat.le_max_left ..)
  have quoted : ∀ found ∈ layout.type, found.1.IsQuotable := by
    rwa [isQuotable_ofDraft, nodes, isParsed.isQuotable_iff] at quotable
  have lines := cons_write_indented wide
    ((congrArg Tree.children (tree_ofDraft draft)).trans nodes) rfl rfl plain
  have wide' := wide.indented plain
  obtain ⟨next, headed, rest⟩ := head_of_lines wide' lines
  obtain ⟨redraft, reread, renodes, -⟩ := exists_parse_of_lines wide' quoted
    (Nat.le_max_right ..) rfl headed (rest ▸ lines) fits
  obtain ⟨id, found, same⟩ := exists_rootElement_of_layout isParsed nodes
  obtain ⟨other, found', same'⟩ := exists_rootElement_of_layout wide' renodes
  refine ⟨ofDraft redraft, id, other, map_eq_ok.mpr ⟨_, reread, rfl⟩, found, found', ?_, ?_⟩
  · rw [same]
    exact isParsed.canonical
  · rw [same, same']
    rfl

/-- A document that was parsed strictly is written with indentation as a text that is parsed
strictly again, if the identifiers of its document type, where it has one, can stand between double
quotes. Its root element is the same then, apart from the blanks of markup between elements, if and
only if all text that is blank between elements is made of them. -/
theorem roundTrip_indented (strict : parse.recover = false) (parsed : ofXml parse text = .ok doc)
    (quotable : doc.IsQuotable) (plain : ∀ c ∈ unit.toList, c = ' ' ∨ c = '\t') {limit : Nat}
    (fits : Text.byteLength (doc.write (indenting unit)).toList ≤ limit) :
    ∃ again id other, ofXml (parse.rereading limit) (doc.write (indenting unit)) = .ok again ∧
      doc.rootElement? = some id ∧ again.rootElement? = some other ∧
      (closedUp (again.tree other) = closedUp (doc.tree id) ↔ KeepsText (doc.tree id)) := by
  have plain : (indenting unit).IsPlain := plain
  obtain ⟨again, id, other, read, found, found', canonical, same⟩ :=
    exists_indented strict parsed quotable plain fits
  exact ⟨again, id, other, read, found, found',
    by rw [same, closedUp_indented_iff plain canonical]⟩

/-! ## An element with text after the last element in it -/

/-- An element with another one below it, and with text after that. -/
def trailed (content : String) : Tree :=
  .node (.element ⟨none, "a"⟩ none [])
    [.leaf (.element ⟨none, "b"⟩ none []), .leaf (.text content)]

theorem isParsed_trailed {content : String} (legal : IsLegal content.toList)
    (nonempty : content.toList ≠ []) : Layout.IsParsed {} ⟨[], none, trailed content, []⟩ := by
  have isTag : ∀ name ∈ ["a", "b"], IsTag {} .initial ⟨none, name⟩ none [] := by
    intro name listed
    have named : IsName {} (QName.toText ⟨none, name⟩) ∧
        QName.ofText (QName.toText ⟨none, name⟩) = ⟨none, name⟩ := by
      rcases List.mem_pair.mp listed with rfl | rfl <;>
        exact ⟨⟨by decide, List.all_eq_true.mp (by decide), by decide⟩, by decide⟩
    exact ⟨named.1, named.2, rfl, nofun, nofun, List.nodup_nil⟩
  have readable : Readable {} 0 .initial (trailed content) :=
    ⟨by decide, isTag "a" (by decide), ⟨by decide, isTag "b" (by decide), trivial⟩, legal, trivial⟩
  have canonical : Canonical (trailed content) :=
    ⟨⟨⟨trivial, .nil⟩, ⟨nonempty, rfl⟩, trivial⟩,
      List.isChain_cons_cons.mpr ⟨.inl rfl, .singleton _⟩⟩
  exact ⟨nofun, nofun, rfl, readable, canonical, nofun⟩

/-- An element is parsed that has text after the last element in it, and is written on lines of its
own. -/
theorem exists_ofXml_trailed {content : String} (legal : IsLegal content.toList)
    (nonempty : content.toList ≠ []) (spelled : text.toList = spell (trailed content))
    (fits : Text.byteLength text.toList ≤ ({} : ParseOptions).maxTextLength)
    (plain : (indenting unit).IsPlain) :
    ∃ doc id, ofXml {} text = .ok doc ∧ doc.IsQuotable ∧
      doc.rootElement? = some id ∧ doc.tree id = trailed content ∧
      (doc.write (indenting unit)).toList =
        spell (indented (indenting unit) 0 (trailed content)) ++ ['\n'] := by
  have parsed := isParsed_trailed legal nonempty
  obtain ⟨draft, read, nodes⟩ := exists_parse (by decide) rfl parsed.readable spelled fits
  rw [readBack_eq_self rfl rfl parsed.canonical] at nodes
  have shown := tree_ofDraft draft
  rw [nodes] at shown
  obtain ⟨id, found, same⟩ := exists_rootElement_of_layout parsed nodes
  refine ⟨ofDraft draft, id, map_eq_ok.mpr ⟨_, read, rfl⟩, (isQuotable_ofDraft draft).mpr ?_, found,
    same, ?_⟩
  · rw [nodes]
    exact List.forall_mem_singleton.mpr trivial
  · have lines := cons_write_indented parsed (congrArg Tree.children shown) rfl rfl plain
    simpa [Layout.trees, Layout.indented, typedTrees] using lines

/-- A space before an end tag may go. -/
theorem roundTrip_indented_space : ∃ doc, ofXml {} "<a><b/> </a>" = .ok doc ∧
    ∃ again id other, ofXml (ParseOptions.rereading {} 100) (doc.write (indenting "\t")) =
        .ok again ∧
      doc.rootElement? = some id ∧ again.rootElement? = some other ∧
      (closedUp (again.tree other) = closedUp (doc.tree id) ↔ KeepsText (doc.tree id)) := by
  have legal : IsLegal " ".toList := List.all_eq_true.mp (by decide)
  have spelled : "<a><b/> </a>".toList = spell (trailed " ") := by cbv
  have plain : ∀ c ∈ "\t".toList, c = ' ' ∨ c = '\t' := by simp
  obtain ⟨doc, -, parsed, quotable, -, -, written⟩ :=
    exists_ofXml_trailed legal (by decide) spelled (by decide) plain
  have fits : Text.byteLength (doc.write (indenting "\t")).toList ≤ 100 := by
    rw [written]
    decide
  exact ⟨doc, parsed, roundTrip_indented rfl parsed quotable plain fits⟩

/-- A no-break space before an end tag is lost: it is blank, but no blank of markup. -/
theorem indented_loses_text : ∃ doc again id other, ofXml {} "<a><b/>\u00a0</a>" = .ok doc ∧
    doc.write (indenting "  ") = "<a>\n  <b/>\n</a>\n" ∧
    ofXml {} "<a>\n  <b/>\n</a>\n" = .ok again ∧
    doc.rootElement? = some id ∧ again.rootElement? = some other ∧
    closedUp (again.tree other) ≠ closedUp (doc.tree id) := by
  have legal : IsLegal "\u00a0".toList := List.all_eq_true.mp (by decide)
  have spelled : "<a><b/>\u00a0</a>".toList = spell (trailed "\u00a0") := by cbv
  have plain : (indenting "  ").IsPlain := show ∀ c ∈ "  ".toList, c = ' ' ∨ c = '\t' by simp
  obtain ⟨doc, top, parsed, quotable, first, shown, written⟩ :=
    exists_ofXml_trailed legal (by decide) spelled (by decide) plain
  have written : doc.write (indenting "  ") = "<a>\n  <b/>\n</a>\n" := by
    rw [← String.toList_inj, written]
    rfl
  have fits : Text.byteLength (doc.write (indenting "  ")).toList ≤
      ({} : ParseOptions).maxTextLength := by
    rw [written]
    decide
  obtain ⟨again, id, other, read, found, found', canonical, same⟩ :=
    exists_indented rfl parsed quotable plain fits
  rw [written] at read
  refine ⟨doc, again, id, other, parsed, written, read, found, found', ?_⟩
  obtain rfl := Option.some.inj (first.symm.trans found)
  rw [same, Ne, closedUp_indented_iff plain canonical, shown]
  exact fun keeps => absurd (keeps.1 (by decide)) (by decide)

end Document
end Markup
