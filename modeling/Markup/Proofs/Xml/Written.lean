import Markup.Proofs.Xml.Normal
import Markup.Proofs.Xml.Recovery
import Markup.Proofs.Xml.Replacement

/-!
# Parsing what was written for a document

A document is written as its declaration and the nodes of its top level, each on a line of its own.
The parser accepts this text and yields the same nodes, unless an identifier of the document type
has a double quote in it: then it does not yield the same document type, if it accepts the text at
all.
-/

namespace Markup.Xml

/-- Nodes as they are written, each on a line of its own. -/
def spellLines (trees : List Tree) : List Char := trees.flatMap fun tree => '\n' :: spell tree

@[simp] theorem spellLines_append (trees others : List Tree) :
    spellLines (trees ++ others) = spellLines trees ++ spellLines others :=
  List.flatMap_append

@[simp] theorem spellLines_cons (tree : Tree) (trees : List Tree) :
    spellLines (tree :: trees) = '\n' :: spell tree ++ spellLines trees :=
  List.flatMap_cons

@[simp] theorem spellLines_nil : spellLines [] = [] := rfl

theorem spell_doctype (type : Doctype) :
    spell (.leaf type.kind) = (writeLeaf type.kind).toList := by
  simp [Tree.leaf, Doctype.kind, spell]

theorem spell_comment (content : String) (children : List Tree) :
    spell (.node (.comment content) children) =
      "<!--".toList ++ content.toList ++ "-->".toList := by
  simp [spell, writeLeaf, toString]

theorem spell_instruction (target : String) (data : Option String) (children : List Tree) :
    spell (.node (.instruction target data) children) =
      (writeLeaf (.instruction target data)).toList := by
  rw [spell] <;> nofun

theorem IsMisc.exists_cons {options : ParseOptions} {tree : Tree} (isMisc : IsMisc options tree) :
    ∃ rest, spell tree = '<' :: rest := by
  obtain ⟨kind, children⟩ := tree
  cases kind with
  | comment content => exact ⟨_, spell_comment content children⟩
  | instruction target data =>
    rw [spell_instruction]
    cases data <;> simp [writeLeaf, toString]
  | _ => exact isMisc.elim

/-- Text that begins neither with a blank nor with a comment or an instruction. -/
structure IsBeyondMisc (text : List Char) : Prop where
  solid : ∀ c ∈ text.head?, Text.isMarkupBlank c = false
  comment : ¬ "<!--".toList <+: text
  instruction : ¬ "<?".toList <+: text

namespace IsBeyondMisc

variable {options : ParseOptions} {root : Tree}

theorem nil : IsBeyondMisc [] := ⟨nofun, by simp, by simp⟩

theorem element (isElement : root.kind.isElement = true)
    (readable : Readable options 0 .initial root) (tail : List Char) :
    IsBeyondMisc (spell root ++ tail) := by
  obtain ⟨c, rest, begins, start⟩ := exists_cons_of_readable isElement readable
  have other := ne_of_isNameStart start
  refine ⟨?_, ?_, ?_⟩
  · simp [begins]
    decide
  · simp [begins, (other '!' (by decide)).symm]
  · simp [begins, (other '?' (by decide)).symm]

theorem doctype (type : Doctype) (tail : List Char) :
    IsBeyondMisc (spell (.leaf type.kind) ++ tail) := by
  rw [spell_doctype]
  refine ⟨?_, ?_, ?_⟩
  · simp [writeLeaf, Doctype.kind, toString]
    decide
  · simp [writeLeaf, Doctype.kind, toString]
  · simp [writeLeaf, Doctype.kind, toString]

end IsBeyondMisc

namespace Reader

variable {r next : Reader} {options : ParseOptions} {tail : List Char}
  {trees : List Tree} {tree : Tree}

theorem skipBlanks_line (r : Reader) {tail : List Char} (spelled : r.rest = '\n' :: tail)
    (solid : ∀ c ∈ tail.head?, Text.isMarkupBlank c = false) : r.skipBlanks.rest = tail := by
  rw [skipBlanks_rest, spelled, List.dropWhile_cons_of_pos (by decide)]
  cases tail with
  | nil => rfl
  | cons c rest => rw [List.dropWhile_cons_of_neg (by simp [solid c rfl])]

/-- Before comments, instructions or other markup, each on a line of its own, no blank but the line
end is skipped. -/
theorem skipBlanks_lines (each : ∀ tree ∈ trees, IsMisc options tree) (beyond : IsBeyondMisc tail)
    (spelled : r.rest = spellLines trees ++ '\n' :: tail) : '\n' :: r.skipBlanks.rest = r.rest := by
  have begins : ∃ line, spellLines trees ++ '\n' :: tail = '\n' :: line ∧
      ∀ c ∈ line.head?, Text.isMarkupBlank c = false := by
    cases trees with
    | nil => exact ⟨tail, rfl, beyond.solid⟩
    | cons tree trees =>
      obtain ⟨rest, opens⟩ := (each tree List.mem_cons_self).exists_cons
      refine ⟨spell tree ++ (spellLines trees ++ '\n' :: tail), by simp, ?_⟩
      rw [opens]
      rintro c ⟨⟩
      decide
  obtain ⟨line, whole, solid⟩ := begins
  rw [spelled, whole, skipBlanks_line r (spelled.trans whole) solid]

/-- Comments and instructions are read back as they are written, up to the end of the text or to
other markup. What blanks there are before the first of them does not matter. -/
theorem exists_misc_lines (before : List Draft) (each : ∀ tree ∈ trees, IsMisc options tree)
    (beyond : IsBeyondMisc tail)
    (spelled : '\n' :: r.skipBlanks.rest = spellLines trees ++ '\n' :: tail) :
    ∃ after next, misc options r before = .ok (after, next) ∧ next.rest = tail ∧
      after.map Draft.toTree = trees.reverse ++ before.map Draft.toTree := by
  induction trees generalizing r before with
  | nil =>
    have rest : r.skipBlanks.rest = tail := (List.cons.inj spelled).2
    refine ⟨before, r.skipBlanks, misc_eq_ok ?_ ?_, rest, rfl⟩
    · rw [← Bool.not_eq_true, startsWith_iff, rest]
      exact beyond.comment
    · rw [← Bool.not_eq_true, startsWith_iff, rest]
      exact beyond.instruction
  | cons tree trees ih =>
    obtain ⟨isMisc, others⟩ := List.forall_mem_cons.mp each
    have rest : r.skipBlanks.rest = spell tree ++ (spellLines trees ++ '\n' :: tail) := by
      simpa using spelled
    obtain ⟨kind, children⟩ := tree
    cases kind with
    | comment content =>
      obtain ⟨within, plain, rfl⟩ := isMisc
      rw [spell_comment] at rest
      have begins : r.skipBlanks.startsWith "<!--" = true :=
        startsWith_iff.mpr (by simp [rest])
      obtain ⟨middle, read, rest⟩ := exists_comment options within rest
      rw [lineEnds_eq_self plain, String.ofList_toList] at read
      obtain ⟨after, next, reads, ends, shown⟩ :=
        ih _ others ((skipBlanks_lines others beyond rest).trans rest)
      refine ⟨after, next, ?_, ends, ?_⟩
      · rw [misc_eq, if_pos begins]
        exact bind_eq_ok.mpr ⟨_, read, reads⟩
      · rw [shown]
        simp [Draft.toTree, Draft.toTrees]
    | instruction target data =>
      obtain ⟨isTarget, within, rfl⟩ := isMisc
      rw [spell_instruction] at rest
      obtain ⟨other, begins, middle, read, rest⟩ := exists_writtenInstruction isTarget within rest
      obtain ⟨after, next, reads, ends, shown⟩ :=
        ih _ others ((skipBlanks_lines others beyond rest).trans rest)
      refine ⟨after, next, ?_, ends, ?_⟩
      · rw [misc_eq, if_neg (by simp [other]), if_pos begins]
        exact bind_eq_ok.mpr ⟨_, read, reads⟩
      · rw [shown]
        simp [Draft.toTree, Draft.toTrees]
    | _ => exact isMisc.elim

theorem exists_misc (before : List Draft) (each : ∀ tree ∈ trees, IsMisc options tree)
    (beyond : IsBeyondMisc tail) (spelled : r.rest = spellLines trees ++ '\n' :: tail) :
    ∃ after next, misc options r before = .ok (after, next) ∧ next.rest = tail ∧
      after.map Draft.toTree = trees.reverse ++ before.map Draft.toTree :=
  exists_misc_lines before each beyond ((skipBlanks_lines each beyond spelled).trans spelled)

/-- The line of a document type begins with its declaration. -/
theorem rest_doctype {type : Doctype} {middle : List Tree} (spelled : '\n' :: r.rest =
      spellLines (typedTrees (some (type, middle))) ++ tail) :
    r.startsWith "<!DOCTYPE" = true ∧
      r.rest = (writeLeaf type.kind).toList ++ (spellLines middle ++ tail) := by
  have rest : r.rest = (writeLeaf type.kind).toList ++ (spellLines middle ++ tail) := by
    rw [← spell_doctype]
    simpa [typedTrees] using spelled
  refine ⟨startsWith_iff.mpr ?_, rest⟩
  rw [rest]
  simp [writeLeaf, Doctype.kind, toString]

/-- The document type is read back as it is written, up to the root element. -/
theorem exists_typeDeclaration (before : List Draft) {type : Option (Doctype × List Tree)}
    {root : Tree}
    (declared : ∀ found ∈ type,
      found.1.IsDeclared options ∧ ∀ tree ∈ found.2, IsMisc options tree)
    (quotable : ∀ found ∈ type, found.1.IsQuotable) (isElement : root.kind.isElement = true)
    (readable : Readable options 0 .initial root)
    (spelled : '\n' :: r.rest = spellLines (typedTrees type) ++ '\n' :: (spell root ++ tail)) :
    ∃ after table next, r.typeDeclaration options before = .ok ((after, table), next) ∧
      next.rest = spell root ++ tail ∧
      after.map Draft.toTree = (typedTrees type).reverse ++ before.map Draft.toTree := by
  obtain ⟨c, rest, begins, start⟩ := exists_cons_of_readable isElement readable
  cases type with
  | none =>
    have spelled' : r.rest = spell root ++ tail := (List.cons.inj spelled).2
    have untyped : r.startsWith "<!DOCTYPE" = false :=
      (startsWith_element start (by rw [spelled', begins]; rfl)).2.2.2
    exact ⟨before, .empty, r, by rw [typeDeclaration, if_neg (by simp [untyped])], spelled', rfl⟩
  | some found =>
    obtain ⟨type, middle⟩ := found
    obtain ⟨declared, each⟩ := declared _ rfl
    obtain ⟨typed, spelled'⟩ := rest_doctype spelled
    obtain ⟨table, first, read, rest⟩ := exists_doctype declared (quotable _ rfl) spelled'
    obtain ⟨after, next, reads, ends, shown⟩ := exists_misc _ each
      (.element isElement readable tail) rest
    refine ⟨after, table, next, ?_, ends, ?_⟩
    · rw [typeDeclaration, if_pos typed]
      exact bind_eq_ok.mpr ⟨_, read, bind_eq_ok.mpr ⟨_, reads, rfl⟩⟩
    · rw [shown]
      simp [typedTrees, Draft.toTree, Draft.toTrees, Tree.leaf, Doctype.kind]

/-- A root element in normal form is read back as it is. -/
theorem exists_rootElement_canonical (cx : Context) {root : Tree}
    (room : 4 ≤ cx.options.maxNameLength) (keep : cx.options.noBlanks = false)
    (isElement : root.kind.isElement = true) (readable : Readable cx.options 0 .initial root)
    (canonical : Canonical root) (fits : Text.byteLength r.rest ≤ cx.options.maxTextLength)
    (spelled : r.rest = spell root ++ tail) :
    r.atEnd = false ∧ r.sees '<' = true ∧ ∃ draft next, r.rootElement cx = .ok (draft, next) ∧
      next.rest = tail ∧ draft.toTree = root := by
  obtain ⟨c, letters, begins, -⟩ := exists_cons_of_readable isElement readable
  refine ⟨by simp [atEnd, spelled, begins], by simp [sees, spelled, begins], ?_⟩
  have same := readBack_eq_self keep isElement canonical
  obtain ⟨kind, children⟩ := root
  cases kind with
  | element name uri attributes =>
    obtain ⟨next, read, ends⟩ := exists_rootElement cx room readable fits spelled
    exact ⟨_, next, read, ends, same⟩
  | _ => cases isElement

end Reader

open Reader

variable {options : ParseOptions} {layout : Layout} {version text : String} {encoded : Bool}
  {standalone : Option Bool}

/-- A document as it is written: its declaration, then its nodes line by line. -/
def spellDocument (version : String) (encoded : Bool) (standalone : Option Bool)
    (trees : List Tree) : List Char :=
  "<?xml version=\"".toList ++ version.toList ++ '"' :: (writtenEncoding encoded ++
    (writtenStandalone standalone ++ ("?>".toList ++ (spellLines trees ++ ['\n']))))

/-- The lines of a document up to the document type, or up to the root element if there is none. -/
theorem Layout.IsParsed.exists_lines (parsed : layout.IsParsed options) :
    ∃ tail, IsBeyondMisc tail ∧
      spellLines layout.trees ++ ['\n'] = spellLines layout.early ++ '\n' :: tail ∧
      '\n' :: tail = spellLines (typedTrees layout.type) ++
        '\n' :: (spell layout.root ++ (spellLines layout.late ++ ['\n'])) := by
  obtain ⟨early, type, root, late⟩ := layout
  cases type with
  | none =>
    refine ⟨spell root ++ (spellLines late ++ ['\n']),
      .element parsed.element parsed.readable _, ?_, ?_⟩
    · simp [trees, typedTrees]
    · simp [typedTrees]
  | some found =>
    refine ⟨spell (.leaf found.1.kind) ++ (spellLines found.2 ++
      '\n' :: (spell root ++ (spellLines late ++ ['\n']))), .doctype .., ?_, ?_⟩
    · simp [trees, typedTrees]
    · simp [typedTrees]

/-- What stands before the document type is read back line by line. -/
theorem exists_early (parsed : layout.IsParsed options) {r : Reader}
    (spelled : '\n' :: r.skipBlanks.rest = spellLines layout.trees ++ ['\n']) :
    ∃ early next, misc options r [] = .ok (early, next) ∧
      early.map Draft.toTree = layout.early.reverse ∧
      '\n' :: next.rest = spellLines (typedTrees layout.type) ++
        '\n' :: (spell layout.root ++ (spellLines layout.late ++ ['\n'])) := by
  obtain ⟨tail, beyond, whole, begins⟩ := parsed.exists_lines
  obtain ⟨early, next, read, rest, shown⟩ :=
    exists_misc_lines [] parsed.early beyond (spelled.trans whole)
  exact ⟨early, next, read, by simpa using shown, by rw [rest, begins]⟩

/-- The declaration of a document is read back, and its lines come next. -/
theorem exists_declared (parsed : layout.IsParsed options) (isVersion : isVersion version = true)
    (spelled : text.toList = spellDocument version encoded standalone layout.trees) :
    ∃ declaration next, (ofText text).head = .ok (some declaration, next) ∧
      declaration.standalone = standalone ∧
      '\n' :: next.skipBlanks.rest = spellLines layout.trees ++ ['\n'] := by
  obtain ⟨next, headed, rest⟩ := exists_head isVersion encoded standalone
    (show (ofText text).rest = _ from spelled)
  obtain ⟨tail, beyond, whole, -⟩ := parsed.exists_lines
  exact ⟨_, next, headed, rfl,
    (skipBlanks_lines parsed.early beyond (rest.trans whole)).trans rest⟩

/-- The parser accepts the lines of a document, after its declaration or without one, and yields the
same nodes. -/
theorem exists_parse_of_lines (parsed : layout.IsParsed options)
    (quotable : ∀ found ∈ layout.type, found.1.IsQuotable) (room : 4 ≤ options.maxNameLength)
    (keep : options.noBlanks = false) {declaration : Option Declaration} {r₁ : Reader}
    (headed : (ofText text).head = .ok (declaration, r₁))
    (spelled : '\n' :: r₁.skipBlanks.rest = spellLines layout.trees ++ ['\n'])
    (fits : Text.byteLength text.toList ≤ options.maxTextLength) :
    ∃ draft, parse options text = .ok draft ∧ Draft.toTrees draft.nodes = layout.trees ∧
      draft.standalone = declaration.bind (·.standalone) := by
  obtain ⟨early, r₂, misc₁, shown₁, rest⟩ := exists_early parsed spelled
  obtain ⟨middle, table, r₃, type, rest, shown₂⟩ :=
    exists_typeDeclaration early parsed.type quotable parsed.element parsed.readable rest
  have left₁ := (passes_head _).taken headed
  have left₂ := (passes_misc ..).taken misc₁
  have left₃ := (passes_typeDeclaration ..).taken type
  simp only [reached_pair, reached_reader, Nat.zero_add] at left₁ left₂ left₃
  -- Only the text from the root element on is measured against the limit.
  have fits' : Text.byteLength r₃.rest ≤ options.maxTextLength :=
    Nat.le_trans left₃ (Nat.le_trans left₂ (Nat.le_trans left₁ fits))
  obtain ⟨more, sees, root, r₄, element, rest, same⟩ :=
    exists_rootElement_canonical ⟨options, table, []⟩ room keep parsed.element
      parsed.readable parsed.canonical fits' rest
  obtain ⟨late, r₅, misc₂, ends, shown₃⟩ :=
    exists_misc (root :: middle) parsed.late .nil (show r₄.rest = _ ++ '\n' :: [] from rest)
  have done : r₅.atEnd = true := by simp [atEnd, ends]
  refine ⟨_, parse_eq_ok_iff.mpr ⟨_, r₁, early, r₂, middle, table, r₃, root, r₄, late, r₅, r₅,
    headed, misc₁, type, more, sees, element, misc₂, by rw [if_pos done], rfl⟩, ?_, rfl⟩
  rw [toTrees_eq_map, List.map_reverse, shown₃, List.map_cons, shown₂, shown₁, same]
  simp [Layout.trees]

/-- The parser accepts what is written for a document, and yields the same nodes. -/
theorem exists_parse_of_layout (parsed : layout.IsParsed options)
    (quotable : ∀ found ∈ layout.type, found.1.IsQuotable) (room : 4 ≤ options.maxNameLength)
    (keep : options.noBlanks = false) (isVersion : isVersion version = true)
    (spelled : text.toList = spellDocument version encoded standalone layout.trees)
    (fits : Text.byteLength text.toList ≤ options.maxTextLength) :
    ∃ draft, parse options text = .ok draft ∧ Draft.toTrees draft.nodes = layout.trees ∧
      draft.standalone = standalone := by
  obtain ⟨declaration, r₁, headed, rfl, lines⟩ := exists_declared parsed isVersion spelled
  exact exists_parse_of_lines parsed quotable room keep headed lines fits

/-- Where the parser yields the same nodes of the top level, the identifiers of the document type
could stand between double quotes. -/
theorem quotable_of_parse (strict : options.recover = false) (parsed : layout.IsParsed options)
    (isVersion : isVersion version = true)
    (spelled : text.toList = spellDocument version encoded standalone layout.trees)
    {draft : DocumentDraft} (h : parse options text = .ok draft)
    (same : (Draft.toTrees draft.nodes).map Tree.kind = layout.trees.map Tree.kind) :
    ∀ found ∈ layout.type, found.1.IsQuotable := by
  rintro ⟨type, middle⟩ given
  obtain ⟨declaration, r₁, headed, -, lines⟩ := exists_declared parsed isVersion spelled
  obtain ⟨early, r₂, misc₁, shown₁, rest⟩ := exists_early parsed lines
  obtain ⟨_, _, _, _, nodes, table, r₃, root, r₄, late, r₅, _, headed', misc₁', typed, -, -, -,
    misc₂, -, rfl⟩ := parse_eq_ok_iff.mp h
  -- Up to the document type there is only one way to read the text.
  cases headed.symm.trans headed'
  cases misc₁.symm.trans misc₁'
  rw [show layout.type = some (type, middle) from given] at rest
  obtain ⟨begins, spelled'⟩ := rest_doctype rest
  rw [typeDeclaration, if_pos begins] at typed
  obtain ⟨⟨⟨found, _⟩, _⟩, read, typed⟩ := bind_eq_ok.mp typed
  obtain ⟨⟨_, _⟩, others, typed⟩ := bind_eq_ok.mp typed
  cases typed
  obtain ⟨between, shown₂, -⟩ := exists_of_misc strict others
  obtain ⟨after, shown₃, -⟩ := exists_of_misc strict misc₂
  -- Both lists of nodes begin alike, and then comes what was read as the document type.
  rw [toTrees_eq_map, List.map_reverse, shown₃, List.map_cons, shown₂, List.map_cons, shown₁,
    Layout.trees, show layout.type = some (type, middle) from given] at same
  obtain ⟨kinds, -⟩ : found.kind = type.kind ∧ _ := by
    simpa [typedTrees, Draft.toTree, Tree.leaf, Tree.kind, Doctype.kind] using same
  obtain ⟨name, publicId, systemId⟩ := type
  cases kinds
  exact quotable_of_doctype (parsed.type _ given).1 spelled' read

end Markup.Xml
