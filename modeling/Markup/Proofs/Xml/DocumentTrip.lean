import Markup.Proofs.Xml.Expansion
import Markup.Proofs.Xml.RoundTrip
import Markup.Proofs.Xml.Written

/-!
# The round trip of a document

A document that was parsed is written as a text that the strict parser accepts again, with the same
nodes at its top level and the same word on whether it stands alone. The exception is a document
type with a double quote in an identifier: the literal was read between single quotes, and it is
written between double quotes all the same.
-/

namespace Markup

/-- Whether a node is written so that it can be read again: the identifiers of a document type have
to stand between double quotes then. -/
def NodeKind.IsQuotable : NodeKind → Prop
  | .doctype name publicId systemId => Xml.Doctype.IsQuotable ⟨name, publicId, systemId⟩
  | _ => True

/-- Whether the identifiers of the document type, if there is one, can stand between double
quotes. -/
def Document.IsQuotable (doc : Document) : Prop :=
  ∀ id ∈ doc.children Document.root, (doc.kind id).IsQuotable

namespace Xml

/-- The options that a written document is read again with: nothing is recovered from or left out,
names have four bytes or more, and text has a limit of its own. -/
def ParseOptions.rereading (options : ParseOptions) (limit : Nat) : ParseOptions :=
  { options with
    recover := false
    noBlanks := false
    maxNameLength := max options.maxNameLength 4
    maxTextLength := limit }

variable {options wider : ParseOptions} {layout : Layout} {tree : Tree}

/-! ## Wider limits -/

theorem IsMisc.mono (isMisc : IsMisc options tree)
    (names : options.maxNameLength ≤ wider.maxNameLength) : IsMisc wider tree := by
  obtain ⟨kind, children⟩ := tree
  cases kind with
  | comment => exact isMisc
  | instruction => exact ⟨⟨isMisc.1.named.mono names, isMisc.1.free⟩, isMisc.2⟩
  | _ => exact isMisc.elim

theorem Layout.IsParsed.mono (parsed : layout.IsParsed options)
    (depths : options.maxDepth ≤ wider.maxDepth)
    (names : options.maxNameLength ≤ wider.maxNameLength) : layout.IsParsed wider where
  early tree listed := (parsed.early tree listed).mono names
  type found given :=
    ⟨⟨(parsed.type found given).1.named.mono names, (parsed.type found given).1.paired⟩,
      fun tree listed => ((parsed.type found given).2 tree listed).mono names⟩
  element := parsed.element
  readable := parsed.readable.mono depths names
  canonical := parsed.canonical
  late tree listed := (parsed.late tree listed).mono names

/-! ## The document type -/

theorem isQuotable_of_isElement (isElement : tree.kind.isElement = true) :
    tree.kind.IsQuotable := by
  obtain ⟨kind, children⟩ := tree
  cases kind with
  | element => trivial
  | _ => cases isElement

theorem IsMisc.isQuotable (isMisc : IsMisc options tree) : tree.kind.IsQuotable := by
  obtain ⟨kind, children⟩ := tree
  cases kind with
  | comment | instruction => trivial
  | _ => exact isMisc.elim

theorem Layout.IsParsed.isQuotable_iff (parsed : layout.IsParsed options) :
    (∀ tree ∈ layout.trees, tree.kind.IsQuotable) ↔
      ∀ found ∈ layout.type, found.1.IsQuotable := by
  obtain ⟨early, type, root, late⟩ := layout
  constructor
  · rintro each ⟨type, middle⟩ ⟨⟩
    exact each (.leaf type.kind) (by simp [trees, typedTrees])
  · intro quotable tree listed
    simp only [trees, List.mem_append, List.mem_cons] at listed
    rcases listed with (listed | listed) | rfl | listed
    · exact (parsed.early tree listed).isQuotable
    · cases type with
      | none => cases listed
      | some found =>
        rcases List.mem_cons.mp listed with rfl | listed
        · exact quotable found rfl
        · exact ((parsed.type found rfl).2 tree listed).isQuotable
    · exact isQuotable_of_isElement parsed.element
    · exact (parsed.late tree listed).isQuotable

/-! ## What is written at the end -/

/-- Whether a tree can stand last in a document: the text for it ends with a tag or as a comment or
an instruction does. -/
def IsClosing (options : ParseOptions) (tree : Tree) : Prop :=
  tree.kind.isElement = true ∨ IsMisc options tree

/-- Neither text nor a document type stands last. -/
theorem IsClosing.cases (closing : IsClosing options tree) :
    tree.kind.isElement = true ∨ (∃ content, tree = .leaf (.comment content)) ∨
      ∃ target data, tree = .leaf (.instruction target data) := by
  obtain ⟨kind, children⟩ := tree
  rcases closing with isElement | isMisc
  · exact .inl isElement
  · cases kind with
    | comment content => exact .inr (.inl ⟨content, by rw [isMisc.2.2, Tree.leaf]⟩)
    | instruction target data => exact .inr (.inr ⟨target, data, by rw [isMisc.2.2, Tree.leaf]⟩)
    | _ => exact isMisc.elim

theorem IsClosing.getLast?_spell (closing : IsClosing options tree) :
    (spell tree).getLast? = some '>' := by
  rcases closing.cases with isElement | ⟨content, rfl⟩ | ⟨target, data, rfl⟩
  · obtain ⟨kind, children⟩ := tree
    cases kind with
    | element name uri attributes =>
      rw [spell]
      cases children <;> simp [writtenEnd, List.getLast?_cons]
    | _ => cases isElement
  · simp [Tree.leaf, spell, writeLeaf, toString, List.getLast?_cons]
  · cases data <;> simp [Tree.leaf, spell, writeLeaf, toString, List.getLast?_cons]

theorem Layout.IsParsed.exists_last (parsed : layout.IsParsed options) :
    ∃ before last, layout.trees = before ++ [last] ∧ IsClosing options last := by
  rcases List.eq_nil_or_concat layout.late with empty | ⟨others, last, listed⟩
  · exact ⟨layout.early ++ typedTrees layout.type, layout.root, by rw [trees, empty],
      .inl parsed.element⟩
  · refine ⟨layout.early ++ typedTrees layout.type ++ layout.root :: others, last, ?_,
      .inr (parsed.late last (by simp [listed]))⟩
    simp [trees, listed]

end Xml

namespace Document

open Xml Xml.Reader

variable {doc : Document} {options : ParseOptions} {layout : Layout} {text : String} {last : Tree}

theorem toList_writeTop_singleton (closing : IsClosing options last) :
    (writeTop {} [last]).toList = spell last := by
  have written := toList_write (show ({} : WriteOptions).indent = false from rfl) 0 last
  rcases closing.cases with isElement | ⟨content, rfl⟩ | ⟨target, data, rfl⟩
  · obtain ⟨kind, children⟩ := last
    cases kind with
    | element => simpa [writeTop, Tree.kind] using written
    | _ => cases isElement
  · simpa [writeTop, Tree.kind, Tree.leaf] using written
  · simpa [writeTop, Tree.kind, Tree.leaf] using written

theorem toList_writeTop_cons (tree : Tree) {rest : List Tree} (more : rest ≠ []) :
    (writeTop {} (tree :: rest)).toList = spell tree ++ '\n' :: (writeTop {} rest).toList := by
  have written := toList_write (show ({} : WriteOptions).indent = false from rfl) 0 tree
  have another : rest.isEmpty = false := List.isEmpty_eq_false_iff.mpr more
  obtain ⟨kind, children⟩ := tree
  cases kind <;> simp [writeTop, Tree.kind, another, written]

/-- The nodes of the top level are written each on a line of its own, the last line still open. -/
theorem toList_writeTop (before : List Tree) (closing : IsClosing options last) :
    '\n' :: (writeTop {} (before ++ [last])).toList = spellLines (before ++ [last]) := by
  induction before with
  | nil => simp [toList_writeTop_singleton closing]
  | cons tree before ih =>
    rw [List.cons_append, toList_writeTop_cons tree (by simp), ih, spellLines_cons]
    rfl

theorem getLast?_writeTop (before : List Tree) (closing : IsClosing options last) :
    (writeTop {} (before ++ [last])).toList.getLast? = some '>' := by
  induction before with
  | nil => rw [List.nil_append, toList_writeTop_singleton closing, closing.getLast?_spell]
  | cons tree before ih =>
    rw [List.cons_append, toList_writeTop_cons tree (by simp)]
    simp [List.getLast?_append, List.getLast?_cons, ih]

theorem toList_writeDeclaration (doc : Document) : doc.writeDeclaration.toList =
    "<?xml version=\"".toList ++ (doc.version.getD "1.0").toList ++
      '"' :: (writtenEncoding doc.encoding.isSome ++ (writtenStandalone doc.standalone ++
        "?>\n".toList)) := by
  unfold writeDeclaration
  generalize doc.standalone = standalone, doc.encoding.isSome = encoded
  rcases encoded with _ | _ <;> rcases standalone with _ | _ | _ <;>
    simp only [toString, String.toList_append, List.append_assoc] <;> rfl

/-- A document is written line by line, after its declaration. -/
theorem toList_write_document {before : List Tree} (closing : IsClosing options last)
    (shown : (doc.tree root).children = before ++ [last]) : (doc.write {}).toList =
      spellDocument (doc.version.getD "1.0") doc.encoding.isSome doc.standalone
        (before ++ [last]) := by
  have ends : (doc.writeDeclaration ++ writeTop {} (before ++ [last])).endsWith '\n' = false := by
    rw [String.endsWith_char_eq_getLast?, String.toList_append, List.getLast?_append,
      getLast?_writeTop before closing, Option.some_or]
    decide
  have whole : doc.write {} = doc.writeDeclaration ++ writeTop {} (before ++ [last]) ++ "\n" := by
    rw [write, shown]
    simp [ends]
  have close : "?>\n".toList = "?>".toList ++ ['\n'] := rfl
  have line : "\n".toList = ['\n'] := rfl
  unfold spellDocument
  simp only [whole, toList_writeDeclaration, close, line, ← toList_writeTop before closing,
    String.toList_append, List.append_assoc, List.cons_append, List.nil_append]

/-- What is written for a document that was parsed, said of what the parse yielded. -/
theorem toList_write_ofDraft {draft : DocumentDraft} (before : List Tree)
    (closing : IsClosing options last) (shown : Draft.toTrees draft.nodes = before ++ [last]) :
    ((ofDraft draft).write {}).toList = spellDocument (draft.version.getD "1.0")
      draft.encoding.isSome draft.standalone (before ++ [last]) := by
  have head := head_ofDraft draft
  rw [← show (ofDraft draft).version = draft.version from congrArg DocumentDraft.version head,
    ← show (ofDraft draft).encoding = draft.encoding from congrArg DocumentDraft.encoding head,
    ← show (ofDraft draft).standalone = draft.standalone from
      congrArg DocumentDraft.standalone head]
  exact toList_write_document closing ((congrArg Tree.children (tree_ofDraft draft)).trans shown)

/-! ## The round trip -/

theorem kinds_ofDraft (draft : DocumentDraft) :
    ((ofDraft draft).children root).map (ofDraft draft).kind =
      (Draft.toTrees draft.nodes).map Tree.kind := by
  have linked := wellLinked_ofDraft draft
  have shown := tree_ofDraft draft
  rw [linked.tree_eq linked.root_live] at shown
  obtain ⟨-, listed⟩ := Tree.node.inj shown
  rw [← listed, List.map_map]
  exact List.map_congr_left fun id _ => (kind_tree _ id).symm

theorem isQuotable_ofDraft (draft : DocumentDraft) : (ofDraft draft).IsQuotable ↔
    ∀ tree ∈ Draft.toTrees draft.nodes, tree.kind.IsQuotable := by
  rw [IsQuotable, ← List.forall_mem_map, kinds_ofDraft, List.forall_mem_map]

/-- A document that was parsed strictly is written as a text that is parsed as a document with the
same nodes at its top level, if the identifiers of its document type can stand between double
quotes. If they cannot, then this text is parsed otherwise or not at all. -/
theorem roundTrip_document (strict : options.recover = false)
    (parsed : ofXml options text = .ok doc) {limit : Nat}
    (fits : Text.byteLength (doc.write {}).toList ≤ limit) :
    (doc.IsQuotable → ∃ again, ofXml (options.rereading limit) (doc.write {}) = .ok again ∧
      again.tree root = doc.tree root ∧ again.standalone = doc.standalone) ∧
    (¬ doc.IsQuotable → ∀ again, ofXml (options.rereading limit) (doc.write {}) = .ok again →
      (again.children root).map again.kind ≠ (doc.children root).map doc.kind) := by
  obtain ⟨draft, read, rfl⟩ := map_eq_ok.mp parsed
  obtain ⟨layout, isParsed, nodes, versions⟩ := exists_layout strict read
  obtain ⟨before, last, trees, closing⟩ := isParsed.exists_last
  have spelled := toList_write_ofDraft before closing (nodes.trans trees)
  rw [← trees] at spelled
  have isVersion : isVersion (draft.version.getD "1.0") = true := by
    cases declared : draft.version with
    | none => decide
    | some version => exact versions version declared
  have wide : layout.IsParsed (options.rereading limit) :=
    isParsed.mono (Nat.le_refl _) (Nat.le_max_left ..)
  have quotable : (ofDraft draft).IsQuotable ↔ ∀ found ∈ layout.type, found.1.IsQuotable := by
    rw [isQuotable_ofDraft, nodes, isParsed.isQuotable_iff]
  refine ⟨fun quoted => ?_, fun unquoted again reparsed same => unquoted (quotable.mpr ?_)⟩
  · obtain ⟨redraft, reread, renodes, alone⟩ := exists_parse_of_layout wide (quotable.mp quoted)
      (Nat.le_max_right ..) rfl isVersion spelled fits
    refine ⟨ofDraft redraft, map_eq_ok.mpr ⟨_, reread, rfl⟩, ?_, ?_⟩
    · rw [tree_ofDraft, tree_ofDraft, renodes, nodes]
    · have kept := congrArg DocumentDraft.standalone (head_ofDraft draft)
      have kept' := congrArg DocumentDraft.standalone (head_ofDraft redraft)
      exact kept'.trans (alone.trans kept.symm)
  · obtain ⟨redraft, reread, rfl⟩ := map_eq_ok.mp reparsed
    rw [kinds_ofDraft, kinds_ofDraft, nodes] at same
    exact quotable_of_parse rfl wide isVersion spelled reread same

section Quoting

/-- A document type whose system identifier was read between single quotes. -/
def quotingType : Doctype := ⟨"a", none, some "x\"y"⟩

/-- A document of this type. -/
def quoting : Document :=
  ofDraft ⟨none, none, none, [],
    [.written quotingType.kind [], .written (.element ⟨none, "a"⟩ none []) []]⟩

theorem ofXml_quoting : ofXml {} "<!DOCTYPE a SYSTEM 'x\"y'><a/>" = .ok quoting := by
  let table : EntityTable := ⟨[], [], true⟩
  let cx : Context := ⟨{}, table, []⟩
  let start := Reader.ofText "<!DOCTYPE a SYSTEM 'x\"y'><a/>"
  let named : Reader := ⟨" SYSTEM 'x\"y'><a/>".toList, ⟨1, 12, 11⟩, none, ⟨[], 0⟩⟩
  let literal : Reader := ⟨"'x\"y'><a/>".toList, ⟨1, 20, 19⟩, none, ⟨[], 0⟩⟩
  let closing : Reader := ⟨"><a/>".toList, ⟨1, 25, 24⟩, none, ⟨[], 0⟩⟩
  let opened : Reader := ⟨"<a/>".toList, ⟨1, 26, 25⟩, none, ⟨[], 0⟩⟩
  let ended : Reader := ⟨[], ⟨1, 30, 29⟩, none, ⟨[], 0⟩⟩
  let type : Draft := .written quotingType.kind []
  let root : Draft := .written (.element ⟨none, "a"⟩ none []) []
  have name : (start.skip 10).name {} = .ok ("a", named) := by cbv
  have quoted : literal.quoted = .ok ("x\"y", closing) := by cbv
  have external : named.skipBlanks.externalId = .ok ((none, some "x\"y"), closing) := by
    rw [externalId, if_neg (by decide), if_pos (by decide)]
    exact bind_eq_ok.mpr ⟨literal, rfl, bind_eq_ok.mpr ⟨_, quoted, rfl⟩⟩
  have doctype : start.doctype {} = .ok ((quotingType, table), opened) := by
    refine bind_eq_ok.mpr ⟨start.skip 9, rfl, bind_eq_ok.mpr ⟨start.skip 10, rfl, bind_eq_ok.mpr
      ⟨_, name, bind_eq_ok.mpr ⟨_, external, ?_⟩⟩⟩⟩
    dsimp only
    rw [if_neg (by decide)]
    rfl
  have declared : start.typeDeclaration {} [] = .ok (([type], table), opened) := by
    rw [typeDeclaration, if_pos (by decide)]
    exact bind_eq_ok.mpr ⟨_, doctype, bind_eq_ok.mpr ⟨_, misc_eq_ok rfl rfl, rfl⟩⟩
  have element : opened.rootElement cx = .ok (root, ended) := by cbv
  exact map_eq_ok.mpr ⟨_, parse_eq_ok_iff.mpr ⟨none, start, [], start, [type], table, opened, root,
    ended, [root, type], ended, ended, rfl, misc_eq_ok rfl rfl, declared, rfl, rfl, element,
    misc_eq_ok rfl rfl, rfl, rfl⟩, rfl⟩

theorem toList_write_quoting : (quoting.write {}).toList =
    spellDocument "1.0" false none
      [.leaf quotingType.kind, .leaf (.element ⟨none, "a"⟩ none [])] := by
  have closing : IsClosing {} (.leaf (.element ⟨none, "a"⟩ none [])) := .inl rfl
  exact toList_write_ofDraft [.leaf quotingType.kind] closing rfl

/-- The literal that is written for the identifier ends at the quote in it, and the declaration
cannot go on after it. -/
theorem not_doctype_quoting {r next : Reader} {tail : List Char} (named : IsName options "a")
    (spelled : r.rest = (writeLeaf quotingType.kind).toList ++ tail)
    {found : Doctype × EntityTable} : r.doctype options ≠ .ok (found, next) := by
  intro h
  obtain ⟨first, second, word, blank, third, named, rest⟩ := exists_doctypeHead named spelled
  obtain ⟨other, system, rest⟩ := rest_system rest
  obtain ⟨blank', rest⟩ := requireBlanks_eq_ok rest (by decide) .anywhere
  obtain ⟨beyond, quoted, rest⟩ := exists_quoted (by decide)
    (show _ = '"' :: "x".toList ++ '"' :: ('y' :: '"' :: '>' :: tail) from rest)
  have outside : third.skipBlanks.externalId = .ok ((none, some "x"), beyond) := by
    rw [externalId, if_neg (by simp [other]), if_pos system]
    exact bind_eq_ok.mpr ⟨_, blank', bind_eq_ok.mpr ⟨_, quoted, rfl⟩⟩
  have solid := (rest_skipBlanks_cons rest (by decide)).trans rest
  have bare : beyond.skipBlanks.sees '[' = false := by simp [sees, solid]
  have stopped : ∃ failure, beyond.skipBlanks.expect '>' = .error failure :=
    ⟨_, by rw [expect, if_neg (by simp [sees, solid])]; rfl⟩
  obtain ⟨failure, stopped⟩ := stopped
  simp only [doctype, word, blank, named, outside, bare, bind, Except.bind] at h
  dsimp only [Bool.false_eq_true, if_false, pure, Except.pure] at h
  rw [stopped] at h
  cases h

/-- A document is not always written as a text that is parsed. -/
theorem write_not_parsed : ∃ doc, ofXml {} "<!DOCTYPE a SYSTEM 'x\"y'><a/>" = .ok doc ∧
    doc.write {} = "<?xml version=\"1.0\"?>\n<!DOCTYPE a SYSTEM \"x\"y\">\n<a/>\n" ∧
    ∀ limit again, ofXml { maxTextLength := limit } (doc.write {}) ≠ .ok again := by
  refine ⟨quoting, ofXml_quoting, ?_, fun limit again parsed => ?_⟩
  · rw [← String.toList_inj, toList_write_quoting]
    rfl
  · have named : IsName { maxTextLength := limit } "a" := {
      start := show isNameStart 'a' = true by decide
      chars := List.forall_mem_singleton.mpr (by decide)
      short := show 1 ≤ ParseOptions.maxNameLength {} by decide }
    have nothing : ∀ tree ∈ ([] : List Tree), IsMisc { maxTextLength := limit } tree :=
      List.forall_mem_nil _
    obtain ⟨r₁, headed, rest⟩ := exists_head (show isVersion "1.0" = true by decide) false none
      (show (Reader.ofText (quoting.write {})).rest = _ from toList_write_quoting)
    obtain ⟨_, r₂, misc₁, rest, -⟩ := exists_misc [] nothing (.doctype quotingType _) rest
    rw [spell_doctype] at rest
    obtain ⟨draft, read, -⟩ := map_eq_ok.mp parsed
    obtain ⟨_, _, _, _, _, _, _, _, _, _, _, _, headed', misc₁', typed, -⟩ :=
      parse_eq_ok_iff.mp read
    cases headed.symm.trans headed'
    cases misc₁.symm.trans misc₁'
    have begins : r₂.startsWith "<!DOCTYPE" = true := by
      rw [startsWith, rest]
      rfl
    rw [typeDeclaration, if_pos begins] at typed
    obtain ⟨found, doctype, -⟩ := bind_eq_ok.mp typed
    exact not_doctype_quoting named rest doctype

/-- A document that is read again, without its internal subset, and one that is not. -/
theorem roundTrip_document_quoting :
    (∃ again, ofXml (ParseOptions.rereading {} 100) (replaced.write {}) = .ok again ∧
      again.tree root = replaced.tree root ∧ again.standalone = replaced.standalone) ∧
    ∀ again, ofXml (ParseOptions.rereading {} 100) (quoting.write {}) = .ok again →
      (again.children root).map again.kind ≠ (quoting.children root).map quoting.kind := by
  have closing : IsClosing {} (.node (.element ⟨none, "a"⟩ none []) [.node (.text "xy") []]) :=
    .inl rfl
  have quotable : replaced.IsQuotable := by
    rw [replaced, isQuotable_ofDraft]
    simp [Draft.toTrees, Draft.toTree, Tree.kind, NodeKind.IsQuotable, Doctype.IsQuotable]
  have unquotable : ¬ quoting.IsQuotable := by
    rw [quoting, isQuotable_ofDraft]
    simp [Draft.toTrees, Draft.toTree, Tree.kind, Doctype.kind, quotingType, NodeKind.IsQuotable,
      Doctype.IsQuotable]
  have fits : Text.byteLength (replaced.write {}).toList ≤ 100 := by
    rw [replaced, toList_write_ofDraft [.leaf (.doctype "a" none none)] closing rfl]
    decide
  have fits' : Text.byteLength (quoting.write {}).toList ≤ 100 := by
    rw [toList_write_quoting]
    decide
  exact ⟨(roundTrip_document rfl ofXml_replaced fits).1 quotable,
    (roundTrip_document rfl ofXml_quoting fits').2 unquotable⟩

end Quoting

end Document
end Markup
