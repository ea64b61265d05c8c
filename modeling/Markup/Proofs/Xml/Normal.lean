import Markup.Proofs.Xml.Prolog

/-!
# Normal forms are read back as they are

A strict parse yields comments and instructions, a document type with more of them after it if there
is one, one element, and comments and instructions after it. The element is in normal form. What is
in normal form is read back unchanged.
-/

namespace Markup.Xml

/-! ## The top level -/

/-- A comment or an instruction as a strict parse yields it. -/
def IsMisc (options : ParseOptions) : Tree → Prop
  | .node (.comment content) children =>
    IsComment content.toList ∧ '\r' ∉ content.toList ∧ children = []
  | .node (.instruction target data) children =>
    IsTarget options target ∧ (∀ text ∈ data, IsData text.toList) ∧ children = []
  | _ => False

/-- A document type and the nodes after it, if there is one. -/
def typedTrees : Option (Doctype × List Tree) → List Tree
  | some (type, middle) => .leaf type.kind :: middle
  | none => []

/-- What stands at the top level of a document. -/
structure Layout where
  /-- The nodes before the document type, or before the root element if there is none. -/
  early : List Tree
  /-- The document type and the nodes after it. -/
  type : Option (Doctype × List Tree)
  root : Tree
  /-- The nodes after the root element. -/
  late : List Tree

namespace Layout

/-- The nodes of the top level in order. -/
def trees (layout : Layout) : List Tree :=
  layout.early ++ typedTrees layout.type ++ layout.root :: layout.late

/-- Whether a layout is as a strict parse yields it. -/
structure IsParsed (options : ParseOptions) (layout : Layout) : Prop where
  early : ∀ tree ∈ layout.early, IsMisc options tree
  type : ∀ found ∈ layout.type,
    found.1.IsDeclared options ∧ ∀ tree ∈ found.2, IsMisc options tree
  element : layout.root.kind.isElement = true
  readable : Readable options 0 .initial layout.root
  canonical : Canonical layout.root
  late : ∀ tree ∈ layout.late, IsMisc options tree

end Layout

namespace Reader

variable {r next : Reader} {options : ParseOptions} {before after : List Draft}

/-- Comments and instructions go before what was read earlier. -/
theorem exists_of_misc (strict : options.recover = false)
    (h : misc options r before = .ok (after, next)) :
    ∃ trees : List Tree, after.map Draft.toTree = trees.reverse ++ before.map Draft.toTree ∧
      ∀ tree ∈ trees, IsMisc options tree := by
  fun_induction misc options r before with
  | case1 | case3 => cases h
  | case2 r before _ content middle read ih =>
    obtain ⟨trees, shown, each⟩ := ih h
    obtain ⟨within, plain⟩ := isComment_of_comment strict read
    refine ⟨.leaf (.comment content) :: trees, ?_, List.forall_mem_cons.mpr
      ⟨⟨within, plain, rfl⟩, each⟩⟩
    rw [shown]
    simp [Draft.toTree, Draft.toTrees, Tree.leaf]
  | case4 r before _ _ target data middle read ih =>
    obtain ⟨trees, shown, each⟩ := ih h
    obtain ⟨isTarget, within⟩ := isTarget_of_instruction strict read
    refine ⟨.leaf (.instruction target data) :: trees, ?_, List.forall_mem_cons.mpr
      ⟨⟨isTarget, within, rfl⟩, each⟩⟩
    rw [shown]
    simp [Draft.toTree, Draft.toTrees, Tree.leaf]
  | case5 => cases h; exact ⟨[], rfl, List.forall_mem_nil _⟩

theorem exists_of_typeDeclaration (strict : options.recover = false) {table : EntityTable}
    (h : r.typeDeclaration options before = .ok ((after, table), next)) :
    table.IsLegal ∧ ∃ type : Option (Doctype × List Tree),
      (∀ found ∈ type, found.1.IsDeclared options ∧ ∀ tree ∈ found.2, IsMisc options tree) ∧
      after.map Draft.toTree =
        (typedTrees type).reverse ++ before.map Draft.toTree := by
  unfold typeDeclaration at h
  split at h
  · obtain ⟨⟨⟨type, declared⟩, first⟩, read, h⟩ := bind_eq_ok.mp h
    obtain ⟨⟨nodes, second⟩, others, h⟩ := bind_eq_ok.mp h
    cases h
    obtain ⟨trees, shown, each⟩ := exists_of_misc strict others
    refine ⟨isLegal_of_doctype strict read, some (type, trees), ?_, ?_⟩
    · rintro found ⟨⟩
      exact ⟨isDeclared_of_doctype read, each⟩
    · rw [shown]
      simp [typedTrees, Draft.toTree, Draft.toTrees, Tree.leaf, Doctype.kind]
  · cases h
    exact ⟨List.forall_mem_nil _, none, by rintro _ ⟨⟩, rfl⟩

end Reader

open Reader in
/-- The top level of what a strict parse yields. -/
theorem exists_layout {options : ParseOptions} (strict : options.recover = false) {text : String}
    {draft : DocumentDraft} (h : parse options text = .ok draft) :
    ∃ layout : Layout, layout.IsParsed options ∧ Draft.toTrees draft.nodes = layout.trees ∧
      ∀ version ∈ draft.version, isVersion version = true := by
  obtain ⟨declaration, r₁, early, r₂, middle, table, r₃, root, r₄, late, r₅, _, headed, misc₁, type,
    -, -, element, misc₂, -, rfl⟩ := parse_eq_ok_iff.mp h
  obtain ⟨first, shown₁, each₁⟩ := exists_of_misc strict misc₁
  obtain ⟨legal, second, each₂, shown₂⟩ := exists_of_typeDeclaration strict type
  obtain ⟨readable, canonical, isElement⟩ := of_rootElement strict legal element
  obtain ⟨third, shown₃, each₃⟩ := exists_of_misc strict misc₂
  refine ⟨⟨first, second, root.toTree, third⟩,
    ⟨each₁, each₂, isElement, readable, canonical, each₃⟩, ?_, ?_⟩
  · rw [toTrees_eq_map, List.map_reverse, shown₃, List.map_cons, shown₂, shown₁]
    simp [Layout.trees]
  · intro version found
    obtain ⟨declared, given, rfl⟩ := Option.map_eq_some_iff.mp found
    exact isVersion_of_head headed declared given

/-! ## What stands beside the root element -/

/-- A node that stands at the top level beside the root element, with nothing below it: a document
type, or a comment or an instruction that can be read again. -/
def IsAside (tree : Tree) : Prop :=
  tree.kind.isElement = false ∧ tree.children = [] ∧ match tree.kind with
    | .comment content => IsComment content.toList
    | .instruction target data =>
      (∃ options, IsTarget options target) ∧ ∀ text ∈ data, IsData text.toList
    | .doctype .. => True
    | _ => False

theorem IsMisc.isAside {options : ParseOptions} {tree : Tree} (isMisc : IsMisc options tree) :
    IsAside tree := by
  obtain ⟨kind, children⟩ := tree
  cases kind with
  | comment => exact ⟨rfl, isMisc.2.2, isMisc.1⟩
  | instruction => exact ⟨rfl, isMisc.2.2, ⟨options, isMisc.1⟩, isMisc.2.1⟩
  | _ => exact isMisc.elim

/-- Beside the root element stand no other elements. -/
theorem Layout.IsParsed.isAside {options : ParseOptions} {layout : Layout}
    (parsed : layout.IsParsed options) :
    ∀ other ∈ layout.early ++ typedTrees layout.type ++ layout.late, IsAside other := by
  simp only [List.forall_mem_append]
  refine ⟨⟨fun tree listed => (parsed.early tree listed).isAside, ?_⟩,
    fun tree listed => (parsed.late tree listed).isAside⟩
  cases type : layout.type with
  | none => nofun
  | some found =>
    exact List.forall_mem_cons.mpr ⟨⟨rfl, rfl, trivial⟩,
      fun tree listed => ((parsed.type found type).2 tree listed).isAside⟩

/-- A strict parse yields one element at the top level. It can be read again, and it is in normal
form. -/
theorem of_parse {options : ParseOptions} (strict : options.recover = false) {text : String}
    {draft : DocumentDraft} (h : parse options text = .ok draft) :
    ∃ before tree after, Draft.toTrees draft.nodes = before ++ tree :: after ∧
      (∀ other ∈ before ++ after, IsAside other) ∧ tree.kind.isElement = true ∧
      Readable options 0 .initial tree ∧ Canonical tree := by
  obtain ⟨layout, parsed, nodes, -⟩ := exists_layout strict h
  exact ⟨_, layout.root, layout.late, nodes, parsed.isAside, parsed.element, parsed.readable,
    parsed.canonical⟩

/-! ## Reading back -/

namespace Progress

variable {options : ParseOptions} {progress : Progress} {draft : Draft}

/-- The trees read so far, in order, the text after them included. -/
def shown (options : ParseOptions) (progress : Progress) : List Tree :=
  Draft.toTrees (progress.flush options).reverse

/-- Whether text read next becomes a text node of its own. -/
def AtMarkup (progress : Progress) : Prop :=
  progress.pending.chars = [] ∧ ∀ draft ∈ progress.here.head?, isText draft.toTree = false

theorem flush_of_empty (empty : progress.pending.chars = []) :
    progress.flush options = progress.here := by
  simp [flush, Pending.flush, empty, Draft.addText]

theorem shown_start : start.shown options = [] := by
  rw [shown, flush_of_empty rfl]
  rfl

theorem atMarkup_start : start.AtMarkup := ⟨rfl, nofun⟩

theorem shown_push : (progress.push options draft).shown options =
    progress.shown options ++ [draft.toTree] := by
  rw [shown, flush_of_empty rfl, push]
  simp [shown, toTrees_eq_map]

theorem atMarkup_push (solid : isText draft.toTree = false) :
    (progress.push options draft).AtMarkup :=
  ⟨rfl, by simpa [push] using solid⟩

theorem shown_add (keep : options.noBlanks = false) (atMarkup : progress.AtMarkup) {content : String}
    (nonempty : content.toList ≠ []) : (progress.add content.toList).shown options =
      progress.shown options ++ [.leaf (.text content)] := by
  obtain ⟨here, pending⟩ := progress
  obtain ⟨empty, solid⟩ := atMarkup
  have some : content.isEmpty = false := by
    rw [← Bool.not_eq_true, String.isEmpty_iff]
    rintro rfl
    exact nonempty rfl
  rw [shown, shown, flush_of_empty empty, add, flush, Pending.flush]
  simp only [Pending.chars_add, show pending.chars = [] from empty, List.append_nil,
    List.reverse_reverse, String.ofList_toList, Draft.addText, some, keep, Bool.false_and,
    Bool.or_self, Bool.false_eq_true, ↓reduceIte]
  split
  · simp [isText, Draft.toTree, Tree.kind] at solid
  · simp [toTrees_eq_map, Draft.toTree, Tree.leaf]

mutual

/-- A tree in normal form goes after what was read, as it is. -/
theorem shown_absorb (keep : options.noBlanks = false) (tree : Tree) {progress : Progress}
    (canonical : Canonical tree) (fits : isText tree = true → progress.AtMarkup) :
    (progress.absorb options tree).shown options = progress.shown options ++ [tree] ∧
      (isText tree = false → (progress.absorb options tree).AtMarkup) := by
  obtain ⟨kind, children⟩ := tree
  cases kind with
  | document => exact canonical.elim
  | doctype => exact canonical.elim
  | text content =>
    obtain ⟨nonempty, rfl⟩ := canonical
    exact ⟨shown_add keep (fits rfl) nonempty, nofun⟩
  | cdata content =>
    obtain ⟨plain, clear, rfl⟩ := canonical
    rw [absorb, sections_eq_self clear, List.foldl_nil, lineEnds_eq_self plain,
      String.ofList_toList]
    exact ⟨shown_push, fun _ => atMarkup_push rfl⟩
  | comment content =>
    obtain ⟨plain, rfl⟩ := canonical
    rw [absorb, lineEnds_eq_self plain, String.ofList_toList]
    exact ⟨shown_push, fun _ => atMarkup_push rfl⟩
  | instruction target data =>
    obtain rfl := canonical
    rw [absorb]
    exact ⟨shown_push, fun _ => atMarkup_push rfl⟩
  | element name uri attributes =>
    have inside := shown_absorbAll keep children canonical.1 canonical.2
      fun _ _ _ => atMarkup_start
    rw [shown_start, List.nil_append, shown] at inside
    rw [absorb]
    refine ⟨shown_push.trans ?_, fun _ => atMarkup_push rfl⟩
    rw [Draft.toTree, inside]

theorem shown_absorbAll (keep : options.noBlanks = false) (trees : List Tree) {progress : Progress}
    (canonical : CanonicalAll trees) (spaced : trees.IsChain Apart)
    (fits : ∀ tree ∈ trees.head?, isText tree = true → progress.AtMarkup) :
    (progress.absorbAll options trees).shown options = progress.shown options ++ trees := by
  cases trees with
  | nil => rw [absorbAll, List.append_nil]
  | cons tree rest =>
    obtain ⟨first, after⟩ := shown_absorb keep tree canonical.1 (fits tree rfl)
    rw [List.isChain_cons] at spaced
    rw [absorbAll, shown_absorbAll keep rest canonical.2 spaced.2, first, List.append_assoc]
    · rfl
    · intro second known isText'
      rcases spaced.1 second known with solid | solid
      · exact after solid
      · rw [solid] at isText'
        cases isText'

end

end Progress

/-- An element in normal form is read back as it is. -/
theorem readBack_eq_self {options : ParseOptions} (keep : options.noBlanks = false) {tree : Tree}
    (isElement : tree.kind.isElement = true) (canonical : Canonical tree) :
    readBack options tree = tree := by
  obtain ⟨kind, children⟩ := tree
  cases kind with
  | element name uri attributes =>
    have inside := Progress.shown_absorbAll keep children canonical.1 canonical.2
      fun _ _ _ => Progress.atMarkup_start
    rw [Progress.shown_start, List.nil_append, Progress.shown] at inside
    rw [readBack, Tree.children, inside, Tree.kind]
  | _ => cases isElement

end Markup.Xml
