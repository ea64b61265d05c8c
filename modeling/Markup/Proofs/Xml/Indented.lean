import Markup.Proofs.Xml.Normal

/-!
# Trees that are written with indentation

What is written for a tree with indentation is what is written for another tree without it: where an
element has elements below it, but no text worth keeping, there is a line end with a margin before
each child and before the end tag, and no other text. This tree can be read wherever the first one
can. Both are the same apart from blanks if and only if no text is left out that holds more than the
blanks of markup.
-/

namespace Markup.Xml

namespace WriteOptions

/-- Whether lines are indented by spaces and tabs. -/
def IsPlain (options : WriteOptions) : Prop := ∀ c ∈ options.unit.toList, c = ' ' ∨ c = '\t'

/-- The end of a line with the margin of the next one, as a text node. -/
def line (options : WriteOptions) (level : Nat) : Tree :=
  .leaf (.text ("\n" ++ options.margin true level))

/-- What stands between two nodes: the end of a line, if lines are indented here. -/
def breaks (options : WriteOptions) (pretty : Bool) (level : Nat) : List Tree :=
  if pretty then [options.line level] else []

end WriteOptions

mutual

/-- The tree that is written without indentation as a tree at some level is written with it. -/
def indented (options : WriteOptions) (level : Nat) : Tree → Tree
  | .node kind children =>
    .node kind (indentedAll options (level + 1) (isElementOnly children) children ++
      options.breaks (isElementOnly children) level)

/-- The trees that are written without indentation as the children of an element are written with
it. -/
def indentedAll (options : WriteOptions) (level : Nat) (pretty : Bool) : List Tree → List Tree
  | [] => []
  | tree :: rest =>
    (if pretty && isBlankText tree.kind then []
      else options.breaks pretty level ++ [indented options level tree]) ++
        indentedAll options level pretty rest

end

variable {options : WriteOptions} {level : Nat} {pretty : Bool} {tree : Tree}
  {trees children : List Tree}

@[simp] theorem kind_indented (tree : Tree) : (indented options level tree).kind = tree.kind := by
  obtain ⟨kind, children⟩ := tree
  rfl

@[simp] theorem isText_indented (tree : Tree) :
    isText (indented options level tree) = isText tree := by
  rw [isText, isText, kind_indented]

theorem indentedAll_false (trees : List Tree) :
    indentedAll options level false trees = trees.map (indented options level) := by
  induction trees with
  | nil => rfl
  | cons tree rest ih =>
    rw [indentedAll, ih]
    rfl

/-- Nothing changes in a node without children. -/
theorem indented_leaf (kind : NodeKind) : indented options level (.leaf kind) = .leaf kind := rfl

theorem Canonical.indented_of_isBlankText (canonical : Canonical tree)
    (blank : isBlankText tree.kind = true) : indented options level tree = tree := by
  obtain ⟨kind, children⟩ := tree
  cases kind with
  | text content =>
    obtain rfl := canonical.2
    rfl
  | _ => cases blank

theorem mem_breaks : tree ∈ options.breaks pretty level ↔
    pretty = true ∧ tree = options.line level := by
  cases pretty <;> simp [WriteOptions.breaks]

/-- What stands on the lines of indented trees: line ends, and the trees that are not left out. -/
theorem mem_indentedAll : tree ∈ indentedAll options level pretty trees ↔
    ∃ other ∈ trees, (pretty && isBlankText other.kind) = false ∧
      (tree ∈ options.breaks pretty level ∨ tree = indented options level other) := by
  induction trees with
  | nil => simp [indentedAll]
  | cons first rest ih =>
    rw [indentedAll, List.mem_append, ih, List.exists_mem_cons_iff]
    refine or_congr ?_ Iff.rfl
    cases pretty && isBlankText first.kind <;> simp

/-- A node below an indented tree is a line end or a node of the tree, indented. -/
theorem mem_children_indented
    (listed : tree ∈ indentedAll options (level + 1) pretty trees ++ options.breaks pretty level) :
    (∃ level, tree = options.line level) ∨
      ∃ other ∈ trees, tree = indented options (level + 1) other := by
  rcases List.mem_append.mp listed with listed | listed
  · obtain ⟨other, within, -, listed | same⟩ := mem_indentedAll.mp listed
    · exact .inl ⟨_, (mem_breaks.mp listed).2⟩
    · exact .inr ⟨other, within, same⟩
  · exact .inl ⟨_, (mem_breaks.mp listed).2⟩

/-- A node has children after indentation if and only if it had some before: they were not all left
out, because there is an element among them. -/
theorem isEmpty_indented (children : List Tree) :
    (indentedAll options (level + 1) (isElementOnly children) children ++
      options.breaks (isElementOnly children) level).isEmpty = children.isEmpty := by
  cases inner : isElementOnly children with
  | true =>
    cases children with
    | nil => cases inner
    | cons => simp [WriteOptions.breaks]
  | false => simp [indentedAll_false, WriteOptions.breaks]

/-- Text is either blank or worth keeping. -/
theorem isText_eq_false (kept : isBlankText tree.kind = false)
    (solid : isSolidText tree.kind = false) : isText tree = false := by
  obtain ⟨kind, children⟩ := tree
  cases kind with
  | text content => exact absurd ((Bool.not_eq_false' ..).mp solid) (Bool.eq_false_iff.mp kept)
  | _ => rfl

theorem isSolidText_eq_false (inner : isElementOnly children = true) :
    ∀ tree ∈ children, isSolidText tree.kind = false := by
  rw [isElementOnly, Bool.and_eq_true, Bool.not_eq_true', List.any_eq_false] at inner
  simpa using inner.2

/-! ## What is written -/

@[simp] theorem spellAll_append (trees others : List Tree) :
    spellAll (trees ++ others) = spellAll trees ++ spellAll others := by
  induction trees with
  | nil => rfl
  | cons tree rest ih => rw [List.cons_append, spellAll, spellAll, ih, List.append_assoc]

theorem WriteOptions.IsPlain.mem_margin (plain : options.IsPlain) {c : Char}
    (listed : c ∈ (options.margin pretty level).toList) : c = ' ' ∨ c = '\t' := by
  cases pretty with
  | true =>
    rw [margin, if_pos rfl, String.toList_join, List.mem_flatMap] at listed
    obtain ⟨unit, repeated, within⟩ := listed
    rw [List.eq_of_mem_replicate repeated] at within
    exact plain c within
  | false => cases listed

/-- Line ends, spaces and tabs are not escaped in text. -/
theorem flatMap_escapeTextChar_of_plain {text : List Char}
    (each : ∀ c ∈ text, c = '\n' ∨ c = ' ' ∨ c = '\t') : text.flatMap escapeTextChar = text := by
  induction text with
  | nil => rfl
  | cons c text ih =>
    obtain ⟨first, others⟩ := List.forall_mem_cons.mp each
    rw [List.flatMap_cons, ih others]
    rcases first with rfl | rfl | rfl <;> rfl

theorem WriteOptions.IsPlain.mem_line (plain : options.IsPlain) {c : Char}
    (listed : c ∈ ("\n" ++ options.margin true level).toList) : c = '\n' ∨ c = ' ' ∨ c = '\t' := by
  rcases List.mem_append.mp (String.toList_append ▸ listed) with first | other
  · exact .inl (List.mem_singleton.mp first)
  · exact .inr (plain.mem_margin other)

/-- The end of a line and a margin are written as they stand. -/
theorem WriteOptions.IsPlain.spellAll_breaks (plain : options.IsPlain) (pretty : Bool)
    (level : Nat) : spellAll (options.breaks pretty level) =
      (WriteOptions.lineEnd pretty).toList ++ (options.margin pretty level).toList := by
  cases pretty with
  | true =>
    rw [breaks, if_pos rfl, spellAll, spellAll, line, Tree.leaf, spell, writeLeaf, escapeText,
      String.toList_ofList, flatMap_escapeTextChar_of_plain fun c => plain.mem_line,
      String.toList_append, List.append_nil]
    · rfl
    all_goals (intros; contradiction)
  | false => rfl

mutual

/-- With indentation a tree is written as its indented form is without. -/
theorem toList_write_indented (indents : options.indent = true) (plain : options.IsPlain)
    (level : Nat) (pretty : Bool) (tree : Tree) (canonical : Canonical tree)
    (solid : pretty = true → isBlankText tree.kind = false ∧ isSolidText tree.kind = false) :
    (write options level pretty [] tree).toList = (options.margin pretty level).toList ++
      spell (indented options level tree) ++ (WriteOptions.lineEnd pretty).toList := by
  match tree with
  | .node (.element name uri attributes) children =>
    rw [write, indented, spell, isEmpty_indented]
    cases children with
    | nil => simp [declarationsOf, writtenHead, writtenEnd, List.flatMap_map]
    | cons child others =>
      have inside := toList_writeAll_indented indents plain (level + 1)
        (isElementOnly (child :: others)) (child :: others) canonical.1 isSolidText_eq_false
      have inside' := congrArg
        (· ++ (options.margin (isElementOnly (child :: others)) level).toList) inside
      simp only [List.append_assoc] at inside'
      rw [← plain.spellAll_breaks, ← spellAll_append] at inside'
      simp [declarationsOf, writtenHead, writtenEnd, List.flatMap_map, indents, ← inside']
  | .node (.text content) children =>
    cases pretty with
    | true => simp [isBlankText, isSolidText, Tree.kind] at solid
    | false => simp [write, indented, spell, WriteOptions.margin, WriteOptions.lineEnd]
  | .node (.cdata content) children =>
    cases pretty with
    | true => simp [isBlankText, isSolidText, Tree.kind] at solid
    | false => simp [write, indented, spell, WriteOptions.margin, WriteOptions.lineEnd]
  | .node (.comment content) children => simp [write, indented, spell]
  | .node (.instruction target data) children => simp [write, indented, spell]
  | .node .document children => exact canonical.elim
  | .node (.doctype ..) children => exact canonical.elim

theorem toList_writeAll_indented (indents : options.indent = true) (plain : options.IsPlain)
    (level : Nat) (pretty : Bool) (trees : List Tree) (canonical : CanonicalAll trees)
    (solid : pretty = true → ∀ tree ∈ trees, isSolidText tree.kind = false) :
    (WriteOptions.lineEnd pretty).toList ++ (writeAll options level pretty pretty trees).toList =
      spellAll (indentedAll options level pretty trees) ++
        (WriteOptions.lineEnd pretty).toList := by
  match trees with
  | [] => simp [writeAll, indentedAll, spellAll]
  | tree :: rest =>
    have others := toList_writeAll_indented indents plain level pretty rest canonical.2
      fun inner other listed => solid inner other (List.mem_cons_of_mem _ listed)
    rw [writeAll, indentedAll]
    split
    · simpa using others
    · rename_i kept
      have first := toList_write_indented indents plain level pretty tree canonical.1
        fun inner => ⟨by simpa [inner] using kept, solid inner tree List.mem_cons_self⟩
      simp only [String.toList_append, first, spellAll_append, plain.spellAll_breaks, spellAll,
        List.append_assoc, others, List.append_nil]

end

/-! ## What is read -/

theorem WriteOptions.IsPlain.isLegal_line (plain : options.IsPlain) :
    IsLegal ("\n" ++ options.margin true level).toList := by
  intro c listed
  rcases plain.mem_line listed with rfl | rfl | rfl <;> decide

/-- An indented tree can be read where the tree can. -/
theorem Readable.indented {parse : ParseOptions} {depth : Nat} {scope : Scope}
    (plain : options.IsPlain) (readable : Readable parse depth scope tree) (level : Nat) :
    Readable parse depth scope (indented options level tree) := by
  induction tree using Tree.induction generalizing depth scope level with
  | node kind children ih =>
    cases kind with
    | element name uri attributes =>
      obtain ⟨shallow, isTag, inside⟩ := readable
      refine ⟨shallow, isTag, readableAll_iff.mpr fun other listed => ?_⟩
      rcases mem_children_indented listed with ⟨_, rfl⟩ | ⟨child, within, rfl⟩
      · exact plain.isLegal_line
      · exact ih child within (readableAll_iff.mp inside child within) _
    | _ => exact readable

/-- Where lines are indented, a node that is no text follows on each line end. -/
theorem isChain_indentedAll (solid : ∀ tree ∈ trees, isSolidText tree.kind = false) (last : Tree) :
    (indentedAll options level true trees ++ [last]).IsChain Apart := by
  induction trees with
  | nil => exact .singleton last
  | cons tree rest ih =>
    obtain ⟨first, others⟩ := List.forall_mem_cons.mp solid
    rw [indentedAll]
    split
    · exact ih others
    · rename_i kept
      have apart : isText (indented options level tree) = false := by
        rw [isText_indented]
        exact isText_eq_false (by simpa using kept) first
      refine List.isChain_cons_cons.mpr ⟨.inr apart, List.isChain_cons.mpr ⟨?_, ih others⟩⟩
      exact fun _ _ => .inl apart

/-- An indented tree is in normal form if the tree is. -/
theorem Canonical.indented (canonical : Canonical tree) (level : Nat) :
    Canonical (indented options level tree) := by
  induction tree using Tree.induction generalizing level with
  | node kind children ih =>
    cases kind with
    | element name uri attributes =>
      refine ⟨canonicalAll_iff.mpr fun other listed => ?_, ?_⟩
      · rcases mem_children_indented listed with ⟨_, rfl⟩ | ⟨child, within, rfl⟩
        · exact ⟨by simp, rfl⟩
        · exact ih child within (canonicalAll_iff.mp canonical.1 child within) _
      · cases inner : isElementOnly children with
        | true => exact isChain_indentedAll (isSolidText_eq_false inner) _
        | false =>
          rw [indentedAll_false, WriteOptions.breaks, if_neg nofun, List.append_nil,
            List.isChain_map]
          exact canonical.2.imp fun left right apart => by simpa [Apart] using apart
    | _ =>
      obtain rfl := canonical.childless rfl
      exact canonical

/-! ## What is the same -/

/-- Whether a node is text of the blanks of markup. -/
def isSpacing : NodeKind → Bool
  | .text content => content.toList.all Text.isMarkupBlank
  | _ => false

/-- Whether a node is character data with more in it than the blanks of markup. -/
def isSubstance : NodeKind → Bool
  | .text content => !content.toList.all Text.isMarkupBlank
  | .cdata _ => true
  | _ => false

/-- Whether there are elements among the children of a node, but neither sections nor text with more
in it than the blanks of markup. -/
def isSpaced (children : List Tree) : Bool :=
  (children.any fun child => child.kind.isElement) &&
    !children.any fun child => isSubstance child.kind

mutual

/-- A tree without the blanks that stand between elements and not beside other text. -/
def closedUp : Tree → Tree
  | .node kind children => .node kind (closedUpAll (isSpaced children) children)

/-- Trees without the blanks between elements, and without the blanks between the trees if they are
`spaced`. -/
def closedUpAll (spaced : Bool) : List Tree → List Tree
  | [] => []
  | tree :: rest =>
    (if spaced && isSpacing tree.kind then [] else [closedUp tree]) ++ closedUpAll spaced rest

end

mutual

/-- Whether indentation leaves out nothing but the blanks of markup from a tree: all text that is
blank between elements is made of them. -/
def KeepsText : Tree → Prop
  | .node _ children =>
    (isElementOnly children = true → isSpaced children = true) ∧ KeepsTextAll children

/-- Whether indentation leaves out nothing but the blanks of markup from each of some trees. -/
def KeepsTextAll : List Tree → Prop
  | [] => True
  | tree :: rest => KeepsText tree ∧ KeepsTextAll rest

end

theorem keepsTextAll_iff : KeepsTextAll trees ↔ ∀ tree ∈ trees, KeepsText tree := by
  induction trees with
  | nil => simp [KeepsTextAll]
  | cons tree rest ih => rw [KeepsTextAll, ih, List.forall_mem_cons]

@[simp] theorem kind_closedUp (tree : Tree) : (closedUp tree).kind = tree.kind := by
  obtain ⟨kind, children⟩ := tree
  rfl

theorem closedUpAll_eq (spaced : Bool) (trees : List Tree) : closedUpAll spaced trees =
    (trees.filter fun tree => !(spaced && isSpacing tree.kind)).map closedUp := by
  induction trees with
  | nil => rfl
  | cons tree rest ih =>
    rw [closedUpAll, ih, List.filter_cons]
    cases spaced && isSpacing tree.kind <;> rfl

/-- The blanks of markup are blank. -/
theorem isBlankText_of_isSpacing {kind : NodeKind} (spacing : isSpacing kind = true) :
    isBlankText kind = true := by
  cases kind with
  | text content =>
    refine List.all_eq_true.mpr fun c listed => ?_
    have blank := List.all_eq_true.mp spacing c listed
    simp only [Text.isMarkupBlank, Bool.or_eq_true, beq_iff_eq] at blank
    rcases blank with ((rfl | rfl) | rfl) | rfl <;> decide
  | _ => cases spacing

theorem isSubstance_of_isSolidText {kind : NodeKind} (solid : isSolidText kind = true) :
    isSubstance kind = true := by
  cases kind with
  | text content =>
    rw [isSubstance, Bool.not_eq_true', Bool.eq_false_iff]
    intro spacing
    have blank : Text.isAllBlank content = true :=
      isBlankText_of_isSpacing (show isSpacing (.text content) = true from spacing)
    rw [isSolidText, blank] at solid
    cases solid
  | cdata => rfl
  | _ => cases solid

theorem isSubstance_eq_false {kind : NodeKind} (kept : isBlankText kind = false)
    (solid : isSolidText kind = false) : isSubstance kind = false := by
  cases kind with
  | text content => exact absurd ((Bool.not_eq_false' ..).mp solid) (Bool.eq_false_iff.mp kept)
  | cdata => cases solid
  | _ => rfl

theorem isElementOnly_of_isSpaced (spaced : isSpaced children = true) :
    isElementOnly children = true := by
  simp only [isSpaced, isElementOnly, Bool.and_eq_true, Bool.not_eq_true', List.any_eq_false]
    at spaced ⊢
  exact ⟨spaced.1, fun tree listed solid =>
    spaced.2 tree listed (isSubstance_of_isSolidText solid)⟩

theorem WriteOptions.IsPlain.isSpacing_line (plain : options.IsPlain) :
    isSpacing (options.line level).kind = true := by
  refine List.all_eq_true.mpr fun c listed => ?_
  rcases plain.mem_line listed with rfl | rfl | rfl <;> rfl

/-- What is left of indented children without the blanks between them. -/
theorem closedUpAll_indentedAll (plain : options.IsPlain) (lower : Nat) (trees : List Tree) :
    closedUpAll true (indentedAll options level true trees ++ [options.line lower]) =
      (trees.filter fun tree => !isBlankText tree.kind).map fun tree =>
        closedUp (indented options level tree) := by
  induction trees with
  | nil => simp [closedUpAll, indentedAll, plain.isSpacing_line]
  | cons tree rest ih =>
    rw [indentedAll, List.filter_cons]
    cases blank : isBlankText tree.kind with
    | true => exact ih
    | false =>
      have other : isSpacing tree.kind = false :=
        Bool.eq_false_iff.mpr fun spacing => by
          rw [isBlankText_of_isSpacing spacing] at blank
          cases blank
      simp [closedUpAll, WriteOptions.breaks, plain.isSpacing_line, other, ih]

/-- Children that are elements, with no text worth keeping beside them, are elements and blanks of
markup when they are indented. -/
theorem isSpaced_indentedAll (plain : options.IsPlain) (inner : isElementOnly children = true)
    (lower : Nat) :
    isSpaced (indentedAll options level true children ++ [options.line lower]) = true := by
  have solid := isSolidText_eq_false inner
  rw [isElementOnly, Bool.and_eq_true, List.any_eq_true] at inner
  obtain ⟨⟨element, listed, isElement⟩, -⟩ := inner
  rw [isSpaced, Bool.and_eq_true, Bool.not_eq_true', List.any_eq_true, List.any_eq_false]
  constructor
  · refine ⟨indented options level element, List.mem_append_left _ (mem_indentedAll.mpr
      ⟨element, listed, ?_, .inr rfl⟩), by rwa [kind_indented]⟩
    cases kind : element.kind <;> simp [kind, isBlankText, NodeKind.isElement] at isElement ⊢
  · intro tree listed
    have line : ∀ level, isSubstance (options.line level).kind = false := fun level =>
      (Bool.not_eq_false' ..).mpr plain.isSpacing_line
    rcases List.mem_append.mp listed with listed | listed
    · obtain ⟨other, within, kept, listed | rfl⟩ := mem_indentedAll.mp listed
      · simp [(mem_breaks.mp listed).2, line]
      · rw [kind_indented, isSubstance_eq_false (by simpa using kept) (solid other within)]
        nofun
    · simp [List.mem_singleton.mp listed, line]

theorem isSpacing_eq_isBlankText {kind : NodeKind} (slight : isSubstance kind = false) :
    isSpacing kind = isBlankText kind := by
  cases kind with
  | text content =>
    have spacing : isSpacing (.text content) = true := (Bool.not_eq_false' ..).mp slight
    rw [spacing, isBlankText_of_isSpacing spacing]
  | _ => rfl

/-- Children with more text among them than blanks of markup are not the same once that text is left
out. -/
theorem closedUpAll_ne (inner : isElementOnly children = true)
    (spaced : isSpaced children = false) :
    ((children.filter fun tree => !isBlankText tree.kind).map fun tree =>
      closedUp (indented options level tree)) ≠ closedUpAll false children := by
  intro same
  have solid := isSolidText_eq_false inner
  obtain ⟨text, listed, substance⟩ : ∃ text ∈ children, isSubstance text.kind = true := by
    rw [isElementOnly, Bool.and_eq_true] at inner
    simpa [isSpaced, inner.1] using spaced
  -- The text stands on the right, so a node of its kind would have been kept on the left.
  have kinds := congrArg (List.map Tree.kind) same
  have stands : text.kind ∈ (closedUpAll false children).map Tree.kind := by
    simpa [closedUpAll_eq] using ⟨text, listed, rfl⟩
  rw [← kinds] at stands
  obtain ⟨other, ⟨within, kept⟩, same⟩ : ∃ other : Tree,
      (other ∈ children ∧ isBlankText other.kind = false) ∧ other.kind = text.kind := by
    simpa using stands
  rw [same] at kept
  rw [isSubstance_eq_false kept (solid text listed)] at substance
  cases substance

/-- Where blanks of markup are left out, all that is left is kept by indentation if and only if all
children are, since a blank is not changed by it. -/
theorem closedUpAll_spaced_iff {children : List Tree} (canonical : CanonicalAll children)
    (spaced : isSpaced children = true) :
    (children.filter fun child => !isBlankText child.kind).map
        (fun child => closedUp (indented options level child)) = closedUpAll true children ↔
      ∀ child ∈ children, closedUp (indented options level child) = closedUp child := by
  have slight : ∀ child ∈ children, isSubstance child.kind = false := by
    rw [isSpaced, Bool.and_eq_true] at spaced
    simpa using spaced.2
  have same : (children.filter fun child => !(true && isSpacing child.kind)) =
      children.filter fun child => !isBlankText child.kind :=
    List.filter_congr fun child listed => by
      rw [Bool.true_and, isSpacing_eq_isBlankText (slight child listed)]
  rw [closedUpAll_eq, same, List.map_inj_left]
  constructor
  · intro kept child listed
    cases blank : isBlankText child.kind with
    | true =>
      rw [(canonicalAll_iff.mp canonical child listed).indented_of_isBlankText blank]
    | false => exact kept child (List.mem_filter.mpr ⟨listed, by rw [blank]; rfl⟩)
  · exact fun each child kept => each child (List.mem_of_mem_filter kept)

/-- Indentation changes nothing but blanks between elements if and only if it leaves out nothing but
blanks of markup. -/
theorem closedUp_indented_iff (plain : options.IsPlain) (canonical : Canonical tree) (level : Nat) :
    closedUp (indented options level tree) = closedUp tree ↔ KeepsText tree := by
  induction tree using Tree.induction generalizing level with
  | node kind children ih =>
    cases kind with
    | element name uri attributes =>
      have each : (∀ child ∈ children,
          closedUp (indented options (level + 1) child) = closedUp child) ↔
          KeepsTextAll children := by
        rw [keepsTextAll_iff]
        exact forall₂_congr fun child listed =>
          ih child listed (canonicalAll_iff.mp canonical.1 child listed) _
      rw [indented, closedUp, closedUp, KeepsText, Tree.node.injEq, ← each, eq_self, true_and]
      cases inner : isElementOnly children with
      | false =>
        have apart : isSpaced children = false :=
          Bool.eq_false_iff.mpr fun spaced => by
            rw [isElementOnly_of_isSpaced spaced] at inner
            cases inner
        have apart' : isSpaced (children.map (indented options (level + 1))) = false := by
          simpa [isSpaced, Function.comp_def] using apart
        rw [indentedAll_false, WriteOptions.breaks, if_neg nofun, List.append_nil, apart, apart']
        simp [closedUpAll_eq]
      | true =>
        rw [WriteOptions.breaks, if_pos rfl, isSpaced_indentedAll plain inner,
          closedUpAll_indentedAll plain]
        cases spaced : isSpaced children with
        | false => simpa using closedUpAll_ne inner spaced
        | true => simp [closedUpAll_spaced_iff canonical.1 spaced]
    | _ =>
      obtain rfl := canonical.childless rfl
      simp [indented, indentedAll, WriteOptions.breaks, KeepsText, KeepsTextAll, isElementOnly]

end Markup.Xml
