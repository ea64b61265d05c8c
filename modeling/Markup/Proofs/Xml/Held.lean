import Markup.Proofs.Xml.Parsed
import Markup.Proofs.Xml.Weight

/-!
# How much a document holds

The nodes of a document hold no more bytes than the text has, once for the text itself and once for
each expansion that the limit admits, since no replacement text is longer than the text.
-/

namespace Markup

theorem NodeKind.byteSize_text (content : String) :
    (text content).byteSize = Text.byteLength content.toList :=
  Nat.add_zero _

mutual

/-- The bytes that the nodes of a tree hold. -/
def Tree.byteSize : Tree → Nat
  | .node kind children => kind.byteSize + byteSizeAll children

/-- The bytes that the nodes of some trees hold. -/
def Tree.byteSizeAll : List Tree → Nat
  | [] => 0
  | tree :: rest => byteSize tree + byteSizeAll rest

end

theorem Tree.byteSizeAll_eq (trees : List Tree) :
    byteSizeAll trees = (trees.map byteSize).sum := by
  induction trees with
  | nil => rfl
  | cons tree rest ih => rw [byteSizeAll, ih, List.map_cons, List.sum_cons]

namespace Xml

/-! ## Content -/

/-- The bytes that drafts hold. -/
def Draft.byteSizes (drafts : List Draft) : Nat := (drafts.map (·.toTree.byteSize)).sum

/-- The bytes that an opened element and the nodes before it hold. -/
def OpenElement.byteSize (element : OpenElement) : Nat :=
  element.tag.kind.byteSize + Draft.byteSizes element.before

/-- The bytes that opened elements and the nodes before them hold. -/
def OpenElement.byteSizes (path : List OpenElement) : Nat := (path.map byteSize).sum

/-- The bytes that a piece of markup holds. -/
def Item.byteSize : Item → Nat
  | .leaf kind => kind.byteSize
  | .start tag => tag.kind.byteSize

namespace Draft

variable {drafts copies : List Draft} {draft : Draft}

@[simp] theorem byteSizes_nil : byteSizes [] = 0 := rfl

@[simp] theorem byteSizes_cons :
    byteSizes (draft :: drafts) = draft.toTree.byteSize + byteSizes drafts := by
  rw [byteSizes, List.map_cons, List.sum_cons, ← byteSizes]

theorem byteSizes_reverse : byteSizes drafts.reverse = byteSizes drafts := by
  rw [byteSizes, List.map_reverse, List.sum_reverse, ← byteSizes]

theorem byteSizeAll_toTrees : Tree.byteSizeAll (toTrees drafts) = byteSizes drafts := by
  rw [Tree.byteSizeAll_eq, toTrees_eq_map, List.map_map]
  rfl

theorem byteSize_leaf (kind : NodeKind) : (written kind []).toTree.byteSize = kind.byteSize :=
  Nat.add_zero _

theorem byteSizes_addText_le (drafts : List Draft) (noBlanks : Bool) (content : String) :
    byteSizes (addText noBlanks content drafts) ≤
      Text.byteLength content.toList + byteSizes drafts := by
  unfold addText
  split
  · exact Nat.le_add_left ..
  · split
    · rename_i earlier children rest
      rw [byteSizes_cons, byteSizes_cons, byteSize_leaf, NodeKind.byteSize_text,
        String.toList_append, Text.byteLength_append, toTree, Tree.byteSize, NodeKind.byteSize_text]
      omega
    · rw [byteSizes_cons, byteSize_leaf]
      exact Nat.le_refl _

theorem byteSizes_flush_le (drafts : List Draft) (pending : Pending) (options : ParseOptions) :
    byteSizes (pending.flush options drafts) ≤
      Text.byteLength pending.chars + byteSizes drafts := by
  have added := byteSizes_addText_le drafts options.noBlanks
    (String.ofList pending.chars.reverse)
  rwa [String.toList_ofList, Reader.byteLength_reverse] at added

theorem byteSizes_addCopies_le (drafts copies : List Draft) (noBlanks : Bool) :
    byteSizes (addCopies noBlanks drafts copies) ≤ byteSizes drafts + byteSizes copies := by
  fun_induction addCopies noBlanks drafts copies with
  | case1 => exact Nat.le_refl _
  | case2 drafts content children rest ih =>
    have := byteSizes_addText_le drafts noBlanks content
    rw [byteSizes_cons, toTree, Tree.byteSize, NodeKind.byteSize_text]
    omega
  | case3 drafts draft rest _ ih =>
    rw [byteSizes_cons] at ih ⊢
    exact Nat.le_trans ih (by simp only [toTree]; omega)

end Draft

/-- A closed element holds what its tag, its children and the nodes before it do. -/
theorem OpenElement.byteSizes_close (element : OpenElement) (children : List Draft) :
    Draft.byteSizes (element.close children) = element.byteSize + Draft.byteSizes children := by
  rw [close, Draft.byteSizes_cons, Draft.toTree, Tree.byteSize, Draft.byteSizeAll_toTrees,
    Draft.byteSizes_reverse, OpenElement.byteSize]
  omega

@[simp] theorem OpenElement.byteSizes_cons (element : OpenElement) (path : List OpenElement) :
    byteSizes (element :: path) = element.byteSize + byteSizes path := by
  rw [byteSizes, List.map_cons, List.sum_cons, ← byteSizes]

@[simp] theorem Pending.byteLength_empty : Text.byteLength Pending.empty.chars = 0 := rfl

namespace Reader

variable {r next : Reader} {options : ParseOptions} {cx : Context} {bound : Nat}
  {base level : Level}

theorem accrues_item {found : Item} (table : cx.entities.Within bound)
    (h : r.item cx level = .ok (found, next)) :
    Accrues cx.options.maxExpansions bound r 0 next found.byteSize := by
  unfold item at h
  split at h
  · obtain ⟨⟨content, last⟩, read, h⟩ := bind_eq_ok.mp h
    cases h
    exact .taken (takes_cdataSection ..) read (Nat.le_add_left ..)
  · split at h
    · obtain ⟨⟨content, last⟩, read, h⟩ := bind_eq_ok.mp h
      cases h
      exact .taken (takes_comment ..) read (Nat.le_add_left ..)
    · split at h
      · obtain ⟨⟨⟨target, data⟩, last⟩, read, h⟩ := bind_eq_ok.mp h
        cases h
        exact .taken (takes_instruction ..) read (Nat.le_add_left ..)
      · obtain ⟨⟨tag, last⟩, read, h⟩ := bind_eq_ok.mp h
        have accrues := accrues_startTag table read
        cases h
        cases tag.closed with
        | true => exact accrues
        | false => exact accrues

theorem byteLength_extend {pending more : Pending} {content : List Char}
    (h : r.extend options pending content = .ok more) :
    Text.byteLength more.chars = Text.byteLength content + Text.byteLength pending.chars := by
  unfold extend at h
  dsimp only at h
  split at h
  · exact absurd h not_fail
  · cases h
    rw [Pending.chars_add, Text.byteLength_append, byteLength_reverse]

/-- What the nodes of content hold was held before it, or was read in it. -/
theorem accrues_content (table : cx.entities.Within bound) {here children : List Draft}
    {path : List OpenElement} {pending : Pending}
    (h : content cx base r here path pending = .ok (children, next)) :
    Accrues cx.options.maxExpansions bound r
      (Text.byteLength pending.chars + Draft.byteSizes here + OpenElement.byteSizes path) next
      (Draft.byteSizes children) := by
  fun_induction content cx base r here path pending generalizing children next with
  | case1 cx base r here pending | case4 cx base r here pending =>
    cases h
    have flushed := Draft.byteSizes_flush_le here pending cx.options
    refine Accrues.refl.mono ?_ (Nat.le_of_eq Draft.byteSizes_reverse)
    exact Nat.le_trans flushed (Nat.le_add_right ..)
  | case3 cx base r here pending _ element path last reported ih =>
    have flushed := Draft.byteSizes_flush_le here pending cx.options
    refine .past (passes_report ..) reported ((ih table h).mono ?_ (Nat.le_refl _))
    simp only [OpenElement.byteSizes_close, OpenElement.byteSizes_cons, Pending.byteLength_empty]
    omega
  | case6 cx base r here pending _ _ _ _ _ element path last closed ih =>
    have flushed := Draft.byteSizes_flush_le here pending cx.options
    refine .past (takes_endTag ..) closed ((ih table h).mono ?_ (Nat.le_refl _))
    simp only [OpenElement.byteSizes_close, OpenElement.byteSizes_cons, Pending.byteLength_empty]
    omega
  | case8 cx base r here path pending _ _ _ _ _ kind last read ih =>
    have flushed := Draft.byteSizes_flush_le here pending cx.options
    refine ((accrues_item table read).add _).trans ((ih table h).mono ?_ (Nat.le_refl _))
    simp only [Draft.byteSizes_cons, Draft.byteSize_leaf, Pending.byteLength_empty, Item.byteSize]
    omega
  | case9 cx base r here path pending _ _ _ _ _ tag last read ih =>
    have flushed := Draft.byteSizes_flush_le here pending cx.options
    refine ((accrues_item table read).add _).trans ((ih table h).mono ?_ (Nat.le_refl _))
    simp only [Draft.byteSizes_nil, OpenElement.byteSizes_cons, OpenElement.byteSize,
      Pending.byteLength_empty, Item.byteSize]
    omega
  | case12 =>
    rename_i read _ extended ih
    refine (accrues_text read).trans ((ih table h).mono ?_ (Nat.le_refl _))
    rw [byteLength_extend extended]
    omega
  | case14 =>
    rename_i read _ _ extended ih
    refine (accrues_plain table read).trans ((ih table h).mono ?_ (Nat.le_refl _))
    rw [byteLength_extend extended]
    omega
  | case16 cx base r here path pending =>
    -- What replacement text yields is copied in, and adds to what was held before the reference.
    rename_i read _ copies inner inside _ before within ih
    have flushed : Draft.byteSizes before ≤ _ := Draft.byteSizes_flush_le here pending cx.options
    have copied := Draft.byteSizes_addCopies_le before copies cx.options.noBlanks
    have brought := (accrues_within table read (within table inside)).add
      (Text.byteLength pending.chars + Draft.byteSizes here + OpenElement.byteSizes path)
    refine brought.trans ((ih table h).mono ?_ (Nat.le_refl _))
    simp only [Pending.byteLength_empty]
    omega
  | case17 => exact absurd h not_fail
  | case20 cx base r here path pending _ _ _ _ _ begins last reported _ extended ih =>
    have spelled : "]]>".toList <+: last.rest := by
      rw [rest_report reported]
      exact startsWith_iff.mp begins
    have taken : Text.byteLength "]]>".toList + (last.skip 3).remaining = last.remaining :=
      remaining_skip_prefix spelled
    have held : Accrues cx.options.maxExpansions bound last (Text.byteLength pending.chars +
        Draft.byteSizes here + OpenElement.byteSizes path) (last.skip 3)
        (Text.byteLength "]]>".toList + (Text.byteLength pending.chars +
        Draft.byteSizes here + OpenElement.byteSizes path)) := .quiet rfl (by omega)
    refine .past (passes_report ..) reported (held.trans ((ih table h).mono ?_ (Nat.le_refl _)))
    rw [byteLength_extend extended]
    omega
  | case23 =>
    rename_i read _ extended ih
    refine (accrues_char read).trans ((ih table h).mono ?_ (Nat.le_refl _))
    rw [byteLength_extend extended, Text.byteLength_cons, Text.byteLength_nil]
    omega
  | _ => cases h

/-! ## Whole documents -/

theorem accrues_rootElement {root : Draft} (table : cx.entities.Within bound)
    (h : r.rootElement cx = .ok (root, next)) :
    Accrues cx.options.maxExpansions bound r 0 next root.toTree.byteSize := by
  obtain ⟨⟨tag, first⟩, start, h⟩ := bind_eq_ok.mp h
  have opened := accrues_startTag table start
  dsimp only at h
  split at h
  · cases h
    rw [Draft.byteSize_leaf]
    exact opened
  · obtain ⟨⟨children, second⟩, inside, h⟩ := bind_eq_ok.mp h
    have within := (accrues_content table inside).frame tag.kind.byteSize
    have whole : Accrues cx.options.maxExpansions bound r 0 second
        (Draft.byteSizes children + tag.kind.byteSize) :=
      opened.trans (within.mono (by simp [OpenElement.byteSizes]) (Nat.le_refl _))
    have size : (Draft.written tag.kind children).toTree.byteSize =
        Draft.byteSizes children + tag.kind.byteSize := by
      rw [Draft.toTree, Tree.byteSize, Draft.byteSizeAll_toTrees, Nat.add_comm]
    dsimp only at h
    split at h
    · obtain ⟨last, reported, h⟩ := bind_eq_ok.mp h
      cases h
      rw [size]
      exact whole.trans (.past (passes_report ..) reported .refl)
    · obtain ⟨last, ended, h⟩ := bind_eq_ok.mp h
      cases h
      rw [size]
      exact whole.trans (.past (takes_endTag ..) ended .refl)

theorem accrues_misc {limit : Nat} {before after : List Draft}
    (h : misc options r before = .ok (after, next)) :
    Accrues limit bound r (Draft.byteSizes before) next (Draft.byteSizes after) := by
  fun_induction misc options r before with
  | case1 | case3 => cases h
  | case2 =>
    rename_i read ih
    exact .pastBlanks (.trans (.taken (takes_comment ..) read (Nat.le_add_left ..)) (ih h))
  | case4 =>
    rename_i read ih
    exact .pastBlanks (.trans (.taken (takes_instruction ..) read (Nat.le_add_left ..)) (ih h))
  | case5 r before => cases h; exact .pastBlanks .refl

theorem accrues_typeDeclaration {limit : Nat} {before after : List Draft} {table : EntityTable}
    (h : r.typeDeclaration options before = .ok ((after, table), next)) :
    Accrues limit bound r (Draft.byteSizes before) next (Draft.byteSizes after) := by
  unfold typeDeclaration at h
  split at h
  · obtain ⟨⟨⟨doctype, declared⟩, first⟩, read, h⟩ := bind_eq_ok.mp h
    obtain ⟨⟨nodes, second⟩, others, h⟩ := bind_eq_ok.mp h
    cases h
    refine .past (passes_doctype ..) read ((accrues_misc others).mono ?_ (Nat.le_refl _))
    rw [Draft.byteSizes_cons, Draft.byteSize_leaf]
    exact (Nat.zero_add _).le
  · cases h
    exact .refl

end Reader

open Reader

/-- The nodes of a document hold at most as many bytes as the text has, once for the text and once
for each expansion that is admitted. -/
theorem byteSizes_of_parse {options : ParseOptions} {text : String} {draft : DocumentDraft}
    (h : parse options text = .ok draft) : Draft.byteSizes draft.nodes ≤
      (1 + options.maxExpansions) * Text.byteLength text.toList := by
  obtain ⟨_, r₁, early, r₂, middle, table, r₃, root, r₄, late, r₅, _, headed, misc₁, type, -, -,
    element, misc₂, -, rfl⟩ := parse_eq_ok_iff.mp h
  have start : r₁.log.expansions = 0 := (passes_head ..).same headed
  have left : 0 + r₁.remaining ≤ Text.byteLength text.toList := (passes_head ..).taken headed
  have short : 0 + r₂.remaining ≤ r₁.remaining := (passes_misc ..).taken misc₁
  have within : table.Within (Text.byteLength text.toList) :=
    within_of_typeDeclaration (by omega) type
  have inside := (accrues_rootElement within element).add (Draft.byteSizes middle)
  rw [← Draft.byteSizes_cons] at inside
  have whole : Accrues options.maxExpansions (Text.byteLength text.toList) r₁ 0 r₅
      (Draft.byteSizes late) :=
    .trans (accrues_misc misc₁) <| .trans (accrues_typeDeclaration type) <|
      .trans inside <| accrues_misc misc₂
  have balance := whole.balance
  have most := Nat.mul_le_mul_right (Text.byteLength text.toList) (whole.within (by omega))
  rw [start] at balance
  rw [Draft.byteSizes_reverse, Nat.add_mul]
  omega

end Xml
end Markup
