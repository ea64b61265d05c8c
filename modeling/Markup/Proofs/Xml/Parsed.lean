import Mathlib.Data.List.Chain
import Markup.Proofs.Xml.ReadBack
import Markup.Proofs.Xml.Escape
import Markup.Xml.Doctype

/-!
# Trees that a parse yields

The strict parser yields trees that can be written and read again where they stand. They are in a
normal form as well: no text is empty, no text stands beside another, and line ends are line feeds.
The replacement text of an entity that holds no markup is taken over as it stands, so that its
characters have to be legal when it is declared.
-/

namespace Markup.Xml

/-! ## Replacement texts of declared entities -/

/-- Every replacement text holds legal characters only. -/
def EntityTable.IsLegal (table : EntityTable) : Prop :=
  ∀ entry ∈ table.internal, Xml.IsLegal entry.2.toList

theorem EntityTable.IsLegal.declareInternal {table : EntityTable} (legal : table.IsLegal)
    (entity : String) {replacement : String} (new : Xml.IsLegal replacement.toList) :
    (table.declareInternal entity replacement).IsLegal := by
  unfold EntityTable.declareInternal
  split
  · exact legal
  · exact List.forall_mem_cons.mpr ⟨new, legal⟩

theorem EntityTable.IsLegal.declareExternal {table : EntityTable} (legal : table.IsLegal)
    (entity : String) : (table.declareExternal entity).IsLegal := by
  unfold EntityTable.declareExternal
  split
  · exact legal
  · exact legal

namespace Reader

variable {r next : Reader} {options : ParseOptions} {table before : EntityTable}

theorem isLegal_of_entityText (strict : options.recover = false) {quote : Char}
    {value earlier : List Char} (h : entityText options quote r earlier = .ok (value, next))
    (legal : IsLegal earlier) : IsLegal value := by
  fun_induction entityText options quote r earlier with
  | case1 => exact absurd h not_fail
  | case2 => cases h; exact legal
  | case3 => exact absurd h not_fail
  | case4 => cases h
  | case5 =>
    rename_i read ih
    exact ih h (isLegal_cons.mpr ⟨legal_of_charReference read, legal⟩)
  | case6 => cases h
  | case7 => cases h
  | case8 =>
    rename_i entity _ named _ _ ih
    apply ih h
    have letters := (isName_of_name named).1.isLegal
    simp only [isLegal_cons, isLegal_append, isLegal_reverse, List.cons_append]
    exact ⟨by decide, letters, by decide, legal⟩
  | case9 => cases h
  | case10 =>
    rename_i read ih
    exact ih h (isLegal_cons.mpr ⟨(legal_of_char strict read).1, legal⟩)

theorem isLegal_of_entityDefinition (strict : options.recover = false) {replacement : String}
    (h : r.entityDefinition options = .ok (some replacement, next)) :
    IsLegal replacement.toList := by
  obtain ⟨⟨⟨_, systemId⟩, first⟩, _, h⟩ := bind_eq_ok.mp h
  dsimp only at h
  split at h
  · cases h
  · obtain ⟨⟨value, second⟩, quoted, h⟩ := bind_eq_ok.mp h
    cases h
    obtain ⟨⟨quote, third⟩, _, quoted⟩ := bind_eq_ok.mp quoted
    obtain ⟨⟨found, fourth⟩, read, quoted⟩ := bind_eq_ok.mp quoted
    cases quoted
    rw [String.toList_ofList, isLegal_reverse]
    exact isLegal_of_entityText strict read isLegal_nil

theorem isLegal_of_entityDeclaration (strict : options.recover = false) (legal : before.IsLegal)
    (h : r.entityDeclaration options before = .ok (table, next)) : table.IsLegal := by
  obtain ⟨r₁, _, h⟩ := bind_eq_ok.mp h
  obtain ⟨r₂, _, h⟩ := bind_eq_ok.mp h
  obtain ⟨⟨parameter, r₃⟩, _, h⟩ := bind_eq_ok.mp h
  obtain ⟨⟨entity, r₄⟩, _, h⟩ := bind_eq_ok.mp h
  obtain ⟨r₅, _, h⟩ := bind_eq_ok.mp h
  obtain ⟨⟨replacement, r₆⟩, defined, h⟩ := bind_eq_ok.mp h
  obtain ⟨r₇, _, h⟩ := bind_eq_ok.mp h
  obtain ⟨r₈, _, h⟩ := bind_eq_ok.mp h
  split at h
  · cases h
    exact legal
  · cases h
    exact legal.declareInternal entity (isLegal_of_entityDefinition strict defined)
  · cases h
    exact legal.declareExternal entity

theorem isLegal_of_subsetItem (strict : options.recover = false) (legal : before.IsLegal)
    (h : r.subsetItem options before = .ok (table, next)) : table.IsLegal := by
  unfold subsetItem at h
  split at h
  · obtain ⟨⟨_, r₁⟩, _, h⟩ := bind_eq_ok.mp h
    obtain ⟨r₂, _, h⟩ := bind_eq_ok.mp h
    cases h
    exact legal
  · split at h
    · exact isLegal_of_entityDeclaration strict legal h
    · split at h
      · obtain ⟨⟨_, r₁⟩, _, h⟩ := bind_eq_ok.mp h
        cases h
        exact legal
      · split at h
        · obtain ⟨⟨_, r₁⟩, _, h⟩ := bind_eq_ok.mp h
          cases h
          exact legal
        · split at h
          · obtain ⟨r₁, _, h⟩ := bind_eq_ok.mp h
            obtain ⟨r₂, _, h⟩ := bind_eq_ok.mp h
            cases h
            exact legal
          · exact absurd h not_fail

theorem isLegal_of_internalSubset (strict : options.recover = false) (legal : before.IsLegal)
    (h : internalSubset options r before = .ok (table, next)) : table.IsLegal := by
  fun_induction internalSubset options r before with
  | case1 => exact absurd h not_fail
  | case2 => cases h; exact legal
  | case3 => cases h
  | case4 =>
    rename_i read ih
    exact ih (isLegal_of_subsetItem strict legal read) h

/-- A document type declaration declares legal replacement texts only. -/
theorem isLegal_of_doctype (strict : options.recover = false) {doctype : Doctype}
    (h : r.doctype options = .ok ((doctype, table), next)) : table.IsLegal := by
  obtain ⟨r₁, _, h⟩ := bind_eq_ok.mp h
  obtain ⟨r₂, _, h⟩ := bind_eq_ok.mp h
  obtain ⟨⟨name, r₃⟩, _, h⟩ := bind_eq_ok.mp h
  obtain ⟨⟨⟨publicId, systemId⟩, r₄⟩, _, h⟩ := bind_eq_ok.mp h
  have none : EntityTable.IsLegal { EntityTable.empty with incomplete := systemId.isSome } := nofun
  dsimp only at h
  split at h
  · obtain ⟨⟨found, r₅⟩, read, h⟩ := bind_eq_ok.mp h
    obtain ⟨_, same, h⟩ := bind_eq_ok.mp h
    cases same
    obtain ⟨r₆, _, h⟩ := bind_eq_ok.mp h
    cases h
    exact isLegal_of_internalSubset strict none read
  · obtain ⟨_, same, h⟩ := bind_eq_ok.mp h
    cases same
    obtain ⟨r₅, _, h⟩ := bind_eq_ok.mp h
    cases h
    exact none

end Reader

/-! ## Trees in normal form -/

/-- Whether a node is text. -/
def isText (tree : Tree) : Bool :=
  match tree.kind with
  | .text _ => true
  | _ => false

/-- Two trees of which not both are text. -/
def Apart (left right : Tree) : Prop := isText left = false ∨ isText right = false

theorem Apart.symm {left right : Tree} (apart : Apart left right) : Apart right left :=
  Or.symm apart

mutual

/-- Whether a tree is as a parse yields it. -/
def Canonical : Tree → Prop
  | .node (.element ..) children => CanonicalAll children ∧ children.IsChain Apart
  | .node (.text content) children => content.toList ≠ [] ∧ children = []
  | .node (.cdata content) children =>
    '\r' ∉ content.toList ∧ Clear "]]>".toList content.toList ∧ children = []
  | .node (.comment content) children => '\r' ∉ content.toList ∧ children = []
  | .node (.instruction ..) children => children = []
  | .node .document _ => False
  | .node (.doctype ..) _ => False

/-- Whether each of some trees is as a parse yields it. -/
def CanonicalAll : List Tree → Prop
  | [] => True
  | tree :: rest => Canonical tree ∧ CanonicalAll rest

end

/-- Only elements have anything below them. -/
theorem Canonical.childless {kind : NodeKind} {children : List Tree}
    (canonical : Canonical (.node kind children)) (other : kind.isElement = false) :
    children = [] := by
  cases kind with
  | element => cases other
  | document => exact canonical.elim
  | doctype => exact canonical.elim
  | text => exact canonical.2
  | cdata => exact canonical.2.2
  | comment => exact canonical.2
  | instruction => exact canonical

theorem canonicalAll_iff {trees : List Tree} :
    CanonicalAll trees ↔ ∀ tree ∈ trees, Canonical tree := by
  induction trees with
  | nil => simp [CanonicalAll]
  | cons tree rest ih => rw [CanonicalAll, ih, List.forall_mem_cons]

theorem readableAll_iff {options : ParseOptions} {depth : Nat} {scope : Scope} {trees : List Tree} :
    ReadableAll options depth scope trees ↔ ∀ tree ∈ trees, Readable options depth scope tree := by
  induction trees with
  | nil => simp [ReadableAll]
  | cons tree rest ih => rw [ReadableAll, ih, List.forall_mem_cons]

theorem toTrees_eq_map (drafts : List Draft) : Draft.toTrees drafts = drafts.map Draft.toTree := by
  induction drafts with
  | nil => rfl
  | cons draft rest ih => rw [Draft.toTrees, ih, List.map_cons]

/-- Drafts that can stand beside each other at some level, in either order. -/
structure Settled (options : ParseOptions) (level : Level) (drafts : List Draft) : Prop where
  readable : ∀ draft ∈ drafts, Readable options level.depth level.scope draft.toTree
  canonical : ∀ draft ∈ drafts, Canonical draft.toTree
  spaced : (drafts.map Draft.toTree).IsChain Apart
  copied : ∀ tree, .copied tree ∈ drafts → isText tree = false

namespace Settled

variable {options : ParseOptions} {level : Level} {drafts : List Draft}

theorem nil : Settled options level [] := ⟨nofun, nofun, .nil, nofun⟩

theorem reverse (settled : Settled options level drafts) :
    Settled options level drafts.reverse where
  readable draft listed := settled.readable draft (List.mem_reverse.mp listed)
  canonical draft listed := settled.canonical draft (List.mem_reverse.mp listed)
  spaced := by
    rw [List.map_reverse, List.isChain_reverse]
    exact settled.spaced.imp fun _ _ apart => apart.symm
  copied tree listed := settled.copied tree (List.mem_reverse.mp listed)

theorem tail {draft : Draft} (settled : Settled options level (draft :: drafts)) :
    Settled options level drafts where
  readable other listed := settled.readable other (List.mem_cons_of_mem _ listed)
  canonical other listed := settled.canonical other (List.mem_cons_of_mem _ listed)
  spaced := (List.isChain_cons.mp settled.spaced).2
  copied tree listed := settled.copied tree (List.mem_cons_of_mem _ listed)

/-- A draft that is no text can stand beside anything. -/
theorem cons {draft : Draft} (settled : Settled options level drafts)
    (readable : Readable options level.depth level.scope draft.toTree)
    (canonical : Canonical draft.toTree) (solid : isText draft.toTree = false) :
    Settled options level (draft :: drafts) where
  readable := List.forall_mem_cons.mpr ⟨readable, settled.readable⟩
  canonical := List.forall_mem_cons.mpr ⟨canonical, settled.canonical⟩
  spaced := by
    rw [List.map_cons, List.isChain_cons]
    exact ⟨fun _ _ => .inl solid, settled.spaced⟩
  copied tree listed := by
    rcases List.mem_cons.mp listed with rfl | later
    · exact solid
    · exact settled.copied tree later

/-- Character data goes into the text before it or becomes a text of its own. -/
theorem addText (settled : Settled options level drafts) (noBlanks : Bool) {content : String}
    (legal : IsLegal content.toList) :
    Settled options level (Draft.addText noBlanks content drafts) := by
  unfold Draft.addText
  split
  · exact settled
  · rename_i kept
    have nonempty : content.toList ≠ [] := by
      intro empty
      simp [String.toList_eq_nil_iff.mp empty] at kept
    split
    · rename_i earlier children rest
      have earlierLegal : IsLegal earlier.toList := settled.readable _ List.mem_cons_self
      refine ⟨List.forall_mem_cons.mpr ⟨?_, settled.tail.readable⟩,
        List.forall_mem_cons.mpr ⟨?_, settled.tail.canonical⟩, ?_, ?_⟩
      · show IsLegal (earlier ++ content).toList
        rw [String.toList_append, isLegal_append]
        exact ⟨earlierLegal, legal⟩
      · exact ⟨by simp [nonempty], rfl⟩
      · apply settled.spaced.imp_head
        intro other apart
        exact (show Apart (.leaf (.text (earlier ++ content))) other from apart)
      · intro tree listed
        rcases List.mem_cons.mp listed with same | later
        · cases same
        · exact settled.tail.copied tree later
    · rename_i other
      refine ⟨List.forall_mem_cons.mpr ⟨legal, settled.readable⟩,
        List.forall_mem_cons.mpr ⟨⟨nonempty, rfl⟩, settled.canonical⟩, ?_, ?_⟩
      · rw [List.map_cons, List.isChain_cons]
        refine ⟨fun first known => .inr ?_, settled.spaced⟩
        obtain ⟨draft, front, rfl⟩ : ∃ draft, drafts.head? = some draft ∧ draft.toTree = first := by
          simpa [List.head?_map] using known
        obtain ⟨rest, rfl⟩ := List.head?_eq_some_iff.mp front
        cases draft with
        | copied tree => exact settled.copied tree List.mem_cons_self
        | written kind children =>
          cases kind with
          | text earlier => exact absurd rfl (other earlier children rest)
          | _ => rfl
      · intro tree listed
        rcases List.mem_cons.mp listed with same | later
        · cases same
        · exact settled.copied tree later

theorem flush (settled : Settled options level drafts) {pending : Pending}
    (legal : IsLegal pending.chars) : Settled options level (pending.flush options drafts) :=
  settled.addText _ (by simpa using legal)

/-- What replacement text yielded goes after earlier nodes. -/
theorem addCopies {copies : List Draft} (settled : Settled options level drafts)
    (yielded : Settled options level copies) (noBlanks : Bool) :
    Settled options level (Draft.addCopies noBlanks drafts copies) := by
  fun_induction Draft.addCopies noBlanks drafts copies with
  | case1 => exact settled
  | case2 drafts content children rest ih =>
    apply ih _ yielded.tail
    exact settled.addText noBlanks (yielded.readable _ List.mem_cons_self)
  | case3 drafts draft rest other ih =>
    have solid : isText draft.toTree = false := by
      cases draft with
      | copied tree => exact yielded.copied tree List.mem_cons_self
      | written kind children =>
        cases kind with
        | text content => exact absurd rfl (other content children)
        | _ => rfl
    apply ih _ yielded.tail
    exact settled.cons (yielded.readable draft List.mem_cons_self)
      (yielded.canonical draft List.mem_cons_self) solid

end Settled

/-- Opened elements whose tags can be read where they stand, with settled nodes before them. -/
inductive SettledPath (options : ParseOptions) (base : Level) : List OpenElement → Prop where
  | nil : SettledPath options base []
  | cons {tag : StartTag} {before : List Draft} {path : List OpenElement}
      (outer : SettledPath options base path)
      (shallow : (base.inside path).depth < options.maxDepth)
      (isTag : IsTag options (base.inside path).scope tag.name tag.uri tag.attributes)
      (scope_eq : tag.scope = (base.inside path).scope.declare tag.attributes)
      (settled : Settled options (base.inside path) before) :
      SettledPath options base (⟨tag, before⟩ :: path)

/-- A closed element is a settled node among those before it. -/
theorem SettledPath.close {options : ParseOptions} {base : Level} {element : OpenElement}
    {path : List OpenElement} {children : List Draft}
    (opened : SettledPath options base (element :: path))
    (settled : Settled options (base.inside (element :: path)) children) :
    Settled options (base.inside path) (element.close children) ∧ SettledPath options base path := by
  obtain _ | ⟨outer, shallow, isTag, scope_eq, before⟩ := opened
  rename_i tag before'
  have inside := settled.reverse
  refine ⟨before.cons ⟨shallow, isTag, ?_⟩ ⟨?_, ?_⟩ rfl, outer⟩
  · rw [toTrees_eq_map, readableAll_iff, ← scope_eq]
    exact List.forall_mem_map.mpr inside.readable
  · rw [toTrees_eq_map, canonicalAll_iff]
    exact List.forall_mem_map.mpr inside.canonical
  · rw [toTrees_eq_map]
    exact inside.spaced

/-- A piece of markup that can be read again where it stands. -/
def Item.IsSettled (options : ParseOptions) (level : Level) : Item → Prop
  | .leaf kind => Readable options level.depth level.scope (.leaf kind) ∧
      Canonical (.leaf kind) ∧ isText (.leaf kind) = false
  | .start tag => level.depth < options.maxDepth ∧
      IsTag options level.scope tag.name tag.uri tag.attributes ∧
      tag.scope = level.scope.declare tag.attributes

namespace Reader

variable {r next : Reader} {cx : Context} {base level : Level}

theorem settled_of_item (strict : cx.options.recover = false) {found : Item}
    (h : r.item cx level = .ok (found, next)) :
    found.IsSettled cx.options level := by
  unfold item at h
  split at h
  · obtain ⟨⟨content, last⟩, read, h⟩ := bind_eq_ok.mp h
    cases h
    obtain ⟨within, plain⟩ := isSection_of_cdataSection strict read
    exact ⟨within.legal, ⟨plain, within.clear, rfl⟩, rfl⟩
  · split at h
    · obtain ⟨⟨content, last⟩, read, h⟩ := bind_eq_ok.mp h
      cases h
      obtain ⟨within, plain⟩ := isComment_of_comment strict read
      exact ⟨within, ⟨plain, rfl⟩, rfl⟩
    · split at h
      · obtain ⟨⟨⟨target, data⟩, last⟩, read, h⟩ := bind_eq_ok.mp h
        cases h
        exact ⟨isTarget_of_instruction strict read, rfl, rfl⟩
      · obtain ⟨⟨tag, last⟩, read, h⟩ := bind_eq_ok.mp h
        obtain ⟨shallow, isTag, scope_eq⟩ := isTag_of_startTag strict read
        cases h
        cases tag.closed with
        | true => exact ⟨⟨shallow, isTag, trivial⟩, ⟨trivial, .nil⟩, rfl⟩
        | false => exact ⟨shallow, isTag, scope_eq⟩

theorem isLegal_of_extend {pending more : Pending} {content : List Char} {options : ParseOptions}
    (h : r.extend options pending content = .ok more) (before : IsLegal pending.chars)
    (legal : IsLegal content) : IsLegal more.chars := by
  unfold extend at h
  dsimp only at h
  split at h
  · exact absurd h not_fail
  · cases h
    rw [Pending.chars_add, isLegal_append, isLegal_reverse]
    exact ⟨legal, before⟩

/-- Content is read as nodes that are settled where it stands. -/
theorem settled_of_content (strict : cx.options.recover = false) (table : cx.entities.IsLegal)
    {here children : List Draft} {path : List OpenElement} {pending : Pending}
    (h : content cx base r here path pending = .ok (children, next))
    (opened : SettledPath cx.options base path)
    (settled : Settled cx.options (base.inside path) here) (legal : IsLegal pending.chars) :
    Settled cx.options base children := by
  fun_induction content cx base r here path pending generalizing children next with
  | case1 | case4 =>
    cases h
    cases opened
    exact (settled.flush legal).reverse
  | case3 =>
    rename_i reported _
    exact absurd reported (report_ne_ok strict)
  | case6 =>
    -- An end tag closes the innermost element.
    rename_i ih
    obtain ⟨closed, outer⟩ := opened.close (settled.flush legal)
    exact ih strict table h outer closed isLegal_nil
  | case8 =>
    -- A node without children follows the text before it.
    rename_i read ih
    obtain ⟨readable, canonical, solid⟩ := settled_of_item strict read
    exact ih strict table h opened ((settled.flush legal).cons readable canonical solid) isLegal_nil
  | case9 =>
    -- A start tag opens an element inside the innermost one.
    rename_i read ih
    obtain ⟨shallow, isTag, scope_eq⟩ := settled_of_item strict read
    apply ih strict table h _ .nil isLegal_nil
    exact .cons opened shallow isTag scope_eq (settled.flush legal)
  | case12 =>
    rename_i read _ extended ih
    apply ih strict table h opened settled
    exact isLegal_of_extend extended legal (isLegal_of_reference read)
  | case14 =>
    rename_i read _ _ extended ih
    apply ih strict table h opened settled
    exact isLegal_of_extend extended legal (table _ (mem_of_reference read))
  | case16 =>
    -- Replacement text is read where its reference stands.
    rename_i inner read _ _ within ih
    have yielded := within strict table read .nil .nil isLegal_nil
    apply ih strict table h opened _ isLegal_nil
    exact (settled.flush legal).addCopies yielded _
  | case17 => exact absurd h not_fail
  | case20 =>
    rename_i reported _ _ _
    exact absurd reported (report_ne_ok strict)
  | case23 =>
    rename_i read _ extended ih
    apply ih strict table h opened settled
    exact isLegal_of_extend extended legal
      (isLegal_cons.mpr ⟨(legal_of_char strict read).1, isLegal_nil⟩)
  | _ => cases h

/-- A root element that was read can be read again, and it is in normal form. -/
theorem of_rootElement (strict : cx.options.recover = false) (table : cx.entities.IsLegal)
    {root : Draft} (h : r.rootElement cx = .ok (root, next)) :
    Readable cx.options 0 .initial root.toTree ∧ Canonical root.toTree ∧
      root.toTree.kind.isElement = true := by
  obtain ⟨⟨tag, first⟩, start, h⟩ := bind_eq_ok.mp h
  obtain ⟨shallow, isTag, scope_eq⟩ := isTag_of_startTag strict start
  dsimp only at h
  split at h
  · cases h
    exact ⟨⟨shallow, isTag, trivial⟩, ⟨trivial, .nil⟩, rfl⟩
  · obtain ⟨⟨children, second⟩, inside, h⟩ := bind_eq_ok.mp h
    have settled := settled_of_content strict table inside .nil .nil isLegal_nil
    have root_eq : root = .written tag.kind children := by
      dsimp only at h
      split at h
      · obtain ⟨last, reported, -⟩ := bind_eq_ok.mp h
        exact absurd reported (report_ne_ok strict)
      · obtain ⟨last, _, h⟩ := bind_eq_ok.mp h
        cases h
        rfl
    subst root_eq
    refine ⟨⟨shallow, isTag, ?_⟩, ⟨?_, ?_⟩, rfl⟩
    · rw [toTrees_eq_map, readableAll_iff, ← scope_eq]
      exact List.forall_mem_map.mpr settled.readable
    · rw [toTrees_eq_map, canonicalAll_iff]
      exact List.forall_mem_map.mpr settled.canonical
    · rw [toTrees_eq_map]
      exact settled.spaced

end Reader

end Markup.Xml
