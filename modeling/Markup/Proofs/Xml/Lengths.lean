import Markup.Proofs.Xml.Limits

/-!
# How long texts are

The limit on the length of text is looked at while a piece of text is read, and a piece ends where
replacement text with markup in it begins or ends. Pieces that stand together are joined afterwards.
So all pieces are within the limit, and the texts are exactly if those pieces are that stand
together; without markup in replacement texts no two of them do.
-/

namespace Markup

/-- The length of a text node, in bytes. -/
def NodeKind.textLength : NodeKind → Nat
  | .text content => Text.byteLength content.toList
  | _ => 0

namespace Tree

/-- The length of the text that a tree ends, after text of some length before it. -/
def lengthAfter (length : Nat) (tree : Tree) : Nat :=
  if Xml.isText tree then length + tree.kind.textLength else 0

mutual

/-- Whether each text in a tree is within a limit on its length. -/
def TextsFit (limit : Nat) : Tree → Prop
  | .node kind children => kind.textLength ≤ limit ∧ TextsFitAll limit children

/-- Whether each text in some trees is within a limit on its length. -/
def TextsFitAll (limit : Nat) : List Tree → Prop
  | [] => True
  | tree :: rest => TextsFit limit tree ∧ TextsFitAll limit rest

end

mutual

/-- Whether the texts that stand together in a tree are within a limit on their length. -/
def RunsFit (limit : Nat) : Tree → Prop
  | .node kind children => kind.textLength ≤ limit ∧ RunsFitAll limit 0 children

/-- Whether the texts that stand together in some trees, after text of some length, are within a
limit on their length. -/
def RunsFitAll (limit length : Nat) : List Tree → Prop
  | [] => True
  | tree :: rest => RunsFit limit tree ∧ lengthAfter length tree ≤ limit ∧
      RunsFitAll limit (lengthAfter length tree) rest

end

section

variable {limit length : Nat} {tree : Tree} {trees others : List Tree}

theorem textsFitAll_iff : TextsFitAll limit trees ↔ ∀ tree ∈ trees, tree.TextsFit limit := by
  induction trees with
  | nil => simp [TextsFitAll]
  | cons tree rest ih => rw [TextsFitAll, ih, List.forall_mem_cons]

theorem textsFitAll_append :
    TextsFitAll limit (trees ++ others) ↔ TextsFitAll limit trees ∧ TextsFitAll limit others := by
  simp only [textsFitAll_iff, List.forall_mem_append]

theorem runsFitAll_append : RunsFitAll limit length (trees ++ others) ↔
    RunsFitAll limit length trees ∧ RunsFitAll limit (trees.foldl lengthAfter length) others := by
  induction trees generalizing length with
  | nil => exact (and_iff_right trivial).symm
  | cons tree rest ih =>
    rw [List.cons_append, RunsFitAll, RunsFitAll, ih, List.foldl_cons, and_assoc, and_assoc]

theorem textLength_of_not_isText (other : Xml.isText tree = false) : tree.kind.textLength = 0 := by
  obtain ⟨kind, children⟩ := tree
  cases kind with
  | text => cases other
  | _ => rfl

theorem lengthAfter_of_not_isText (other : Xml.isText tree = false) :
    lengthAfter length tree = 0 := by
  rw [lengthAfter, other, if_neg Bool.false_ne_true]

theorem textsFit_text (content : String) :
    (leaf (.text content)).TextsFit limit ↔ Text.byteLength content.toList ≤ limit :=
  and_iff_left trivial

theorem runsFit_text (content : String) :
    (leaf (.text content)).RunsFit limit ↔ Text.byteLength content.toList ≤ limit :=
  and_iff_left trivial

theorem lengthAfter_text (content : String) :
    lengthAfter length (leaf (.text content)) = length + Text.byteLength content.toList := rfl

/-- Less text before leaves more room. -/
theorem RunsFitAll.mono {shorter : Nat} (fit : RunsFitAll limit length trees)
    (less : shorter ≤ length) : RunsFitAll limit shorter trees := by
  induction trees generalizing length shorter with
  | nil => trivial
  | cons tree rest ih =>
    obtain ⟨inside, room, others⟩ := fit
    have after : lengthAfter shorter tree ≤ lengthAfter length tree := by
      unfold lengthAfter
      split
      · exact Nat.add_le_add_right less _
      · exact Nat.le_refl 0
    exact ⟨inside, Nat.le_trans after room, ih others after⟩

end

end Tree

namespace Xml

open Reader Markup.Tree

/-! ## Texts that are joined -/

section

variable {drops : Tree → Bool} {limit length : Nat} {tree : Tree} {trees before : List Tree}

/-- What is put together is within the limit if what was there is and what comes after it. -/
theorem textsFitAll_joinedOnto
    (each : ∀ tree ∈ trees, Solid tree ∧ ((joined tree).TextsFit limit ↔ tree.RunsFit limit))
    (flat : ∀ last ∈ before.head?, isText last = true → last.children = []) :
    TextsFitAll limit (joinedOnto before trees) ↔ TextsFitAll limit before ∧
      RunsFitAll limit ((before.head?.map (·.kind.textLength)).getD 0) trees := by
  induction trees generalizing before with
  | nil => exact (and_iff_left trivial).symm
  | cons tree rest ih =>
    obtain ⟨⟨solid, same⟩, others⟩ := List.forall_mem_cons.mp each
    rw [joinedOnto, RunsFitAll]
    -- The tree stands apart from the last one before it, or continues the text that this one is.
    rcases putAfter_eq before (joined tree) with ⟨put, apart⟩ |
      ⟨earlier, content, left, right, kept, rfl, text, put⟩
    · have length : lengthAfter ((before.head?.map (·.kind.textLength)).getD 0) tree =
          tree.kind.textLength := by
        by_cases text : isText tree = true
        · have bare : (before.head?.map (·.kind.textLength)).getD 0 = 0 := by
            cases before with
            | nil => rfl
            | cons last rest =>
              refine textLength_of_not_isText ((apart last rfl).resolve_right ?_)
              simp [text]
          rw [bare, lengthAfter, if_pos text, Nat.zero_add]
        · have other : isText tree = false := Bool.not_eq_true _ ▸ text
          rw [lengthAfter_of_not_isText other, textLength_of_not_isText other]
      have flat' : ∀ last ∈ (joined tree :: before).head?, isText last = true →
          last.children = [] := by
        rintro _ ⟨⟩ text
        obtain ⟨content, rfl⟩ := exists_leaf_of_isText solid (isText_joined.symm.trans text)
        rfl
      have own : tree.RunsFit limit → tree.kind.textLength ≤ limit := by
        obtain ⟨kind, children⟩ := tree
        exact And.left
      rw [put, ih others flat', TextsFitAll, same, length]
      simp only [List.head?_cons, Option.map_some, Option.getD_some, kind_joined]
      tauto
    · obtain ⟨content, rfl⟩ := exists_leaf_of_isText solid (by rw [← isText_joined, text]; rfl)
      cases text
      obtain rfl : left = [] := flat _ rfl rfl
      rw [put, ih others fun _ same _ => by cases same; rfl, TextsFitAll, TextsFitAll, runsFit_text,
        textsFit_text, ← Tree.leaf, textsFit_text, lengthAfter_text]
      simp only [List.head?_cons, Option.map_some, Option.getD_some, Tree.leaf, Tree.kind,
        NodeKind.textLength, String.toList_append, Text.byteLength_append]
      constructor
      · rintro ⟨⟨whole, inside⟩, after⟩
        exact ⟨⟨by omega, inside⟩, by omega, whole, after⟩
      · rintro ⟨⟨-, inside⟩, -, whole, after⟩
        exact ⟨⟨whole, inside⟩, after⟩

/-- The texts of a tree are within the limit once they are joined if those are that stand
together. -/
theorem textsFit_joined_iff (solid : Solid tree) :
    (joined tree).TextsFit limit ↔ tree.RunsFit limit := by
  induction tree using Tree.induction with
  | node kind children ih =>
    have each : ∀ child ∈ children,
        Solid child ∧ ((joined child).TextsFit limit ↔ child.RunsFit limit) := fun child mem =>
      have inside := solidAll_iff.mp solid.below child mem
      ⟨inside, ih child mem inside⟩
    have below : TextsFitAll limit (joinedOnto [] children) ↔ _ ∧ RunsFitAll limit 0 children :=
      textsFitAll_joinedOnto each (by simp)
    rw [joined, TextsFit, RunsFit, textsFitAll_iff]
    simp only [List.mem_reverse]
    rw [← textsFitAll_iff, below]
    exact and_congr_right fun _ => and_iff_right trivial

/-- Where texts are left out, those that stand together do not get longer. -/
theorem RunsFitAll.without (texts : ∀ tree, drops tree = true → isText tree = true)
    (each : ∀ tree ∈ trees, tree.RunsFit limit → (tree.without drops).RunsFit limit)
    (fit : RunsFitAll limit length trees) : RunsFitAll limit length (withoutAll drops trees) := by
  induction trees generalizing length with
  | nil => trivial
  | cons tree rest ih =>
    obtain ⟨here, others⟩ := List.forall_mem_cons.mp each
    obtain ⟨inside, room, after⟩ := fit
    rw [withoutAll]
    split
    · rename_i dropped
      have more : length ≤ lengthAfter length tree := by
        rw [lengthAfter, if_pos (texts tree dropped)]
        exact Nat.le_add_right ..
      exact ih others (after.mono more)
    · have same : lengthAfter length (tree.without drops) = lengthAfter length tree := by
        rw [lengthAfter, lengthAfter, isText_without, kind_without]
      exact ⟨here inside, same.symm ▸ room, same.symm ▸ ih others after⟩

theorem runsFit_without (texts : ∀ tree, drops tree = true → isText tree = true)
    (fit : tree.RunsFit limit) : (tree.without drops).RunsFit limit := by
  induction tree using Tree.induction with
  | node kind children ih => exact ⟨fit.1, RunsFitAll.without texts ih fit.2⟩

end

/-! ## Building within the limit -/

/-- What nodes at one level keep while they are built, first where text may come after them and then
where it has come, if that text is within a limit. -/
structure Buildup (limit : Nat) (growing finished : List Tree → Prop) : Prop where
  nothing : growing []
  text {trees : List Tree} {text : List Char} (earlier : growing trees)
    (room : Text.byteLength text ≤ limit) : finished (trees ++ piece text)
  node {trees : List Tree} {tree : Tree} (earlier : finished trees)
    (inside : finished tree.children) (other : isText tree = false) : growing (trees ++ [tree])

/-- At each level that is built, the nodes are so, and the text that is not yet made into a node is
within the limit. -/
structure Loose.Upholds (limit : Nat) (growing finished : List Tree → Prop) (loose : Loose) :
    Prop where
  here : growing loose.here
  path : ∀ outer ∈ loose.path, finished outer.2
  pending : Text.byteLength loose.pending ≤ limit

/-- Whether nodes may be copied, which puts texts beside each other. -/
def MayCopy (cx : Context) (growing finished : List Tree → Prop) : Prop :=
  (∀ {trees inside : List Tree}, finished trees → finished inside → growing (trees ++ inside)) ∨
    ∀ entity ∈ cx.entities.internal, isPlainText entity.2 = true

section

variable {cx : Context} {base : Level} {s t : Spot} {events : List Event} {event : Event}
  {loose : Loose} {limit : Nat} {growing finished : List Tree → Prop}

theorem Buildup.upholds_empty (buildup : Buildup limit growing finished) :
    Loose.empty.Upholds limit growing finished :=
  ⟨buildup.nothing, List.forall_mem_nil _, Nat.zero_le _⟩

/-- No text has to come. -/
theorem Buildup.finish (buildup : Buildup limit growing finished) {trees : List Tree}
    (earlier : growing trees) : finished trees := by
  have more : finished (trees ++ piece []) := buildup.text earlier (Nat.zero_le limit)
  rwa [piece, List.append_nil] at more

theorem Buildup.flush (buildup : Buildup limit growing finished)
    (upholds : loose.Upholds limit growing finished) : finished loose.flush :=
  buildup.text upholds.here upholds.pending

theorem Buildup.close (buildup : Buildup limit growing finished)
    (upholds : loose.Upholds limit growing finished) :
    loose.close.Upholds limit growing finished := by
  have inside := buildup.flush upholds
  obtain ⟨here, path, pending⟩ := loose
  cases path with
  | nil => exact upholds
  | cons outer path =>
    obtain ⟨earlier, others⟩ := List.forall_mem_cons.mp upholds.path
    exact ⟨buildup.node earlier inside rfl, others, Nat.zero_le _⟩

/-- The length of the text that is not yet made into a node is what the events say. -/
theorem byteLength_pending_of_advance (advance : Advance cx base s event t)
    (tags : loose.path.map Prod.fst = s.tags) : Text.byteLength (event.loose loose).pending =
      event.lengthAfter (Text.byteLength loose.pending) := by
  cases advance with
  | reference | plain | sectionEnd | character => exact Text.byteLength_append ..
  | leaf | start => rfl
  | stop | cut =>
    obtain ⟨here, path, pending⟩ := loose
    cases path with
    | nil => cases tags
    | cons => rfl

/-- A round whose text is within the limit upholds what building keeps. -/
theorem Buildup.advance (buildup : Buildup limit growing finished)
    (advance : Advance cx base s event t) (upholds : loose.Upholds limit growing finished)
    (room : event.Fits limit (Text.byteLength loose.pending)) :
    (event.loose loose).Upholds limit growing finished := by
  have flushed := buildup.flush upholds
  cases advance with
  | reference | plain | sectionEnd | character =>
    exact ⟨upholds.here, upholds.path, Nat.le_trans (Nat.le_of_eq (Text.byteLength_append ..)) room⟩
  | leaf _ _ read =>
    have childless := buildup.finish buildup.nothing
    exact ⟨buildup.node flushed childless (isText_of_item read), upholds.path, Nat.zero_le _⟩
  | start =>
    exact ⟨buildup.nothing, List.forall_mem_cons.mpr ⟨flushed, upholds.path⟩, Nat.zero_le _⟩
  | stop | cut => exact buildup.close upholds

/-- A run whose text is within the limit upholds what building keeps. -/
theorem Buildup.run (buildup : Buildup limit growing finished)
    (copies : MayCopy cx growing finished) (run : Run cx base s events t)
    (upholds : loose.Upholds limit growing finished)
    (tags : loose.path.map Prod.fst = s.tags)
    (room : FitsAll limit (Text.byteLength loose.pending) events) :
    (looseAll loose events).Upholds limit growing finished := by
  induction run generalizing loose with
  | nil => exact upholds
  | advance first _ ih =>
    refine ih copies (buildup.advance first upholds room.1) (tags_of_advance first tags) ?_
    rw [byteLength_pending_of_advance first tags]
    exact room.2
  | copied _ read markup _ _ _ inner ih =>
    rcases copies with copies | plain
    · have inside := buildup.flush (inner (.inl copies) buildup.upholds_empty rfl room.1)
      exact ih (.inl copies) ⟨copies (buildup.flush upholds) inside, upholds.path, Nat.zero_le _⟩
        tags room.2
    · have known := plain _ (mem_of_reference read)
      simp [known] at markup

/-- Nodes at the top level are put after earlier nodes. -/
theorem Buildup.append (buildup : Buildup limit growing finished) {trees : List Tree}
    {found : List Draft} (bare : AreBare found) (earlier : finished trees) :
    finished (trees ++ (found.map Draft.toTree).reverse) := by
  induction found with
  | nil =>
    rw [List.map_nil, List.reverse_nil, List.append_nil]
    exact earlier
  | cons draft rest ih =>
    obtain ⟨⟨kind, rfl, other⟩, others⟩ := List.forall_mem_cons.mp bare
    rw [List.map_cons, List.reverse_cons, ← List.append_assoc]
    exact buildup.finish (buildup.node (ih others) (buildup.finish buildup.nothing) other)

/-- What building keeps is so of the pieces of a text that is read. -/
theorem Buildup.pieces {options : ParseOptions} {text : String}
    (buildup : Buildup options.maxTextLength growing finished) (reading : Reading options text)
    (copies : MayCopy ⟨options, reading.table, []⟩ growing finished) :
    finished reading.pieces.children := by
  have inside : finished (looseAll .empty reading.events).flush := by
    obtain ⟨first, -, ⟨-, same, -⟩ | ⟨-, children, last, reads, -⟩⟩ := reading.reads
    · rw [same]
      exact buildup.flush buildup.upholds_empty
    · exact buildup.flush (buildup.run copies reads.run buildup.upholds_empty rfl reads.fits)
  obtain ⟨found, same, bare, -⟩ := exists_of_misc_eq_ok reading.others
  rw [List.append_nil] at same
  have early := buildup.append reading.opens.areBare (buildup.finish buildup.nothing)
  have root : growing (_ ++ [.node reading.tag.kind (looseAll .empty reading.events).flush]) :=
    buildup.node early inside rfl
  have whole := buildup.append (same ▸ bare) (buildup.finish root)
  rw [List.nil_append, List.append_assoc] at whole
  exact whole

/-! ## Texts and runs of texts -/

theorem textsFitAll_piece {text : List Char} (room : Text.byteLength text ≤ limit) :
    TextsFitAll limit (piece text) := by
  cases text with
  | nil => trivial
  | cons c text =>
    refine ⟨(textsFit_text _).mpr ?_, trivial⟩
    rwa [String.toList_ofList]

/-- Each text stays within the limit where nodes are copied. -/
theorem buildup_textsFit (limit : Nat) : Buildup limit (TextsFitAll limit) (TextsFitAll limit) where
  nothing := trivial
  text earlier room := textsFitAll_append.mpr ⟨earlier, textsFitAll_piece room⟩
  node {trees tree} earlier inside other := by
    refine textsFitAll_append.mpr ⟨earlier, ?_, trivial⟩
    have short := textLength_of_not_isText other
    obtain ⟨kind, children⟩ := tree
    exact ⟨Nat.le_trans (Nat.le_of_eq short) (Nat.zero_le _), inside⟩

/-- The texts that stand together stay within the limit where no nodes are copied. -/
theorem buildup_runsFit (limit : Nat) :
    Buildup limit (fun trees => RunsFitAll limit 0 trees ∧ trees.foldl lengthAfter 0 = 0)
      (RunsFitAll limit 0) where
  nothing := ⟨trivial, rfl⟩
  text {trees text} earlier room := by
    refine runsFitAll_append.mpr ⟨earlier.1, ?_⟩
    rw [earlier.2]
    cases text with
    | nil => trivial
    | cons c text =>
      have long : Text.byteLength (String.ofList (c :: text)).toList ≤ limit := by
        rwa [String.toList_ofList]
      refine ⟨(runsFit_text _).mpr long, ?_, trivial⟩
      rw [lengthAfter_text, Nat.zero_add]
      exact long
  node {trees tree} earlier inside other := by
    have short := textLength_of_not_isText other
    refine ⟨runsFitAll_append.mpr ⟨earlier, ?_, ?_, trivial⟩, ?_⟩
    · obtain ⟨kind, children⟩ := tree
      exact ⟨Nat.le_trans (Nat.le_of_eq short) (Nat.zero_le _), inside⟩
    · rw [lengthAfter_of_not_isText other]
      exact Nat.zero_le _
    · rw [List.foldl_append, List.foldl_cons, lengthAfter_of_not_isText other, List.foldl_nil]

end

end Xml

/-! ## Documents -/

namespace Document

variable {doc : Document} {id : NodeId} {limit : Nat}

/-- No text of a document is longer than a limit. -/
def TextsFit (doc : Document) (limit : Nat) : Prop :=
  ∀ id, doc.isAttached id = true → (doc.kind id).textLength ≤ limit

/-- The texts below a node are those in its tree. -/
theorem textsFit_tree_iff (linked : doc.WellLinked) (live : doc.IsLive id) :
    (doc.tree id).TextsFit limit ↔
      ∀ other ∈ doc.preorder id, (doc.kind other).textLength ≤ limit := by
  refine linked.induction (motive := fun id => (doc.tree id).TextsFit limit ↔
    ∀ other ∈ doc.preorder id, (doc.kind other).textLength ≤ limit) ?_ id live
  intro id live ih
  rw [linked.tree_eq live, linked.preorder_eq live, Tree.TextsFit, Tree.textsFitAll_iff,
    List.forall_mem_map, List.forall_mem_cons, List.forall_mem_flatMap]
  exact and_congr_right fun _ => forall₂_congr ih

theorem WellLinked.textsFit_iff (linked : doc.WellLinked) :
    doc.TextsFit limit ↔ (doc.tree root).TextsFit limit := by
  rw [textsFit_tree_iff linked linked.root_live, ← linked.order_eq]
  exact forall_congr' fun other => by rw [linked.mem_order_iff]

end Document

namespace Xml

open Reader Markup.Tree

namespace Reading

variable {options : ParseOptions} {text : String}

/-- Each piece of text is within the limit. -/
theorem textsFit_pieces (reading : Reading options text) :
    reading.pieces.TextsFit options.maxTextLength :=
  ⟨Nat.zero_le _, (buildup_textsFit _).pieces reading <|
    .inl fun earlier inside => textsFitAll_append.mpr ⟨earlier, inside⟩⟩

/-- Where no entity has markup in its replacement text, no two pieces of text stand together. -/
theorem runsFit_pieces (reading : Reading options text)
    (plain : ∀ entity ∈ reading.table.internal, isPlainText entity.2 = true) :
    reading.pieces.RunsFit options.maxTextLength :=
  ⟨Nat.zero_le _, (buildup_runsFit _).pieces reading (.inr plain)⟩

/-- The texts of a document are within a limit if those pieces are that stand together. -/
theorem textsFit_iff (reading : Reading options text) {limit : Nat} :
    (Document.ofDraft reading.draft).TextsFit limit ↔
      (reading.pieces.without (drops options.noBlanks)).RunsFit limit := by
  obtain ⟨pieces, same, joins⟩ := reading.isJoined
  have solid : Solid reading.pieces := same ▸ joins.solid
  have linked := Document.wellLinked_ofXml reading.ofXml_eq_ok
  rw [linked.textsFit_iff, reading.tree_eq, textsFit_joined_iff solid.without]

end Reading

/-- Each piece of text that is read is within the limit, also where pieces are then joined. The
texts of the document are within any limit exactly if those pieces are that stand together, so that
none is too long where no entity has markup in its replacement text. -/
theorem textsFit_iff_runsFit {options : ParseOptions} {text : String} {doc : Document}
    (parsed : Document.ofXml options text = .ok doc) : ∃ reading : Reading options text,
      doc.tree Document.root = joined (reading.pieces.without (drops options.noBlanks)) ∧
      reading.pieces.TextsFit options.maxTextLength ∧
      (∀ limit, doc.TextsFit limit ↔
        (reading.pieces.without (drops options.noBlanks)).RunsFit limit) ∧
      ((∀ entity ∈ reading.table.internal, isPlainText entity.2 = true) →
        doc.TextsFit options.maxTextLength) := by
  obtain ⟨reading, rfl⟩ := Reading.exists_of_ofXml parsed
  refine ⟨reading, reading.tree_eq, reading.textsFit_pieces, fun _ => reading.textsFit_iff,
    fun plain => reading.textsFit_iff.mpr (runsFit_without ?_ (reading.runsFit_pieces plain))⟩
  exact fun tree dropped => isText_of_isBlank (Bool.and_eq_true_iff.mp dropped).2

/-- Each piece of the text is one byte long. -/
theorem exists_reading_short : ∃ reading : Reading { maxTextLength := 1 } markedText,
    reading.pieces = .node .document [.leaf (.doctype "a" none none), .node (.plainElement "a")
      [.leaf (.plainElement "b"), .leaf (.text "x"), .leaf (.text " ")]] := by
  obtain ⟨reading, nodes, tag, events, -, late⟩ := exists_reading_marked
  have letter (c : Char) (single : c.utf8Size = 1) : (Event.text [c]).Fits 1 0 := by
    rw [Event.Fits, Text.byteLength_cons, single]
    decide
  have keeps : KeepsTo 256 1 reading.events := by
    rw [events]
    exact ⟨by decide, ⟨⟨fun _ => by decide, trivial, trivial⟩, trivial, trivial⟩,
      ⟨⟨trivial, letter 'x' rfl, trivial⟩, letter ' ' rfl, trivial⟩⟩
  obtain ⟨other, -, -, pieces⟩ := reading.exists_withLimits keeps
  refine ⟨other, pieces.trans ?_⟩
  rw [Reading.pieces, nodes, tag, events, late]
  rfl

theorem textsFit_iff_runsFit_short : ∃ doc,
    Document.ofXml { maxTextLength := 1 } markedText = .ok doc ∧
    ∃ reading : Reading { maxTextLength := 1 } markedText,
      doc.tree Document.root = joined (reading.pieces.without (drops false)) ∧
      reading.pieces.TextsFit 1 ∧
      (∀ limit, doc.TextsFit limit ↔ (reading.pieces.without (drops false)).RunsFit limit) ∧
      ((∀ entity ∈ reading.table.internal, isPlainText entity.2 = true) → doc.TextsFit 1) := by
  obtain ⟨reading, -⟩ := exists_reading_short
  exact ⟨_, reading.ofXml_eq_ok, textsFit_iff_runsFit reading.ofXml_eq_ok⟩

/-- The blank after the reference makes the text that the entity begins too long. -/
theorem not_textsFit_short : ∃ doc, Document.ofXml { maxTextLength := 1 } markedText = .ok doc ∧
    doc.tree Document.root = .node .document [.leaf (.doctype "a" none none),
      .node (.plainElement "a") [.leaf (.plainElement "b"), .leaf (.text "x ")]] ∧
    ¬ doc.TextsFit 1 := by
  obtain ⟨reading, pieces⟩ := exists_reading_short
  have tree_eq := reading.tree_eq
  rw [pieces] at tree_eq
  refine ⟨_, reading.ofXml_eq_ok, tree_eq.trans rfl, fun fit => ?_⟩
  rw [reading.textsFit_iff, pieces] at fit
  obtain ⟨-, -, -, ⟨-, -, -, -, -, -, tooLong, -⟩, -⟩ := fit
  exact absurd tooLong (by decide)

end Xml
end Markup
