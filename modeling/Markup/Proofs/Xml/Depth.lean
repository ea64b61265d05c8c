import Markup.Proofs.Store.Nesting
import Markup.Proofs.Xml.Limits

/-!
# How deeply elements are nested

The depth that is counted while content is read is the depth of the elements in the tree, also where
replacement text is read inside replacement text. So a text is accepted under a limit on depth
exactly if the tree that it gives under a greater one keeps to it, and then it gives this tree.
-/

namespace Markup.Xml

open Reader Markup.Tree

/-! ## Heights where texts are joined and dropped -/

variable {drops : Tree → Bool} {tree : Tree} {trees before : List Tree}

theorem heightAll_reverse (trees : List Tree) : heightAll trees.reverse = heightAll trees := by
  refine eq_of_forall_ge_iff fun limit => ?_
  rw [heightAll_le_iff, heightAll_le_iff]
  simp

/-- A text is of no height. -/
theorem height_of_isText (solid : Solid tree) (text : isText tree = true) : tree.height = 0 := by
  obtain ⟨content, rfl⟩ := exists_leaf_of_isText solid text
  rfl

theorem heightAll_joinedOnto
    (each : ∀ tree ∈ trees, Solid tree ∧ (joined tree).height = tree.height)
    (flat : ∀ last ∈ before.head?, isText last = true → last.height = 0) :
    heightAll (joinedOnto before trees) = max (heightAll before) (heightAll trees) := by
  induction trees generalizing before with
  | nil => exact (Nat.max_zero _).symm
  | cons tree rest ih =>
    obtain ⟨⟨solid, same⟩, others⟩ := List.forall_mem_cons.mp each
    have low : isText (joined tree) = true → (joined tree).height = 0 := fun text => by
      rw [same, height_of_isText solid (isText_joined.symm.trans text)]
    rw [joinedOnto, heightAll, ← same]
    rcases putAfter_eq before (joined tree) with ⟨put, -⟩ |
      ⟨earlier, content, left, right, kept, rfl, text, put⟩
    · rw [put, ih others fun last mem => by cases mem; exact low, heightAll]
      omega
    · have high : (Tree.node (.text earlier) left).height = 0 := flat _ rfl rfl
      have joint : (Tree.leaf (.text (earlier ++ content))).height = 0 := rfl
      rw [put, ih others fun last mem _ => by cases mem; exact joint, heightAll, heightAll,
        joint, high, low (by rw [text]; rfl)]
      omega

/-- Where texts are joined, no element moves. -/
theorem height_joined (solid : Solid tree) : (joined tree).height = tree.height := by
  induction tree using Tree.induction with
  | node kind children ih =>
    have each : ∀ child ∈ children, Solid child ∧ (joined child).height = child.height :=
      fun child mem =>
        have inside := solidAll_iff.mp solid.below child mem
        ⟨inside, ih child mem inside⟩
    have below : heightAll (joinedOnto [] children) = _ := heightAll_joinedOnto each (by simp)
    rw [joined, height, height, heightAll_reverse, below, heightAll, Nat.zero_max]

/-- Where texts are left out, no element moves. -/
theorem height_without (texts : ∀ tree, drops tree = true → isText tree = true)
    (solid : Solid tree) : (tree.without drops).height = tree.height := by
  induction tree using Tree.induction with
  | node kind children ih =>
    have below : ∀ trees ⊆ children, heightAll (withoutAll drops trees) = heightAll trees := by
      intro trees inside
      induction trees with
      | nil => rfl
      | cons tree rest again =>
        obtain ⟨listed, others⟩ := List.cons_subset.mp inside
        have solid := solidAll_iff.mp solid.below tree listed
        rw [withoutAll]
        split
        · rename_i dropped
          rw [again others, heightAll, height_of_isText solid (texts tree dropped), Nat.zero_max]
        · rw [heightAll, again others, ih tree listed solid, heightAll]
    rw [Tree.without, height, height, below children (List.Subset.refl _)]

/-! ## Heights of what is built -/

/-- The nodes at the outer level, if all that is open were closed around some nodes. -/
def closing (here : List Tree) : List (StartTag × List Tree) → List Tree
  | [] => here
  | (tag, before) :: path => closing (before ++ [.node tag.kind here]) path

/-- The nodes at the outer level, if all that is open were closed. -/
def Loose.whole (loose : Loose) : List Tree := closing loose.flush loose.path

theorem heightAll_closing (here : List Tree) (path : List (StartTag × List Tree)) :
    heightAll (closing here path) =
        max (heightAll (closing [] path)) (path.length + heightAll here) ∧
      path.length ≤ heightAll (closing [] path) := by
  induction path generalizing here with
  | nil => simp [closing, heightAll]
  | cons outer path ih =>
    obtain ⟨tag, before⟩ := outer
    have opened (here : List Tree) : heightAll (before ++ [.node tag.kind here]) =
        max (heightAll before) (1 + heightAll here) := by
      rw [heightAll_append, heightAll, heightAll, Nat.max_zero]
      rfl
    obtain ⟨around, -⟩ := ih (before ++ [.node tag.kind here])
    obtain ⟨bare, long⟩ := ih (before ++ [.node tag.kind []])
    rw [opened] at around bare
    rw [heightAll] at bare
    rw [closing, closing, around, bare, List.length_cons]
    omega

theorem heightAll_flush (loose : Loose) : heightAll loose.flush = heightAll loose.here := by
  have nothing : heightAll (piece loose.pending) = 0 := by
    cases loose.pending <;> rfl
  rw [Loose.flush, heightAll_append, nothing, Nat.max_zero]

theorem heightAll_whole (loose : Loose) :
    heightAll loose.whole = max (heightAll (closing [] loose.path))
        (loose.path.length + heightAll loose.here) ∧
      loose.path.length ≤ heightAll (closing [] loose.path) := by
  rw [Loose.whole, ← heightAll_flush]
  exact heightAll_closing ..

/-- A round builds what is as high as it nests elements. -/
theorem whole_of_advance {cx : Context} {base : Level} {s t : Spot} {event : Event} {loose : Loose}
    (advance : Advance cx base s event t) (tags : loose.path.map Prod.fst = s.tags)
    (depth limit : Nat) : depth + heightAll (event.loose loose).whole ≤ limit ↔
      depth + heightAll loose.whole ≤ limit ∧ event.Nests limit (depth + s.tags.length) := by
  have length : loose.path.length = s.tags.length := by rw [← tags, List.length_map]
  obtain ⟨whole, long⟩ := heightAll_whole loose
  cases advance with
  | reference | plain | sectionEnd | character =>
    rw [(heightAll_whole (Event.loose loose _)).1, whole]
    exact (and_iff_left trivial).symm
  | @leaf r next tags' kind _ _ read =>
    have here : heightAll (Event.loose loose (.leaf kind)).here =
        max (heightAll loose.here) (if kind.isElement then 1 else 0) := by
      show heightAll (loose.flush ++ [.leaf kind]) = _
      rw [heightAll_append, heightAll_flush, heightAll, heightAll, Tree.leaf, height, heightAll,
        Nat.add_zero, Nat.max_zero]
    rw [(heightAll_whole (Event.loose loose _)).1, whole, here, Event.Nests, ← length]
    show depth + max (heightAll (closing [] loose.path)) (loose.path.length + _) ≤ limit ↔ _
    cases kind.isElement <;> simp
    omega
  | @start r next tags' tag =>
    have opened : (Event.loose loose (.start tag)).whole =
        closing (loose.flush ++ [.node tag.kind []]) loose.path := rfl
    have more : heightAll (loose.flush ++ [.node tag.kind []]) = max (heightAll loose.here) 1 := by
      rw [heightAll_append, heightAll_flush]
      rfl
    rw [opened, (heightAll_closing ..).1, more, whole, Event.Nests, ← length]
    omega
  | stop | cut =>
    obtain ⟨here, path, pending⟩ := loose
    cases path with
    | nil => cases tags
    | cons outer path =>
      have closed : (Loose.close ⟨here, outer :: path, pending⟩).whole =
          (Loose.mk here (outer :: path) pending).whole :=
        congrArg (closing · path) (List.append_nil _)
      rw [Event.loose, closed]
      exact (and_iff_left trivial).symm

/-- A run builds what is as high as it nests elements. -/
theorem whole_of_run {cx : Context} {base : Level} {s t : Spot} {events : List Event}
    (run : Run cx base s events t) (loose : Loose) (tags : loose.path.map Prod.fst = s.tags) :
    (looseAll loose events).path.map Prod.fst = t.tags ∧ ∀ depth limit,
      depth + heightAll (looseAll loose events).whole ≤ limit ↔
        depth + heightAll loose.whole ≤ limit ∧ NestsAll limit (depth + s.tags.length) events := by
  induction run generalizing loose with
  | nil => exact ⟨tags, fun _ _ => (and_iff_left trivial).symm⟩
  | @advance cx base s middle t event events first _ ih =>
    obtain ⟨last, rest⟩ := ih _ (tags_of_advance first tags)
    refine ⟨last, fun depth limit => ?_⟩
    rw [looseAll, rest, whole_of_advance first tags, NestsAll, depth_of_advance first, and_assoc]
  | @copied cx base r next last tags' t entity replacement inside events _ _ _ _ _ _ inner ih =>
    -- Everything that replacement text opens is closed in it.
    obtain ⟨bare, within⟩ := inner .empty rfl
    obtain ⟨final, rest⟩ := ih (Event.loose loose (.copied inside)) tags
    have length : loose.path.length = tags'.length := by
      rw [← List.length_map, tags]
    have alone : (looseAll .empty inside).whole = (looseAll .empty inside).flush := by
      rw [Loose.whole, List.map_eq_nil_iff.mp bare]
      rfl
    obtain ⟨whole, long⟩ := heightAll_whole loose
    have here : heightAll (Event.loose loose (.copied inside)).here =
        max (heightAll loose.here) (heightAll (looseAll .empty inside).flush) := by
      show heightAll (loose.flush ++ _) = _
      rw [heightAll_append, heightAll_flush]
    refine ⟨final, fun depth limit => ?_⟩
    have split : depth + heightAll (Event.loose loose (.copied inside)).whole ≤ limit ↔
        depth + heightAll loose.whole ≤ limit ∧
          depth + tags'.length + heightAll (looseAll .empty inside).whole ≤ limit := by
      rw [(heightAll_whole (Event.loose loose _)).1, whole, here, alone, ← length]
      show depth + max (heightAll (closing [] loose.path)) (loose.path.length + _) ≤ limit ↔ _
      omega
    have nothing : heightAll Loose.empty.whole = 0 := rfl
    have room : depth + heightAll loose.whole ≤ limit → depth + tags'.length ≤ limit := by omega
    rw [looseAll, rest, split, within, nothing, NestsAll, Event.Nests, and_assoc, and_assoc]
    exact and_congr_right fun fits => and_iff_right (room fits)

/-! ## Whole documents -/

variable {options : ParseOptions} {text : String} {limit : Nat}

/-- Nodes at the top level are of no height, but for the root element. -/
theorem heightAll_le_one_of_areBare {drafts : List Draft} (bare : AreBare drafts) :
    heightAll (drafts.map Draft.toTree).reverse ≤ 1 := by
  rw [heightAll_reverse, heightAll_le_iff, List.forall_mem_map]
  intro draft listed
  obtain ⟨kind, rfl, -⟩ := bare draft listed
  show (if kind.isElement = true then 1 else 0) + 0 ≤ 1
  split <;> decide

theorem Reader.ReadsRoot.height_le_iff {cx : Context} {start next : Reader} {tag : StartTag}
    {events : List Event} {root : Draft} (reads : ReadsRoot cx start tag events root next) :
    1 + heightAll (looseAll .empty events).flush ≤ limit ↔ 1 ≤ limit ∧ NestsAll limit 1 events := by
  obtain ⟨first, -, ⟨-, rfl, -⟩ | ⟨-, children, last, reads, -⟩⟩ := reads
  · exact (and_iff_left trivial).symm
  · obtain ⟨bare, within⟩ := whole_of_run reads.run .empty rfl
    have alone : (looseAll .empty events).whole = (looseAll .empty events).flush := by
      rw [Loose.whole, List.map_eq_nil_iff.mp bare]
      rfl
    rw [← alone]
    exact within 1 limit

namespace Reading

/-- How deeply a document nests elements is told by what is found in its root element. -/
theorem nestsWithin_iff (reading : Reading options text) :
    (Document.ofDraft reading.draft).NestsWithin limit ↔
      1 ≤ limit ∧ NestsAll limit 1 reading.events := by
  have texts : ∀ tree, drops options.noBlanks tree = true → isText tree = true :=
    fun tree dropped => isText_of_isBlank (Bool.and_eq_true_iff.mp dropped).2
  obtain ⟨pieces, same, joins⟩ := reading.isJoined
  have solid : Solid reading.pieces := same ▸ joins.solid
  obtain ⟨found, late, bare, -⟩ := exists_of_misc_eq_ok reading.others
  rw [List.append_nil] at late
  have before := heightAll_le_one_of_areBare reading.opens.areBare
  have after := heightAll_le_one_of_areBare (late ▸ bare)
  have height : reading.pieces.height = 1 + heightAll (looseAll .empty reading.events).flush := by
    have root : (Tree.node reading.tag.kind (looseAll .empty reading.events).flush).height =
        1 + heightAll (looseAll .empty reading.events).flush := rfl
    rw [Reading.pieces, Tree.height, heightAll_append, heightAll, root]
    show 0 + _ = _
    omega
  have linked := Document.wellLinked_ofXml reading.ofXml_eq_ok
  rw [linked.nestsWithin_iff, reading.tree_eq, height_joined solid.without,
    height_without texts solid, height, reading.reads.height_le_iff]

end Reading

/-- Elements are nested no more deeply than the limit. Under another limit a text gives the same
document exactly if its elements are nested no more deeply than that. -/
theorem ofXml_eq_ok_iff_nestsWithin {doc : Document}
    (parsed : Document.ofXml options text = .ok doc) :
    doc.NestsWithin options.maxDepth ∧ ∀ limit,
      Document.ofXml { options with maxDepth := limit } text = .ok doc ↔ doc.NestsWithin limit := by
  have within : ∀ {options : ParseOptions}, Document.ofXml options text = .ok doc →
      doc.NestsWithin options.maxDepth := by
    intro options parsed
    obtain ⟨reading, rfl⟩ := Reading.exists_of_ofXml parsed
    have keeps := reading.reads.keepsTo
    exact reading.nestsWithin_iff.mpr ⟨keeps.root, keeps.nests⟩
  refine ⟨within parsed, fun limit => ⟨within, fun nests => ?_⟩⟩
  obtain ⟨reading, rfl⟩ := Reading.exists_of_ofXml parsed
  obtain ⟨one, all⟩ := reading.nestsWithin_iff.mp nests
  have keeps : KeepsTo limit options.maxTextLength reading.events :=
    ⟨one, all, reading.reads.keepsTo.fits⟩
  obtain ⟨other, same, -⟩ := reading.exists_withLimits keeps
  exact same ▸ other.ofXml_eq_ok

/-- An element that an entity brings into the root element is nested like one written there. -/
theorem ofXml_eq_ok_iff_nestsWithin_marked : ∃ doc, Document.ofXml {} markedText = .ok doc ∧
    doc.NestsWithin 256 ∧ ∀ limit,
      Document.ofXml { maxDepth := limit } markedText = .ok doc ↔ doc.NestsWithin limit := by
  obtain ⟨reading, -⟩ := exists_reading_marked
  exact ⟨_, reading.ofXml_eq_ok, ofXml_eq_ok_iff_nestsWithin reading.ofXml_eq_ok⟩

end Markup.Xml
