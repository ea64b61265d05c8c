import Markup.Proofs.Xml.Blank
import Markup.Proofs.Xml.Reading

/-!
# Blank text that is dropped

Whether blank text is dropped makes no difference to what is read, only to what is built. Text is
tested where it is put after earlier nodes, before it is joined to a text there. So what is built is
what the pieces of text give that are not blank, and not the texts that are not blank.
-/

namespace Markup.Xml

open Reader Markup.Tree

/-! ## Building without joining -/

/-- What is built so far, with no text joined to another: the nodes at the level reached, in order,
the tags of the elements that are open, innermost first, with the nodes before each, and the text
that is not yet made into a node. -/
structure Loose where
  here : List Tree
  path : List (StartTag × List Tree)
  pending : List Char

/-- Text as a node of its own, if there is any. -/
def piece : List Char → List Tree
  | [] => []
  | c :: text => [.leaf (.text (String.ofList (c :: text)))]

namespace Loose

/-- Nothing built yet. -/
def empty : Loose := ⟨[], [], []⟩

/-- The nodes at the level reached, with all text made into nodes. -/
def flush (loose : Loose) : List Tree := loose.here ++ piece loose.pending

/-- Close the innermost element. -/
def close (loose : Loose) : Loose :=
  match loose.path with
  | [] => loose
  | (tag, before) :: path => ⟨before ++ [.node tag.kind loose.flush], path, []⟩

end Loose

mutual

/-- Go on building after an event, with no text joined to another. -/
def Event.loose (loose : Loose) : Event → Loose
  | .text content => { loose with pending := loose.pending ++ content }
  | .leaf kind => ⟨loose.flush ++ [.leaf kind], loose.path, []⟩
  | .start tag => ⟨[], (tag, loose.flush) :: loose.path, []⟩
  | .stop => loose.close
  | .copied inside => ⟨loose.flush ++ (looseAll .empty inside).flush, loose.path, []⟩

/-- Go on building after some events, with no text joined to another. -/
def looseAll (loose : Loose) : List Event → Loose
  | [] => loose
  | event :: rest => looseAll (event.loose loose) rest

end

/-- Whether a node is dropped: a blank text, if these are. -/
def drops (noBlanks : Bool) (tree : Tree) : Bool := noBlanks && tree.isBlank

theorem withoutAll_drops_false (trees : List Tree) : withoutAll (drops false) trees = trees :=
  withoutAll_false trees

/-! ## What is built from the pieces -/

/-- Drafts, latest first, that are what some pieces give when they are joined. -/
structure IsJoined (noBlanks : Bool) (drafts : List Draft) (pieces : List Tree) : Prop where
  trees : drafts.map Draft.toTree = joinedOnto [] (withoutAll (drops noBlanks) pieces)
  copied : ∀ tree, .copied tree ∈ drafts → isText tree = false
  solid : SolidAll pieces

namespace IsJoined

variable {noBlanks : Bool} {drafts copies : List Draft} {pieces inner : List Tree}

theorem nil : IsJoined noBlanks [] [] := ⟨rfl, nofun, trivial⟩

/-- A node that is no text stands beside what comes before it. -/
theorem add {draft : Draft} {tree : Tree} (joins : IsJoined noBlanks drafts pieces)
    (same : draft.toTree = joined (tree.without (drops noBlanks))) (other : isText tree = false)
    (solid : Solid tree) : IsJoined noBlanks (draft :: drafts) (pieces ++ [tree]) where
  trees := by
    have kept : drops noBlanks tree = false := by
      rw [drops, Bool.and_eq_false_iff, ← Bool.not_eq_true tree.isBlank]
      refine .inr fun blank => ?_
      rw [isText_of_isBlank blank] at other
      cases other
    have other' : isText (joined (tree.without (drops noBlanks))) = false := by
      rw [isText_joined, isText_without, other]
    rw [List.map_cons, joins.trees, same, withoutAll_append, joinedOnto_append, withoutAll,
      if_neg (by simp [kept]), withoutAll, joinedOnto, joinedOnto, putAfter_of_not_isText other']
  copied := by
    intro found listed
    rcases List.mem_cons.mp listed with rfl | listed
    · rw [show found = _ from same, isText_joined, isText_without, other]
    · exact joins.copied found listed
  solid := solidAll_iff.mpr <| List.forall_mem_append.mpr
    ⟨solidAll_iff.mp joins.solid, List.forall_mem_singleton.mpr solid⟩

end IsJoined

/-- A draft that is not a text written out is no text. -/
theorem isText_of_other {draft : Draft}
    (copied : ∀ tree, draft = .copied tree → isText tree = false)
    (other : ∀ content children, draft ≠ .written (.text content) children) :
    isText draft.toTree = false := by
  cases draft with
  | copied tree => exact copied tree rfl
  | written kind children =>
    cases kind with
    | text content => exact absurd rfl (other content children)
    | _ => rfl

/-- Text that is kept is put after earlier nodes. -/
theorem map_addText_of_kept {noBlanks : Bool} {drafts : List Draft} {content : String}
    {children : List Tree} (copied : ∀ tree, .copied tree ∈ drafts → isText tree = false)
    (solid : content.toList ≠ []) (kept : drops noBlanks (.node (.text content) children) = false) :
    (Draft.addText noBlanks content drafts).map Draft.toTree =
      putAfter (drafts.map Draft.toTree) (.leaf (.text content)) := by
  have filled : content.isEmpty = false := by simpa using solid
  have kept' : (noBlanks && content.toList.all Text.isAsciiBlank) = false := kept
  unfold Draft.addText
  rw [filled, kept', Bool.false_or, if_neg Bool.false_ne_true]
  split
  · rfl
  · rename_i other
    refine (putAfter_of_apart fun last mem => .inl ?_).symm
    cases drafts with
    | nil => cases mem
    | cons draft rest =>
      cases mem
      refine isText_of_other (fun tree same => copied tree (same ▸ List.mem_cons_self)) ?_
      rintro earlier children rfl
      exact other earlier children rest rfl

theorem addText_of_dropped {noBlanks : Bool} {drafts : List Draft} {content : String}
    {children : List Tree} (dropped : drops noBlanks (.node (.text content) children) = true) :
    Draft.addText noBlanks content drafts = drafts := by
  have blank : (noBlanks && content.toList.all Text.isAsciiBlank) = true := dropped
  unfold Draft.addText
  rw [blank, Bool.or_true, if_pos rfl]

theorem copied_addText {noBlanks : Bool} {drafts : List Draft} {content : String}
    (copied : ∀ tree, .copied tree ∈ drafts → isText tree = false) :
    ∀ tree, .copied tree ∈ Draft.addText noBlanks content drafts → isText tree = false := by
  intro tree listed
  unfold Draft.addText at listed
  split at listed
  · exact copied tree listed
  · split at listed
    · rcases List.mem_cons.mp listed with same | listed
      · cases same
      · exact copied tree (List.mem_cons_of_mem _ listed)
    · rcases List.mem_cons.mp listed with same | listed
      · cases same
      · exact copied tree listed

/-- A tree that is what it is where texts are joined and dropped. -/
structure IsKept (noBlanks : Bool) (tree : Tree) : Prop where
  joined : tree.joined = tree
  solid : ∀ content children, tree = .node (.text content) children →
    content.toList ≠ [] ∧ children = []
  kept : drops noBlanks tree = false

/-- What replacement text yielded is put after earlier nodes. -/
theorem map_addCopies {noBlanks : Bool} {drafts copies : List Draft}
    (copied : ∀ tree, .copied tree ∈ drafts → isText tree = false)
    (copied' : ∀ tree, .copied tree ∈ copies → isText tree = false)
    (kept : ∀ draft ∈ copies, IsKept noBlanks draft.toTree) :
    (Draft.addCopies noBlanks drafts copies).map Draft.toTree =
        joinedOnto (drafts.map Draft.toTree) (copies.map Draft.toTree) ∧
      ∀ tree, .copied tree ∈ Draft.addCopies noBlanks drafts copies → isText tree = false := by
  fun_induction Draft.addCopies noBlanks drafts copies with
  | case1 => exact ⟨rfl, copied⟩
  | case2 drafts content children rest ih =>
    obtain ⟨⟨same, solid, kept⟩, others⟩ := List.forall_mem_cons.mp kept
    obtain ⟨again, copied⟩ := ih (copied_addText copied)
      (fun tree listed => copied' tree (List.mem_cons_of_mem _ listed)) others
    obtain ⟨filled, childless⟩ := solid content _ rfl
    refine ⟨?_, copied⟩
    rw [again, map_addText_of_kept ‹_› filled kept, List.map_cons, joinedOnto, same, Draft.toTree,
      childless]
    rfl
  | case3 drafts draft rest other ih =>
    obtain ⟨here, others⟩ := List.forall_mem_cons.mp kept
    have solid : isText draft.toTree = false := by
      refine isText_of_other (fun tree same => copied' tree (same ▸ List.mem_cons_self)) ?_
      rintro content children rfl
      exact other content children rfl
    have copied_cons : ∀ tree, .copied tree ∈ Draft.copied draft.toTree :: drafts →
        isText tree = false := fun tree listed => by
      rcases List.mem_cons.mp listed with same | listed
      · cases same
        exact solid
      · exact copied tree listed
    obtain ⟨again, copied⟩ := ih copied_cons
      (fun tree listed => copied' tree (List.mem_cons_of_mem _ listed)) others
    refine ⟨?_, copied⟩
    rw [again, List.map_cons, List.map_cons, joinedOnto, here.joined, putAfter_of_not_isText solid]
    rfl

namespace IsJoined

variable {noBlanks : Bool} {drafts copies : List Draft} {pieces inner : List Tree}

theorem isKept (joins : IsJoined noBlanks drafts pieces) :
    ∀ draft ∈ drafts, IsKept noBlanks draft.toTree := by
  suffices kept : ∀ tree ∈ drafts.map Draft.toTree, IsKept noBlanks tree from
    fun draft listed => kept _ (List.mem_map_of_mem listed)
  rw [joins.trees]
  refine forall_mem_joinedOnto (fun earlier content left right first second => ?_)
    (List.forall_mem_nil _) fun found listed => ?_
  · refine ⟨rfl, ?_, ?_⟩
    · rintro _ _ ⟨⟩
      exact ⟨by simp [(second.solid content right rfl).1], rfl⟩
    · have blank := second.kept
      simp only [drops, Tree.leaf, isBlank_text, String.toList_append, List.all_append] at blank ⊢
      cases noBlanks
      · rfl
      · simp_all
  · obtain ⟨tree, inside, kept, rfl⟩ := exists_of_mem_withoutAll listed
    refine ⟨joined_joined _, fun content children same => ?_, ?_⟩
    · have known : tree.kind = .text content := by
        have known := congrArg Tree.kind same
        rwa [kind_joined, kind_without] at known
      have solid := solidAll_iff.mp joins.solid tree inside
      obtain ⟨kind, below⟩ := tree
      obtain rfl : kind = .text content := known
      obtain ⟨filled, rfl⟩ := solid
      cases same
      exact ⟨filled, rfl⟩
    · have same : (joined (tree.without (drops noBlanks))).isBlank = tree.isBlank := by
        rw [isBlank, isBlank, kind_joined, kind_without]
      rw [drops, same]
      exact kept

theorem addText (joins : IsJoined noBlanks drafts pieces) (text : List Char) :
    IsJoined noBlanks (Draft.addText noBlanks (String.ofList text) drafts)
      (pieces ++ piece text) := by
  cases text with
  | nil =>
    have nothing : Draft.addText noBlanks (String.ofList []) drafts = drafts := by
      simp [Draft.addText]
    rw [nothing, piece, List.append_nil]
    exact joins
  | cons c text =>
    have solid : (String.ofList (c :: text)).toList ≠ [] := by simp
    refine ⟨?_, copied_addText joins.copied, solidAll_iff.mpr <| List.forall_mem_append.mpr
      ⟨solidAll_iff.mp joins.solid, List.forall_mem_singleton.mpr ⟨solid, rfl⟩⟩⟩
    rw [withoutAll_append, joinedOnto_append, ← joins.trees, piece, withoutAll]
    split
    · rename_i dropped
      rw [addText_of_dropped dropped]
      rfl
    · rename_i kept
      rw [map_addText_of_kept joins.copied solid (Bool.not_eq_true _ ▸ kept)]
      rfl

/-- What replacement text yielded is joined to what comes before it. -/
theorem addCopies (joins : IsJoined noBlanks drafts pieces)
    (within : IsJoined noBlanks copies.reverse inner) :
    IsJoined noBlanks (Draft.addCopies noBlanks drafts copies) (pieces ++ inner) := by
  obtain ⟨same, copied⟩ := map_addCopies joins.copied
    (fun tree listed => within.copied tree (List.mem_reverse.mpr listed))
    fun draft listed => within.isKept draft (List.mem_reverse.mpr listed)
  have trees := within.trees
  rw [List.map_reverse, List.reverse_eq_iff] at trees
  refine ⟨?_, copied, solidAll_iff.mpr <| List.forall_mem_append.mpr
    ⟨solidAll_iff.mp joins.solid, solidAll_iff.mp within.solid⟩⟩
  rw [same, trees, joins.trees, joinedOnto_joinedOnto, withoutAll_append, joinedOnto_append]

end IsJoined

/-- What is built, as what the pieces built without joining give. -/
structure Growth.Follows (noBlanks : Bool) (g : Growth) (loose : Loose) : Prop where
  here : IsJoined noBlanks g.here loose.here
  path : List.Forall₂ (fun element outer =>
    element.tag = outer.1 ∧ IsJoined noBlanks element.before outer.2) g.path loose.path
  pending : g.pending.chars.reverse = loose.pending

variable {options : ParseOptions} {g : Growth} {loose : Loose}

theorem follows_empty (noBlanks : Bool) : Growth.empty.Follows noBlanks .empty := ⟨.nil, .nil, rfl⟩

theorem Growth.Follows.flush (follows : g.Follows options.noBlanks loose) :
    IsJoined options.noBlanks (g.flush options) loose.flush := by
  rw [Growth.flush, Pending.flush, follows.pending]
  exact follows.here.addText loose.pending

theorem Growth.Follows.close (follows : g.Follows options.noBlanks loose) :
    (g.close options).Follows options.noBlanks loose.close := by
  have flushed := follows.flush
  obtain ⟨here, path, pending⟩ := g
  obtain ⟨pieces, outer, text⟩ := loose
  cases follows.path with
  | nil => exact follows
  | @cons element outer path outers same rest =>
    obtain ⟨tag, before⟩ := outer
    obtain ⟨rfl, joins⟩ := same
    refine ⟨joins.add ?_ rfl flushed.solid, rest, rfl⟩
    rw [Draft.toTree, toTrees_eq_map, List.map_reverse, flushed.trees]
    rfl

theorem Growth.Follows.text (follows : g.Follows options.noBlanks loose) (content : List Char) :
    (Event.grow options g (.text content)).Follows options.noBlanks
      (Event.loose loose (.text content)) where
  here := follows.here
  path := follows.path
  pending := by
    rw [Event.grow, Event.loose, Pending.chars_add, List.reverse_append, List.reverse_reverse,
      follows.pending]

theorem isText_of_item {cx : Context} {level : Level} {r next : Reader} {kind : NodeKind}
    (read : r.item cx level = .ok (.leaf kind, next)) : isText (.leaf kind) = false := by
  unfold item at read
  split at read
  · obtain ⟨_, _, read⟩ := bind_eq_ok.mp read
    cases read
    rfl
  · split at read
    · obtain ⟨_, _, read⟩ := bind_eq_ok.mp read
      cases read
      rfl
    · split at read
      · obtain ⟨_, _, read⟩ := bind_eq_ok.mp read
        cases read
        rfl
      · obtain ⟨⟨tag, last⟩, _, read⟩ := bind_eq_ok.mp read
        dsimp only at read
        split at read
        · cases read
          rfl
        · cases read

/-- A round builds what it builds without joining, joined. -/
theorem follows_grow_of_advance {cx : Context} {base : Level} {s t : Spot} {event : Event}
    (advance : Advance cx base s event t) (follows : g.Follows options.noBlanks loose) :
    (event.grow options g).Follows options.noBlanks (event.loose loose) := by
  cases advance with
  | reference | plain | sectionEnd | character => exact follows.text _
  | @leaf r next tags kind lt open_ read =>
    have other := isText_of_item read
    have solid : Solid (.leaf kind) := by
      cases kind with
      | text => cases other
      | _ => trivial
    exact ⟨follows.flush.add rfl other solid, follows.path, rfl⟩
  | start => exact ⟨.nil, .cons ⟨rfl, follows.flush⟩ follows.path, rfl⟩
  | stop | cut => exact follows.close

/-- A run builds what it builds without joining, joined. -/
theorem follows_growAll_of_run {cx : Context} {base : Level} {s t : Spot} {events : List Event}
    (run : Run cx base s events t) (follows : g.Follows cx.options.noBlanks loose) :
    (growAll cx.options g events).Follows cx.options.noBlanks (looseAll loose events) := by
  induction run generalizing g loose with
  | nil => exact follows
  | advance first _ ih => exact ih (follows_grow_of_advance first follows)
  | copied _ _ _ _ _ _ inner ih =>
    refine ih ⟨follows.flush.addCopies ?_, follows.path, rfl⟩
    rw [Growth.result, List.reverse_reverse]
    exact Growth.Follows.flush (inner (follows_empty _))

/-! ## Whole documents -/

/-- Nodes at the top level are what they are where texts are joined and dropped. -/
theorem IsJoined.append {noBlanks : Bool} {drafts found : List Draft} {pieces : List Tree}
    (joins : IsJoined noBlanks drafts pieces) (bare : AreBare found) :
    IsJoined noBlanks (found ++ drafts) (pieces ++ (found.map Draft.toTree).reverse) := by
  induction found with
  | nil =>
    rw [List.map_nil, List.reverse_nil, List.append_nil]
    exact joins
  | cons draft rest ih =>
    obtain ⟨⟨kind, rfl, other⟩, others⟩ := List.forall_mem_cons.mp bare
    have solid : Solid (.leaf kind) := by
      cases kind with
      | text => cases other
      | _ => trivial
    rw [List.map_cons, List.reverse_cons, ← List.append_assoc]
    exact (ih others).add rfl other solid

/-- The root element is what its pieces give when they are joined. -/
theorem Reader.ReadsRoot.isJoined {cx : Context} {start next : Reader} {tag : StartTag}
    {events : List Event} {root : Draft} (reads : ReadsRoot cx start tag events root next) :
    root.toTree = joined (Tree.without (drops cx.options.noBlanks)
        (.node tag.kind (looseAll .empty events).flush)) ∧
      SolidAll (looseAll .empty events).flush := by
  obtain ⟨first, -, ⟨-, rfl, rfl, -⟩ | ⟨-, children, last, reads, -, rfl⟩⟩ := reads
  · exact ⟨rfl, trivial⟩
  · have flushed := (follows_growAll_of_run reads.run (follows_empty _)).flush
    have trees := flushed.trees
    refine ⟨?_, flushed.solid⟩
    rw [reads.built, Draft.toTree, toTrees_eq_map, Growth.result, List.map_reverse, trees]
    rfl

namespace Reading

variable {text : String}

/-- The tree of a document, with no text joined to another. -/
def pieces (reading : Reading options text) : Tree :=
  .node .document ((reading.nodes.map Draft.toTree).reverse ++
    .node reading.tag.kind (looseAll .empty reading.events).flush ::
      (reading.late.map Draft.toTree).reverse)

theorem isJoined (reading : Reading options text) : ∃ pieces,
    reading.pieces = .node .document pieces ∧
      IsJoined options.noBlanks (reading.late ++ reading.root :: reading.nodes) pieces := by
  obtain ⟨tree_eq, solid⟩ := reading.reads.isJoined
  obtain ⟨found, same, bare, -⟩ := exists_of_misc_eq_ok reading.others
  rw [List.append_nil] at same
  subst same
  have none_before : IsJoined options.noBlanks [] [] := .nil
  have before := none_before.append reading.opens.areBare
  rw [List.append_nil, List.nil_append] at before
  have root := before.add tree_eq rfl solid
  refine ⟨_, ?_, root.append bare⟩
  rw [pieces, List.append_assoc]
  rfl

/-- The tree of the document is what its pieces give. -/
theorem tree_eq (reading : Reading options text) :
    (Document.ofDraft reading.draft).tree Document.root =
      joined (reading.pieces.without (drops options.noBlanks)) := by
  obtain ⟨pieces, same, joins⟩ := reading.isJoined
  rw [Document.tree_ofDraft, draft, toTrees_eq_map, List.map_reverse, joins.trees, same]
  rfl

end Reading

/-! ## Texts that no entity cuts -/

/-- Trees with no blank text beside one that is not blank, after which text may follow. -/
structure IsOpen (trees : List Tree) : Prop where
  unmixed : UnmixedAll trees
  chain : trees.IsChain SameBlankness
  last : ∀ tree ∈ trees.getLast?, isText tree = false

namespace IsOpen

variable {trees : List Tree}

theorem nil : IsOpen [] := ⟨trivial, .nil, nofun⟩

/-- Text follows. -/
theorem text (opened : IsOpen trees) (text : List Char) :
    UnmixedAll (trees ++ piece text) ∧ (trees ++ piece text).IsChain SameBlankness := by
  cases text with
  | nil =>
    rw [piece, List.append_nil]
    exact ⟨opened.unmixed, opened.chain⟩
  | cons c text =>
    have alone : Unmixed (.leaf (.text (String.ofList (c :: text)))) := ⟨trivial, .nil⟩
    refine ⟨unmixedAll_iff.mpr (List.forall_mem_append.mpr ⟨unmixedAll_iff.mp opened.unmixed,
      List.forall_mem_singleton.mpr alone⟩), List.isChain_append.mpr ⟨opened.chain, .singleton _,
      fun last mem next _ left _ => ?_⟩⟩
    rw [opened.last last mem] at left
    cases left

/-- After a node that is no text, text may follow. -/
theorem of_other {tree : Tree} (unmixed : UnmixedAll trees) (chain : trees.IsChain SameBlankness)
    (inside : Unmixed tree) (other : isText tree = false) : IsOpen (trees ++ [tree]) := by
  refine ⟨unmixedAll_iff.mpr (List.forall_mem_append.mpr ⟨unmixedAll_iff.mp unmixed,
    List.forall_mem_singleton.mpr inside⟩), List.isChain_append.mpr ⟨chain, .singleton _,
    fun last _ next mem _ right => ?_⟩, fun last mem => ?_⟩
  · cases mem
    rw [other] at right
    cases right
  · rw [List.getLast?_concat] at mem
    cases mem
    exact other

/-- Nodes at the top level follow. -/
theorem append (opened : IsOpen trees) {found : List Draft} (bare : AreBare found) :
    IsOpen (trees ++ (found.map Draft.toTree).reverse) := by
  induction found with
  | nil =>
    rw [List.map_nil, List.reverse_nil, List.append_nil]
    exact opened
  | cons draft rest ih =>
    obtain ⟨⟨kind, rfl, other⟩, others⟩ := List.forall_mem_cons.mp bare
    have before := ih others
    rw [List.map_cons, List.reverse_cons, ← List.append_assoc]
    exact of_other before.unmixed before.chain ⟨trivial, .nil⟩ other

end IsOpen

/-- Where no replacement text has markup in it, a run cuts no text. -/
theorem isOpen_looseAll {cx : Context} {base : Level} {s t : Spot} {events : List Event}
    (plain : ∀ entity ∈ cx.entities.internal, isPlainText entity.2 = true)
    (run : Run cx base s events t) (here : IsOpen loose.here)
    (path : ∀ outer ∈ loose.path, UnmixedAll outer.2 ∧ outer.2.IsChain SameBlankness) :
    IsOpen (looseAll loose events).here := by
  induction run generalizing loose with
  | nil => exact here
  | copied _ read markup =>
    have known := plain _ (mem_of_reference read)
    simp [known] at markup
  | @advance cx base s t u event events first _ ih =>
    obtain ⟨unmixed, chain⟩ := here.text loose.pending
    have closed : IsOpen loose.close.here ∧
        ∀ outer ∈ loose.close.path, UnmixedAll outer.2 ∧ outer.2.IsChain SameBlankness := by
      obtain ⟨pieces, outers, text⟩ := loose
      cases outers with
      | nil => exact ⟨here, path⟩
      | cons outer outers =>
        obtain ⟨⟨before, before_chain⟩, path⟩ := List.forall_mem_cons.mp path
        exact ⟨.of_other before before_chain ⟨unmixed, chain⟩ rfl, path⟩
    rw [looseAll]
    cases first with
    | reference | plain | sectionEnd | character => exact ih plain here path
    | leaf _ _ read =>
      exact ih plain (.of_other unmixed chain ⟨trivial, .nil⟩ (isText_of_item read)) path
    | start => exact ih plain .nil (List.forall_mem_cons.mpr ⟨⟨unmixed, chain⟩, path⟩)
    | stop | cut => exact ih plain closed.1 closed.2

/-- Where no entity of a document has markup in its replacement text, no text is cut. -/
theorem Reading.unmixed_of_plain {text : String} (reading : Reading options text)
    (plain : ∀ entity ∈ reading.table.internal, isPlainText entity.2 = true) :
    reading.pieces.Unmixed := by
  have inside : UnmixedAll (looseAll .empty reading.events).flush ∧
      (looseAll .empty reading.events).flush.IsChain SameBlankness := by
    obtain ⟨first, -, ⟨-, same, -, -⟩ | ⟨-, children, last, reads, -, -⟩⟩ := reading.reads
    · rw [same]
      exact ⟨trivial, .nil⟩
    · exact (isOpen_looseAll plain reads.run .nil (List.forall_mem_nil _)).text _
  obtain ⟨found, same, bare, -⟩ := exists_of_misc_eq_ok reading.others
  rw [List.append_nil] at same
  have before := IsOpen.nil.append reading.opens.areBare
  have root : IsOpen (_ ++ [.node reading.tag.kind (looseAll .empty reading.events).flush]) :=
    .of_other before.unmixed before.chain inside rfl
  have whole := root.append (same ▸ bare)
  rw [List.nil_append, List.append_assoc] at whole
  exact ⟨whole.unmixed, whole.chain⟩

/-! ## Blank texts and nothing else -/

/-- What is read with blank texts is read without them, from the same pieces. -/
theorem Reading.exists_dropping {text : String} (reading : Reading options text) :
    ∃ other : Reading (options.withBlanks true) text, other.pieces = reading.pieces := by
  obtain ⟨other, nodes, tag, events, late⟩ := reading.exists_withBlanks true
  exact ⟨other, by rw [pieces, nodes, tag, events, late, pieces]⟩

theorem Reading.tree_eq_of_keeps {text : String} (reading : Reading options text)
    (keeps : options.noBlanks = false) :
    (Document.ofDraft reading.draft).tree Document.root = joined reading.pieces := by
  have none_dropped : drops options.noBlanks = fun _ => false := by
    rw [keeps]
    rfl
  rw [reading.tree_eq, none_dropped, without_false]

/-- Leaving out the blank texts is leaving out the blank pieces, if texts are not cut. -/
theorem Reading.without_joined_iff {text : String} (reading : Reading options text) :
    joined (reading.pieces.without isBlank) = (joined reading.pieces).without isBlank ↔
      reading.pieces.Unmixed := by
  obtain ⟨pieces, same, joins⟩ := reading.isJoined
  rw [eq_comm, same]
  exact Xml.without_joined_iff joins.solid rfl

/-- Where a text is accepted with its blank texts, it is accepted without them. The two trees differ
in the blank texts and in nothing else exactly if no piece of blank text stands beside a piece that
is not blank, where an entity with markup in it ends one piece and begins another. -/
theorem blanks_dropped_iff {text : String} {doc : Document} (keeps : options.noBlanks = false)
    (parsed : Document.ofXml options text = .ok doc) :
    ∃ (reading : Reading options text) (dropped : Document),
      Document.ofXml (options.withBlanks true) text = .ok dropped ∧
      doc.tree Document.root = joined reading.pieces ∧
      dropped.tree Document.root = joined (reading.pieces.without isBlank) ∧
      (dropped.tree Document.root = (doc.tree Document.root).without isBlank ↔
        reading.pieces.Unmixed) := by
  obtain ⟨reading, rfl⟩ := Reading.exists_of_ofXml parsed
  obtain ⟨other, same⟩ := reading.exists_dropping
  have tree_eq := reading.tree_eq_of_keeps keeps
  have tree_eq' := other.tree_eq
  rw [same] at tree_eq'
  refine ⟨reading, _, other.ofXml_eq_ok, tree_eq, tree_eq', ?_⟩
  rw [tree_eq, tree_eq']
  exact reading.without_joined_iff

theorem blanks_dropped_iff_marked : ∃ doc, Document.ofXml {} markedText = .ok doc ∧
    ∃ (reading : Reading {} markedText) (dropped : Document),
      Document.ofXml (({} : ParseOptions).withBlanks true) markedText = .ok dropped ∧
      doc.tree Document.root = joined reading.pieces ∧
      dropped.tree Document.root = joined (reading.pieces.without isBlank) ∧
      (dropped.tree Document.root = (doc.tree Document.root).without isBlank ↔
        reading.pieces.Unmixed) := by
  obtain ⟨reading, -⟩ := exists_reading_marked
  exact ⟨_, reading.ofXml_eq_ok, blanks_dropped_iff rfl reading.ofXml_eq_ok⟩

/-- The blank after the reference is part of the text that the entity begins, and it is dropped. -/
theorem blank_lost_marked : ∃ doc dropped, Document.ofXml {} markedText = .ok doc ∧
    Document.ofXml (({} : ParseOptions).withBlanks true) markedText = .ok dropped ∧
    doc.tree Document.root = .node .document [.leaf (.doctype "a" none none),
      .node (.plainElement "a") [.leaf (.plainElement "b"), .leaf (.text "x ")]] ∧
    dropped.tree Document.root = .node .document [.leaf (.doctype "a" none none),
      .node (.plainElement "a") [.leaf (.plainElement "b"), .leaf (.text "x")]] ∧
    dropped.tree Document.root ≠ (doc.tree Document.root).without isBlank := by
  obtain ⟨reading, nodes, tag, events, -, late⟩ := exists_reading_marked
  obtain ⟨other, nodes', tag', events', late'⟩ := reading.exists_withBlanks true
  have tree_eq := reading.tree_eq
  have tree_eq' := other.tree_eq
  rw [Reading.pieces, nodes, tag, events, late] at tree_eq
  rw [Reading.pieces, nodes', tag', events', late', nodes, tag, events, late] at tree_eq'
  refine ⟨_, _, reading.ofXml_eq_ok, other.ofXml_eq_ok, tree_eq.trans rfl, tree_eq'.trans rfl, ?_⟩
  rw [tree_eq, tree_eq']
  exact fun same => absurd (congrArg textContent same) (by decide)

/-- Where no entity has markup in its replacement text, the blank texts go and nothing else does. -/
theorem blanks_dropped_of_plain {text : String} (reading : Reading options text)
    (keeps : options.noBlanks = false)
    (plain : ∀ entity ∈ reading.table.internal, isPlainText entity.2 = true) :
    ∃ dropped, Document.ofXml (options.withBlanks true) text = .ok dropped ∧
      dropped.tree Document.root =
        ((Document.ofDraft reading.draft).tree Document.root).without isBlank := by
  obtain ⟨other, same⟩ := reading.exists_dropping
  refine ⟨_, other.ofXml_eq_ok, ?_⟩
  have tree_eq' := other.tree_eq
  rw [same] at tree_eq'
  rw [tree_eq', reading.tree_eq_of_keeps keeps]
  exact reading.without_joined_iff.mpr (reading.unmixed_of_plain plain)

end Markup.Xml
