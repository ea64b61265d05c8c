import Markup.Proofs.Outcome
import Markup.Proofs.Store.Grow

/-!
# Copying trees in

A copy is made level by level: all children of a node first, then what is below the last of them.
What is still to be copied is a list of nodes without children, each with the trees to go below it.
-/

namespace Markup.Document

variable {doc doc' doc'' : Document} {id parent : NodeId} {trees : List Tree}
  {row work : List (NodeId × List Tree)}

/-! ## One row of children -/

/-- A document with new last children below a node, of which only the topmost nodes are there. -/
structure PlantedRow (doc doc' : Document) (parent : NodeId) (trees : List Tree)
    (row : List (NodeId × List Tree)) : Prop where
  linked : doc'.WellLinked
  live : ∀ other, doc.IsLive other → doc'.IsLive other
  kind_kept : ∀ other, doc.IsLive other → doc'.kind other = doc.kind other
  parent_kept : ∀ other, doc.IsLive other → doc'.parent other = doc.parent other
  children_kept : ∀ other, doc.IsLive other → other ≠ parent →
    doc'.children other = doc.children other
  children_parent : doc'.children parent = doc.children parent ++ (row.map (·.1)).reverse
  fresh : ∀ entry ∈ row, ¬ doc.IsLive entry.1 ∧ doc'.IsLive entry.1
  childless : ∀ entry ∈ row, doc'.children entry.1 = []
  single : (row.map (·.1)).Nodup
  trees_eq : row.reverse.map (fun entry => .node (doc'.kind entry.1) entry.2) = trees

theorem PlantedRow.not_mem (planted : PlantedRow doc doc' parent trees row) (live : doc.IsLive id) :
    id ∉ row.map (·.1) := by
  intro listed
  obtain ⟨entry, member, rfl⟩ := List.mem_map.mp listed
  exact (planted.fresh entry member).1 live

theorem PlantedRow.cons (live : doc.IsLive parent) (planted : PlantedRow doc doc' parent trees row)
    (tree : Tree) : PlantedRow doc (doc'.grow parent tree.kind) parent (trees ++ [tree])
      (((doc'.create tree.kind).1, tree.children) :: row) := by
  have extended := extended_grow planted.linked (planted.live parent live) tree.kind
  have old : ∀ {other}, doc'.IsLive other → (doc'.grow parent tree.kind).IsLive other :=
    fun live => (extended.live_iff _).mpr (.inr live)
  have new : (doc'.grow parent tree.kind).IsLive (doc'.create tree.kind).1 :=
    (extended.live_iff _).mpr (.inl rfl)
  have distinct : ∀ entry ∈ row, entry.1 ≠ (doc'.create tree.kind).1 := fun entry member same =>
    extended.fresh (same ▸ (planted.fresh entry member).2)
  have apart : ∀ entry ∈ row, entry.1 ≠ parent := fun entry member same =>
    (planted.fresh entry member).1 (same ▸ live)
  exact {
    linked := extended.linked
    live := fun other live => old (planted.live other live)
    kind_kept := fun other live =>
      (extended.kind_kept other (planted.live other live)).trans (planted.kind_kept other live)
    parent_kept := fun other live =>
      (extended.parent_kept other (planted.live other live)).trans (planted.parent_kept other live)
    children_kept := fun other live other' =>
      (extended.children_kept other (planted.live other live) other').trans
        (planted.children_kept other live other')
    children_parent := by
      rw [extended.children_parent, planted.children_parent]
      simp
    fresh := by
      rintro entry (_ | ⟨_, member⟩)
      · exact ⟨fun live => extended.fresh (planted.live _ live), new⟩
      · exact ⟨(planted.fresh entry member).1, old (planted.fresh entry member).2⟩
    childless := by
      rintro entry (_ | ⟨_, member⟩)
      · exact extended.children_new
      · rw [extended.children_kept entry.1 (planted.fresh entry member).2 (apart entry member),
          planted.childless entry member]
    single := by
      refine List.nodup_cons.mpr ⟨fun listed => ?_, planted.single⟩
      obtain ⟨entry, member, same⟩ := List.mem_map.mp listed
      exact distinct entry member same
    trees_eq := by
      rw [List.reverse_cons, List.map_append, ← planted.trees_eq]
      congr 1
      · apply List.map_congr_left
        intro entry member
        rw [extended.kind_kept entry.1 (planted.fresh entry (List.mem_reverse.mp member)).2]
      · rw [List.map_singleton, extended.kind_new]
        cases tree
        rfl }

theorem plantedRow_plant (linked : doc.WellLinked) (live : doc.IsLive parent) (trees : List Tree) :
    PlantedRow doc (doc.plant parent trees).2 parent trees (doc.plant parent trees).1 := by
  have general : ∀ (rest done : List Tree) (row : List (NodeId × List Tree)) (doc' : Document),
      PlantedRow doc doc' parent done row →
      let result := rest.foldl (fun planted tree =>
        let made := planted.2.create tree.kind
        ((made.1, tree.children) :: planted.1, made.2.appendChild parent made.1)) (row, doc')
      PlantedRow doc result.2 parent (done ++ rest) result.1 := by
    intro rest
    induction rest with
    | nil =>
      intro done row doc' planted
      simpa using planted
    | cons tree rest ih =>
      intro done row doc' planted
      have step := ih _ _ _ (planted.cons live tree)
      rw [List.append_assoc] at step
      exact step
  exact general trees [] [] doc {
    linked := linked
    live := fun _ live => live
    kind_kept := fun _ _ => rfl
    parent_kept := fun _ _ => rfl
    children_kept := fun _ _ _ => rfl
    children_parent := by simp
    fresh := by simp
    childless := by simp
    single := List.nodup_nil
    trees_eq := rfl }

/-! ## All that is to be copied -/

/-- A document in which trees were copied in below nodes. -/
structure PlantedAll (doc doc' : Document) (work : List (NodeId × List Tree)) : Prop where
  linked : doc'.WellLinked
  live : ∀ other, doc.IsLive other → doc'.IsLive other
  kind_kept : ∀ other, doc.IsLive other → doc'.kind other = doc.kind other
  parent_kept : ∀ other, doc.IsLive other → doc'.parent other = doc.parent other
  children_kept : ∀ other, doc.IsLive other → other ∉ work.map (·.1) →
    doc'.children other = doc.children other
  trees_eq : ∀ entry ∈ work, (doc'.children entry.1).map doc'.tree = entry.2

/-- Trees can be copied in below nodes that have no children yet, each named once. -/
structure Ready (doc : Document) (work : List (NodeId × List Tree)) : Prop where
  linked : doc.WellLinked
  live : ∀ entry ∈ work, doc.IsLive entry.1
  childless : ∀ entry ∈ work, doc.children entry.1 = []
  single : (work.map (·.1)).Nodup

/-- After the first row the new nodes are those to go on with, and then the others. -/
theorem Ready.plant (ready : Ready doc ((parent, trees) :: work)) :
    Ready (doc.plant parent trees).2 ((doc.plant parent trees).1 ++ work) := by
  have liveW : ∀ entry ∈ work, doc.IsLive entry.1 := fun entry member =>
    ready.live entry (List.mem_cons_of_mem _ member)
  have row := plantedRow_plant ready.linked (ready.live _ List.mem_cons_self) trees
  obtain ⟨elsewhere, single⟩ := List.nodup_cons.mp ready.single
  exact {
    linked := row.linked
    live := by
      intro entry member
      rcases List.mem_append.mp member with inRow | inRest
      · exact (row.fresh entry inRow).2
      · exact row.live _ (liveW entry inRest)
    childless := by
      intro entry member
      rcases List.mem_append.mp member with inRow | inRest
      · exact row.childless entry inRow
      · have apart : entry.1 ≠ parent := fun same =>
          elsewhere (List.mem_map.mpr ⟨entry, inRest, same⟩)
        rw [row.children_kept _ (liveW entry inRest) apart]
        exact ready.childless entry (List.mem_cons_of_mem _ inRest)
    single := by
      rw [List.map_append, List.nodup_append]
      refine ⟨row.single, single, ?_⟩
      rintro id inRow other inRest rfl
      obtain ⟨entry, member, rfl⟩ := List.mem_map.mp inRest
      exact row.not_mem (liveW entry member) inRow }

theorem Ready.plantedAll (ready : Ready doc work) : PlantedAll doc (doc.plantAll work) work := by
  fun_induction doc.plantAll work with
  | case1 doc =>
    exact {
      linked := ready.linked
      live := fun _ live => live
      kind_kept := fun _ _ => rfl
      parent_kept := fun _ _ => rfl
      children_kept := fun _ _ _ => rfl
      trees_eq := by simp }
  | case2 doc parent trees rest planted ih =>
    have liveP : doc.IsLive parent := ready.live (parent, trees) List.mem_cons_self
    have row := plantedRow_plant ready.linked liveP trees
    obtain ⟨elsewhere, -⟩ := List.nodup_cons.mp ready.single
    have all := ih ready.plant
    have untouched : ∀ {other}, doc.IsLive other → other ∉ rest.map (·.1) →
        other ∉ (planted.1 ++ rest).map (·.1) := by
      intro other liveO outside
      rw [List.map_append, List.mem_append, not_or]
      exact ⟨row.not_mem liveO, outside⟩
    exact {
      linked := all.linked
      live := fun other live => all.live other (row.live other live)
      kind_kept := fun other live =>
        (all.kind_kept other (row.live other live)).trans (row.kind_kept other live)
      parent_kept := fun other live =>
        (all.parent_kept other (row.live other live)).trans (row.parent_kept other live)
      children_kept := fun other live outside => by
        obtain ⟨notParent, outside⟩ := not_or.mp (List.mem_cons.not.mp outside)
        rw [all.children_kept other (row.live other live) (untouched live outside),
          row.children_kept other live notParent]
      trees_eq := by
        intro entry member
        rcases List.mem_cons.mp member with rfl | inRest
        · rw [all.children_kept parent (row.live parent liveP) (untouched liveP elsewhere),
            row.children_parent, ready.childless (parent, trees) List.mem_cons_self,
            List.nil_append, ← List.map_reverse, List.map_map]
          refine Eq.trans (List.map_congr_left fun entry inRow => ?_) row.trees_eq
          have inRow := List.mem_reverse.mp inRow
          have liveE := (row.fresh entry inRow).2
          rw [Function.comp, all.linked.tree_eq (all.live entry.1 liveE),
            all.kind_kept entry.1 liveE, all.trees_eq entry (List.mem_append_left _ inRow)]
        · exact all.trees_eq entry (List.mem_append_right _ inRest) }

/-- A node that was just created is ready for what is to go below it. -/
theorem ready_create (linked : doc.WellLinked) (tree : Tree) :
    Ready (doc.create tree.kind).2 [((doc.create tree.kind).1, tree.children)] := by
  have made := created tree.kind linked
  have shape := HasShape.create linked made
  have bare : (doc.create tree.kind).2.children (doc.create tree.kind).1 = [] := by
    rw [shape.children_eq made.live, Function.update_self]
  exact {
    linked := shape.wellLinked
    live := List.forall_mem_singleton.mpr made.live
    childless := List.forall_mem_singleton.mpr bare
    single := List.nodup_singleton _ }

/-! ## Copies -/

/-- A document beside whose live nodes a tree was copied in, not yet hung anywhere. -/
structure Grafted (doc doc' : Document) (id : NodeId) (tree : Tree) : Prop where
  linked : doc'.WellLinked
  live : ∀ other, doc.IsLive other → doc'.IsLive other
  kind_kept : ∀ other, doc.IsLive other → doc'.kind other = doc.kind other
  parent_kept : ∀ other, doc.IsLive other → doc'.parent other = doc.parent other
  children_kept : ∀ other, doc.IsLive other → doc'.children other = doc.children other
  fresh : ¬ doc.IsLive id
  live_new : doc'.IsLive id
  orphan : doc'.parent id = none
  tree_new : doc'.tree id = tree

theorem grafted_graft (linked : doc.WellLinked) (tree : Tree) :
    Grafted doc (doc.graft tree).2 (doc.graft tree).1 tree := by
  have made := created tree.kind linked
  have shape := HasShape.create linked made
  have all := (ready_create linked tree).plantedAll
  have live := all.live _ made.live
  exact {
    linked := all.linked
    live := fun other live => all.live other (made.live_of_live live)
    kind_kept := fun other live =>
      (all.kind_kept other (made.live_of_live live)).trans (made.kind_kept live)
    parent_kept := fun other live =>
      (all.parent_kept other (made.live_of_live live)).trans (made.parent_kept live)
    children_kept := by
      intro other live
      have distinct := made.ne_of_live live
      refine (all.children_kept other (made.live_of_live live) (by simpa using distinct)).trans ?_
      rw [shape.children_eq (made.live_of_live live), Function.update_of_ne distinct]
    fresh := made.fresh
    live_new := live
    orphan := (all.parent_kept _ made.live).trans made.parent_eq
    tree_new := by
      have copied := all.trees_eq ((doc.create tree.kind).1, tree.children) (by simp)
      refine (all.linked.tree_eq live).trans ?_
      rw [all.kind_kept _ made.live, made.kind_eq, copied]
      cases tree
      rfl }

/-- Copying a tree in keeps all links in step. -/
theorem WellLinked.graft (linked : doc.WellLinked) (tree : Tree) :
    (doc.graft tree).2.WellLinked := (grafted_graft linked tree).linked

/-- A node that hung nowhere keeps the tree below it as it becomes the last child of another. -/
theorem WellLinked.tree_appendChild (linked : doc.WellLinked) (liveP : doc.IsLive parent)
    (live : doc.IsLive id) (orphan : doc.parent id = none) (placeable : id ≠ root)
    (outside : id ∉ doc.ancestors parent) : (doc.appendChild parent id).tree id = doc.tree id := by
  have distinct : id ≠ parent := by
    rintro rfl
    exact outside (HasShape.mem_ancestors_self linked live)
  have placed := inserted_appendChild linked liveP live orphan distinct
  have shape := HasShape.appendChild linked liveP live orphan placeable outside
  apply tree_congr linked shape.wellLinked live
  intro other inner
  have liveO := placed.use.live_iff.mpr (linked.live_of_mem_preorder live inner)
  refine ⟨liveO, kind_appendChild, ?_⟩
  rw [shape.children_eq liveO, Function.update_of_ne]
  rintro rfl
  exact outside ((linked.mem_preorder_iff live).mp inner).2

/-- A copied tree becomes the last child of a node. -/
theorem grown_graft (linked : doc.WellLinked) (live : doc.IsLive parent) (tree : Tree) :
    Grown doc ((doc.graft tree).2.appendChild parent (doc.graft tree).1) parent [tree] := by
  have copied := grafted_graft linked tree
  generalize (doc.graft tree).1 = id at *
  generalize (doc.graft tree).2 = aside at *
  have apart : ∀ {other}, doc.IsLive other → other ≠ id := by
    rintro other live rfl
    exact copied.fresh live
  have outside : id ∉ aside.ancestors parent := by
    rw [HasShape.ancestors_congr linked copied.linked
      (fun each live => ⟨copied.live each live, copied.parent_kept each live⟩) live]
    exact fun member => copied.fresh (HasShape.live_of_mem_ancestors linked live _ member)
  have liveP := copied.live parent live
  have distinct := (apart live).symm
  have placeable := (apart linked.root_live).symm
  have placed := inserted_appendChild copied.linked liveP copied.live_new copied.orphan distinct
  have shape :=
    HasShape.appendChild copied.linked liveP copied.live_new copied.orphan placeable outside
  have shown : ∀ {other}, aside.IsLive other → (aside.appendChild parent id).children other =
      Function.update aside.children parent (aside.children parent ++ [id]) other :=
    fun live => shape.children_eq (placed.use.live_iff.mpr live)
  exact {
    linked := shape.wellLinked
    live := fun other live => placed.use.live_iff.mpr (copied.live other live)
    kind_kept := fun other live => kind_appendChild.trans (copied.kind_kept other live)
    parent_kept := fun other live => by
      rw [placed.parent_eq other (copied.live other live), if_neg (apart live),
        copied.parent_kept other live]
    children_kept := fun other live other' => by
      rw [shown (copied.live other live), Function.update_of_ne other',
        copied.children_kept other live]
    added := by
      refine ⟨[id], ?_, ?_⟩
      · rw [shown liveP, Function.update_self, copied.children_kept parent live]
      · rw [List.map_singleton, copied.linked.tree_appendChild liveP copied.live_new copied.orphan
          placeable outside, copied.tree_new] }

/-! ## Documents from drafts -/

mutual

theorem grown_addDraft : (draft : Xml.Draft) → {doc : Document} → {parent : NodeId} →
    doc.WellLinked → doc.IsLive parent →
      Grown doc (doc.addDraft parent draft) parent [draft.toTree]
  | .written kind children, doc, parent, linked, live => by
    have outer := extended_grow linked live kind
    have inner := grown_addDrafts children outer.linked ((outer.live_iff _).mpr (.inl rfl))
    rw [addDraft, Xml.Draft.toTree]
    exact .of_extended live outer inner
  | .copied tree, doc, parent, linked, live => by
    rw [addDraft, Xml.Draft.toTree]
    exact grown_graft linked live tree

/-- Drafts become the last children of a node, each with the tree that it stands for. -/
theorem grown_addDrafts : (drafts : List Xml.Draft) → {doc : Document} → {parent : NodeId} →
    doc.WellLinked → doc.IsLive parent →
      Grown doc (doc.addDrafts parent drafts) parent (Xml.Draft.toTrees drafts)
  | [], doc, parent, linked, live => by
    rw [addDrafts, Xml.Draft.toTrees]
    exact .refl linked
  | draft :: rest, doc, parent, linked, live => by
    have first := grown_addDraft draft linked live
    have second := grown_addDrafts rest first.linked (first.live parent live)
    rw [addDrafts, Xml.Draft.toTrees]
    exact first.trans live second

end

/-- A document without content of which only what is known of its text is there. -/
def blank (draft : Xml.DocumentDraft) : Document :=
  { empty with
    version := draft.version
    encoding := draft.encoding
    standalone := draft.standalone
    diagnostics := draft.diagnostics }

theorem hasShape_blank (draft : Xml.DocumentDraft) : (blank draft).HasShape fun _ => [] := by
  have same : SameLinks empty (blank draft) := .of_slots rfl rfl
  exact same.hasShape hasShape_empty

theorem grown_ofDraft (draft : Xml.DocumentDraft) :
    Grown (blank draft) (ofDraft draft) root (Xml.Draft.toTrees draft.nodes) :=
  grown_addDrafts draft.nodes (hasShape_blank draft).wellLinked (hasShape_blank draft).root_live

theorem wellLinked_ofDraft (draft : Xml.DocumentDraft) : (ofDraft draft).WellLinked :=
  (grown_ofDraft draft).linked

theorem wellLinked_ofXml {options : Xml.ParseOptions} {text : String}
    (parsed : ofXml options text = .ok doc) : doc.WellLinked := by
  obtain ⟨draft, -, rfl⟩ := map_eq_ok.mp parsed
  exact wellLinked_ofDraft draft

/-- The tree of a document that was parsed is what the parse yielded. -/
theorem tree_ofDraft (draft : Xml.DocumentDraft) :
    (ofDraft draft).tree root = .node .document (Xml.Draft.toTrees draft.nodes) := by
  have shape := hasShape_blank draft
  have grown := grown_ofDraft draft
  obtain ⟨new, children, built⟩ := grown.added
  rw [shape.children_eq shape.root_live, List.nil_append] at children
  rw [grown.linked.tree_eq (grown.live root shape.root_live),
    grown.kind_kept root shape.root_live, children, built]
  rfl

/-! ## Besides the nodes -/

/-- What a document has besides its nodes, as a draft without nodes. -/
def head (doc : Document) : Xml.DocumentDraft :=
  ⟨doc.version, doc.encoding, doc.standalone, doc.diagnostics, []⟩

theorem head_appendChild (doc : Document) (parent child : NodeId) :
    (doc.appendChild parent child).head = doc.head := by
  unfold appendChild
  dsimp only
  split <;> rfl

theorem head_create (doc : Document) (kind : NodeKind) : (doc.create kind).2.head = doc.head := by
  unfold create
  split <;> rfl

theorem head_plant (doc : Document) (parent : NodeId) (trees : List Tree) :
    (doc.plant parent trees).2.head = doc.head := by
  let Kept (planted : List (NodeId × List Tree) × Document) : Prop := planted.2.head = doc.head
  refine List.foldlRecOn (motive := Kept) trees _ rfl fun planted kept tree _ => ?_
  exact (head_appendChild ..).trans ((head_create ..).trans kept)

theorem head_plantAll (doc : Document) (work : List (NodeId × List Tree)) :
    (doc.plantAll work).head = doc.head := by
  fun_induction plantAll doc work with
  | case1 => rfl
  | case2 doc parent trees rest planted ih => exact ih.trans (head_plant ..)

mutual

theorem head_addDraft : (draft : Xml.Draft) → (doc : Document) → (parent : NodeId) →
    (doc.addDraft parent draft).head = doc.head
  | .written kind children, doc, parent => by
    rw [addDraft, head_addDrafts, head_appendChild, head_create]
  | .copied tree, doc, parent => by
    rw [addDraft, head_appendChild]
    exact (head_plantAll ..).trans (head_create ..)

theorem head_addDrafts : (drafts : List Xml.Draft) → (doc : Document) → (parent : NodeId) →
    (doc.addDrafts parent drafts).head = doc.head
  | [], _, _ => by rw [addDrafts]
  | draft :: rest, doc, parent => by
    rw [addDrafts, head_addDrafts rest, head_addDraft draft]

end

/-- A document that was parsed keeps what the parse yielded besides the nodes. -/
theorem head_ofDraft (draft : Xml.DocumentDraft) :
    (ofDraft draft).head = { draft with nodes := [] } :=
  head_addDrafts ..

end Markup.Document
