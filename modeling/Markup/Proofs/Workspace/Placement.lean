import Markup.Proofs.Workspace.Runs
import Markup.Proofs.Workspace.Received

/-!
# What an insertion does and what it leaves alone

A node that is inserted, be it moved or copied, gets its place among the children of its new parent
and is taken from those of the old one. All other nodes keep what they hold, where they hang, and
their children in order. The node keeps its tree and gets declarations in front of its attributes at
most.
-/

namespace Markup

/-! ## Places among children -/

namespace Document

variable {doc doc' aside : Document} {target host node other : NodeId}
  {placement : Placement} {tree : Tree} {needed : List (Option String × String)}

/-- Whether children are others with a node in its place: at the end, right after the target or
right before it. -/
def Placement.Puts (target node : NodeId) (before after : List NodeId) : Placement → Prop
  | .lastChild => after = before ++ [node]
  | .after => ∃ left right,
      before = left ++ target :: right ∧ after = left ++ target :: node :: right
  | .before => ∃ left right,
      before = left ++ target :: right ∧ after = left ++ node :: target :: right

namespace Placeable

theorem outside_host (placeable : Placeable doc target host node placement) :
    node ∉ doc.ancestors host := by
  have path := placeable.linked.mem_ancestors_host placeable.live_target placeable.hosted
  exact fun inner =>
    placeable.outside (placeable.linked.ancestors_subset placeable.live_target path inner)

theorem live_host (placeable : Placeable doc target host node placement) : doc.IsLive host :=
  HasShape.live_of_mem_ancestors placeable.linked placeable.live_target host
    (placeable.linked.mem_ancestors_host placeable.live_target placeable.hosted)

/-- A node that is placed before one of the children stands there among them. -/
theorem children_insertBefore (placeable : Placeable doc target host node placement)
    {reference : NodeId} {before after : List NodeId}
    (split : doc.children host = before ++ reference :: after) :
    (doc.insertBefore reference node).children host = before ++ node :: reference :: after := by
  have inserted := inserted_insertBefore placeable.linked placeable.live_host placeable.live_node
    placeable.orphan split
  have shape := HasShape.insert placeable.linked placeable.live_host placeable.live_node
    placeable.orphan split inserted placeable.distinct placeable.outside_host
  rw [shape.children_eq (inserted.use.live_iff.mpr placeable.live_host), Function.update_self]

theorem children_appendChild (placeable : Placeable doc target host node placement) :
    (doc.appendChild host node).children host = doc.children host ++ [node] := by
  have distinct : node ≠ host := fun same => placeable.outside_host
    (same ▸ HasShape.mem_ancestors_self placeable.linked placeable.live_node)
  have inserted := inserted_appendChild placeable.linked placeable.live_host placeable.live_node
    placeable.orphan distinct
  have shape := HasShape.appendChild placeable.linked placeable.live_host placeable.live_node
    placeable.orphan placeable.distinct placeable.outside_host
  rw [shape.children_eq (inserted.use.live_iff.mpr placeable.live_host), Function.update_self]

/-- What is placed stands in its place among the children. -/
theorem puts (placeable : Placeable doc target host node placement) :
    placement.Puts target node (doc.children host)
      ((doc.place target node placement).children host) := by
  have hosted := placeable.hosted
  cases placement with
  | lastChild =>
    obtain rfl := Option.some.inj hosted
    exact placeable.children_appendChild
  | before =>
    obtain ⟨left, right, split⟩ :=
      List.append_of_mem (placeable.linked.listed placeable.live_target hosted).2
    exact ⟨left, right, split, placeable.children_insertBefore split⟩
  | after =>
    obtain ⟨left, right, split⟩ :=
      List.append_of_mem (placeable.linked.listed placeable.live_target hosted).2
    refine ⟨left, right, split, ?_⟩
    have next := (HasShape.siblings_eq placeable.linked placeable.live_host split).1
    cases right with
    | nil =>
      simp only [place, insertAfter, next, List.head?_nil, show doc.parent target = some host from
        hosted]
      rw [placeable.children_appendChild, split]
      simp
    | cons following rest =>
      have behind : doc.children host = (left ++ [target]) ++ following :: rest := by
        simpa using split
      simp only [place, insertAfter, next, List.head?_cons]
      rw [placeable.children_insertBefore behind]
      simp

end Placeable

/-! ## Nodes that are set aside -/

/-- A document in which a node hangs nowhere, beside everything else that there was. -/
structure SetAside (doc aside : Document) (node : NodeId) (tree : Tree) : Prop where
  linked : aside.WellLinked
  tree_eq : aside.tree node = tree
  live : ∀ other, doc.IsLive other → aside.IsLive other
  kind_eq : ∀ other, doc.IsLive other → aside.kind other = doc.kind other
  parent_eq : ∀ other, doc.IsLive other → other ≠ node → aside.parent other = doc.parent other
  children_eq : ∀ other, doc.IsLive other → aside.children other = (doc.children other).erase node

/-- A node that is taken out is missed by its parent only. -/
theorem WellLinked.children_detach_eq (linked : doc.WellLinked) (live : doc.IsLive node)
    (liveO : doc.IsLive other) :
    (doc.detach node).children other = (doc.children other).erase node := by
  by_cases above : doc.parent node = some other
  · obtain ⟨before, after, split⟩ := List.append_of_mem (linked.listed live above).2
    have taken := erased_detach linked liveO split
    have single := HasShape.kids_nodup linked liveO
    rw [split] at single
    have apart : node ∉ before := fun member =>
      (List.nodup_append.mp single).2.2 node member node List.mem_cons_self rfl
    rw [HasShape.children_eq (HasShape.erase linked liveO split taken)
      (taken.use.live_iff.mpr liveO), Function.update_self, split, List.erase_append_right _ apart,
      List.erase_cons_head]
  · rw [(linked.children_detach live liveO).2 above, List.erase_of_not_mem]
    exact fun member => above (linked.child liveO member).2

theorem setAside_detach (linked : doc.WellLinked) (live : doc.IsLive node) (distinct : node ≠ root) :
    SetAside doc (doc.detach node) node (doc.tree node) where
  linked := linked.detach live
  tree_eq := (loosened_detach linked live distinct).tree_eq
  live _ := (linked.sameUse_detach live).live_iff.mpr
  kind_eq _ _ := kind_detach
  parent_eq _ liveO apart := linked.parent_detach live liveO apart
  children_eq _ liveO := linked.children_detach_eq live liveO

theorem setAside_graft (linked : doc.WellLinked) (tree : Tree) :
    SetAside doc (doc.graft tree).2 (doc.graft tree).1 tree := by
  have grafted := grafted_graft linked tree
  refine ⟨grafted.linked, grafted.tree_new, grafted.live, grafted.kind_kept,
    fun other live _ => grafted.parent_kept other live, fun other live => ?_⟩
  rw [grafted.children_kept other live, List.erase_of_not_mem]
  exact fun member => grafted.fresh (linked.live_of_mem_children live member)

/-! ## Nodes that are inserted -/

/-- What inserting a node does to a document: the node is in its place below `host` with its tree,
and everything else is where it was. -/
structure PutAt (doc doc' : Document) (placement : Placement) (target host node : NodeId)
    (tree : Tree) : Prop where
  linked : doc'.WellLinked
  hosted : doc.host? target placement = some host
  isElement : (doc.kind host).isElement = true
  attached : doc'.isAttached node = true
  /-- The new parent has its children without the node, and the node in its place among them. -/
  puts : placement.Puts target node ((doc.children host).erase node) (doc'.children host)
  parent_new : doc'.parent node = some host
  live : ∀ other, doc.IsLive other → doc'.IsLive other
  parent_kept : ∀ other, doc.IsLive other → other ≠ node → doc'.parent other = doc.parent other
  kind_kept : ∀ other, doc.IsLive other → other ≠ node → doc'.kind other = doc.kind other
  /-- A node loses no child but the one that is inserted elsewhere. -/
  children_kept : ∀ other, doc.IsLive other → other ≠ host →
    doc'.children other = (doc.children other).erase node
  declared : ∃ declarations : List Attribute, (∀ attr ∈ declarations, attr.isDeclaration = true) ∧
    doc'.tree node = tree.declaring declarations

theorem isDeclaration_of_missing {attr : Attribute}
    (member : attr ∈ doc.missingDeclarations node needed) : attr.isDeclaration = true := by
  rw [missingDeclarations_eq, Attribute.declarationsOf, List.mem_map] at member
  obtain ⟨pair, -, rfl⟩ := member
  exact Attribute.isDeclaration_declaration pair.1 pair.2

theorem tree_settle (linked : doc.WellLinked) (live : doc.IsLive node) :
    (doc.settle node needed).tree node =
      (doc.tree node).declaring (doc.missingDeclarations node needed) := by
  rw [settle, modifyAttributes, tree_modifyKind linked live, linked.tree_eq live, Tree.declaring]
  cases doc.kind node <;> rfl

/-- Where nothing on the way up hangs elsewhere than before, the way up is what it was. -/
theorem WellLinked.ancestors_eq_of_outside (linked : doc.WellLinked) (linked' : doc'.WellLinked)
    (kept : ∀ each, doc.IsLive each → doc'.IsLive each ∧
      (each ≠ node → doc'.parent each = doc.parent each))
    (live : doc.IsLive other) (outside : node ∉ doc.ancestors other) :
    doc'.ancestors other = doc.ancestors other := by
  refine HasShape.ancestors_eq_of_leads linked' (kept other live).1
    ((HasShape.leads_ancestors linked live).congr fun each above => (kept each ?_).2 ?_)
  · exact HasShape.live_of_mem_ancestors linked live each above
  · rintro rfl
    exact outside above

/-- A node that was set aside is put in its place. -/
theorem SetAside.putAt (setAside : SetAside doc aside node tree) (linked : doc.WellLinked)
    (placeable : Placeable aside target host node placement)
    (hosted : doc.host? target placement = some host) (isElement : (doc.kind host).isElement = true)
    (attached : doc.isAttached host = true) (outside : node ∉ doc.ancestors host)
    (needed : List (Option String × String)) :
    PutAt doc ((aside.place target node placement).settle node needed) placement target host node
      tree := by
  have placed := placeable.placed
  have puts := placeable.puts
  have tree_eq := (placed.tree_eq setAside.linked placeable.live_node placeable.outside_host).trans
    setAside.tree_eq
  generalize aside.place target node placement = middle at *
  have liveH := linked.live_of_isAttached attached
  have liveN := placed.use.live_iff.mpr placeable.live_node
  have links : SameLinks middle (middle.settle node needed) := .settle liveN _
  have linked' := links.wellLinked placed.linked
  have live : ∀ other, doc.IsLive other → middle.IsLive other := fun other liveO =>
    placed.use.live_iff.mpr (setAside.live other liveO)
  have parent_new : (middle.settle node needed).parent node = some host := by
    rw [links.parent, placed.parent_new]
  have parent_kept : ∀ other, doc.IsLive other → other ≠ node →
      (middle.settle node needed).parent other = doc.parent other := by
    intro other liveO apart
    rw [links.parent, placed.parent_kept other (setAside.live other liveO) apart,
      setAside.parent_eq other liveO apart]
  have path := linked.ancestors_eq_of_outside linked' (fun each liveE =>
    ⟨links.use.live_iff.mpr (live each liveE), parent_kept each liveE⟩) liveH outside
  have live' := links.use.live_iff.mpr liveN
  exact {
    linked := linked'
    hosted := hosted
    isElement := isElement
    attached := by
      rw [linked'.isAttached_iff, HasShape.ancestors_of_parent linked' live' parent_new, path]
      exact ⟨live', List.mem_cons_of_mem _ (linked.isAttached_iff.mp attached).2⟩
    puts := by
      rw [links.children_eq, ← setAside.children_eq host liveH]
      exact puts
    parent_new := parent_new
    live := fun other liveO => links.use.live_iff.mpr (live other liveO)
    parent_kept := parent_kept
    kind_kept := fun other liveO apart => by
      rw [kind_settle_of_ne liveN (live other liveO) apart, placed.kind_eq,
        setAside.kind_eq other liveO]
    children_kept := fun other liveO apart => by
      rw [links.children_eq, placed.children_kept other (setAside.live other liveO) apart,
        setAside.children_eq other liveO]
    declared := ⟨middle.missingDeclarations node needed, fun attr => isDeclaration_of_missing, by
      rw [tree_settle placed.linked liveN, tree_eq]⟩ }

/-- A node that is moved is in its new place, and the nodes of the document are the same. -/
theorem putAt_of_move (linked : doc.WellLinked) (attached : doc.isAttached target = true)
    (moved : doc.move target node placement = .ok doc') :
    (∃ host, PutAt doc doc' placement target host node (doc.tree node)) ∧
      ∀ id, doc'.IsLive id ↔ doc.IsLive id := by
  obtain ⟨⟨attachedN, ⟨host, hosted, isElement⟩, outside⟩, rfl⟩ := move_eq_ok.mp moved
  obtain ⟨live, reached⟩ := linked.isAttached_iff.mp attached
  have liveN := linked.live_of_isAttached attachedN
  have distinct : node ≠ root := by
    rintro rfl
    exact outside reached
  have placeable := placeable_detach linked live reached liveN outside hosted
  have path := linked.mem_ancestors_host live hosted
  refine ⟨⟨host, (setAside_detach linked liveN distinct).putAt linked placeable hosted isElement
    (linked.isAttached_above attached path)
    (fun inner => outside (linked.ancestors_subset live path inner)) _⟩, fun id => ?_⟩
  have placed := placeable.placed
  have links := SameLinks.settle (placed.use.live_iff.mpr placeable.live_node)
    (doc.inheritedBindings node)
  exact (links.use.live_iff.trans placed.use.live_iff).trans (linked.sameUse_detach liveN).live_iff

/-- A copy is in its place, and everything below it is new. -/
theorem putAt_of_copyIn {copy : NodeId} (linked : doc.WellLinked)
    (attached : doc.isAttached target = true)
    (copied : doc.copyIn target tree needed placement = .ok (copy, doc')) :
    (∃ host, PutAt doc doc' placement target host copy tree) ∧
      ∀ id, copy ∈ doc'.ancestors id → ¬ doc.IsLive id := by
  obtain ⟨⟨host, hosted, isElement⟩, same⟩ := copyIn_eq_ok.mp copied
  cases same
  have live := linked.live_of_isAttached attached
  have fresh := (grafted_graft linked tree).fresh
  have outside : ∀ id, doc.IsLive id → (doc.graft tree).1 ∉ doc.ancestors id := fun id live inner =>
    fresh (HasShape.live_of_mem_ancestors linked live _ inner)
  have attachedH := linked.isAttached_above attached (linked.mem_ancestors_host live hosted)
  have put := (setAside_graft linked tree).putAt linked (placeable_graft linked live tree hosted)
    hosted isElement attachedH (outside host (linked.live_of_isAttached attachedH)) needed
  refine ⟨⟨host, put⟩, fun id inner live => outside id live ?_⟩
  rwa [linked.ancestors_eq_of_outside put.linked (fun each liveE =>
    ⟨put.live each liveE, put.parent_kept each liveE⟩) live (outside id live)] at inner

end Document

/-! ## Insertions through handles -/

namespace Handle

variable {handle node : Handle} {placement : Document.Placement} {workspace : Workspace}

theorem run_insert_same (same : handle.document = node.document) :
    (handle.insert node placement).run workspace =
      if (workspace.tree handle.document).isAttached handle.node then
        match (workspace.tree handle.document).move handle.node node.node placement with
        | .ok changed => (.ok node, workspace.put handle.document changed)
        | .error refusal => (.error refusal, workspace)
      else (.error .gone, workspace) := by
  rw [insert, if_pos same, run_bind, run_editOnly]
  by_cases attached : (workspace.tree handle.document).isAttached handle.node = true
  · rw [if_pos attached, if_pos attached]
    cases (workspace.tree handle.document).move handle.node node.node placement <;> rfl
  · rw [if_neg attached, if_neg attached]

theorem run_insert_other (apart : handle.document ≠ node.document) :
    (handle.insert node placement).run workspace =
      if (workspace.tree node.document).isAttached node.node then
        if (workspace.tree handle.document).isAttached handle.node then
          match (workspace.tree handle.document).copyIn handle.node
            ((workspace.tree node.document).tree node.node)
            ((workspace.tree node.document).inheritedBindings node.node) placement with
          | .ok (copy, changed) =>
            (.ok (handle.sibling copy), workspace.put handle.document changed)
          | .error refusal => (.error refusal, workspace)
        else (.error .gone, workspace)
      else (.error .gone, workspace) := by
  rw [insert, if_neg apart, run_bind, readOff, run_read]
  by_cases attached : (workspace.tree node.document).isAttached node.node = true
  · rw [if_pos attached, if_pos attached]
    simp only [run_bind, run_edit]
    by_cases attached' : (workspace.tree handle.document).isAttached handle.node = true
    · rw [if_pos attached', if_pos attached']
      cases (workspace.tree handle.document).copyIn handle.node
        ((workspace.tree node.document).tree node.node)
        ((workspace.tree node.document).inheritedBindings node.node) placement <;> rfl
    · rw [if_neg attached', if_neg attached']
  · rw [if_neg attached, if_neg attached]

/-- Whether a node may be put in a place: both are part of their documents, the place is below an
element, and it is not below the node itself. -/
structure CanTake (workspace : Workspace) (handle node : Handle)
    (placement : Document.Placement) : Prop where
  valid : (workspace.tree handle.document).isAttached handle.node = true
  valid_node : (workspace.tree node.document).isAttached node.node = true
  hosted : ∃ host, (workspace.tree handle.document).host? handle.node placement = some host ∧
    ((workspace.tree handle.document).kind host).isElement = true
  outside : handle.document = node.document →
    node.node ∉ (workspace.tree handle.document).ancestors handle.node

/-- What inserting a node does to open documents: the result is in the place, with the tree of the
node, and nothing else has changed. -/
structure Inserts (workspace after : Workspace) (handle node result : Handle)
    (placement : Document.Placement) : Prop where
  document_eq : result.document = handle.document
  others_eq : after = workspace.put handle.document (after.tree handle.document)
  put : ∃ host, (workspace.tree handle.document).PutAt (after.tree handle.document) placement
    handle.node host result.node ((workspace.tree node.document).tree node.node)
  /-- A node is moved within its document and stays the same node. -/
  moved : handle.document = node.document → result = node ∧
    ∀ id, (after.tree handle.document).IsLive id ↔ (workspace.tree handle.document).IsLive id
  /-- A node is copied out of another document, and the copy is new with all that is below it. -/
  copied : handle.document ≠ node.document →
    after.tree node.document = workspace.tree node.document ∧
    ∀ id, result.node ∈ (after.tree handle.document).ancestors id →
      ¬ (workspace.tree handle.document).IsLive id

theorem inserts_of_run_eq_ok (linked : (workspace.tree handle.document).WellLinked)
    {result : Handle} {after : Workspace}
    (done : (handle.insert node placement).run workspace = (.ok result, after)) :
    Inserts workspace after handle node result placement := by
  by_cases same : handle.document = node.document
  · rw [run_insert_same same] at done
    split at done
    · rename_i attached
      split at done
      · rename_i changed moved
        cases done
        obtain ⟨⟨host, put⟩, alive⟩ := Document.putAt_of_move linked attached moved
        have final := Workspace.tree_put_self (Workspace.opened_of_isElement put.isElement) changed
        refine ⟨same.symm, by rw [final], ⟨host, ?_⟩, fun _ => ⟨rfl, ?_⟩, absurd same⟩
        · rw [final, ← same]
          exact put
        · rwa [final]
      · cases done
    · cases done
  · rw [run_insert_other same] at done
    split at done
    · split at done
      · rename_i attached
        split at done
        · rename_i copy changed copied
          cases done
          obtain ⟨⟨host, put⟩, fresh⟩ := Document.putAt_of_copyIn linked attached copied
          have final := Workspace.tree_put_self (Workspace.opened_of_isElement put.isElement) changed
          refine ⟨rfl, by rw [final], ⟨host, ?_⟩, fun equal => absurd equal same,
            fun _ => ⟨Workspace.tree_put_of_ne same changed, ?_⟩⟩
          · rwa [final]
          · rwa [final]
        · cases done
      · cases done
    · cases done

/-- An insertion is carried out if it may be, and otherwise refused without any effect. -/
theorem run_insert_cases (handle node : Handle) (placement : Document.Placement)
    (workspace : Workspace) :
    (CanTake workspace handle node placement ∧
      ∃ result after, (handle.insert node placement).run workspace = (.ok result, after)) ∨
    (¬ CanTake workspace handle node placement ∧
      ∃ refusal, (handle.insert node placement).run workspace = (.error refusal, workspace)) := by
  by_cases valid : (workspace.tree handle.document).isAttached handle.node = true
  · by_cases same : handle.document = node.document
    · rw [run_insert_same same, if_pos valid]
      cases moved : (workspace.tree handle.document).move handle.node node.node placement with
      | ok changed =>
        obtain ⟨attached, hosted, outside⟩ := (Document.move_eq_ok.mp moved).1
        exact .inl ⟨⟨valid, same ▸ attached, hosted, fun _ => outside⟩, _, _, rfl⟩
      | error refusal =>
        refine .inr ⟨fun can => ?_, refusal, rfl⟩
        have attached := can.valid_node
        rw [← same] at attached
        rw [Document.move_eq_ok.mpr ⟨⟨attached, can.hosted, can.outside same⟩, rfl⟩] at moved
        cases moved
    · rw [run_insert_other same, if_pos valid]
      by_cases attached : (workspace.tree node.document).isAttached node.node = true
      · rw [if_pos attached]
        cases copied : (workspace.tree handle.document).copyIn handle.node
          ((workspace.tree node.document).tree node.node)
          ((workspace.tree node.document).inheritedBindings node.node) placement with
        | ok result =>
          have hosted := (Document.copyIn_eq_ok.mp copied).1
          exact .inl ⟨⟨valid, attached, hosted, fun equal => absurd equal same⟩, _, _, rfl⟩
        | error refusal =>
          refine .inr ⟨fun can => ?_, refusal, rfl⟩
          rw [Document.copyIn_eq_ok.mpr ⟨can.hosted, rfl⟩] at copied
          cases copied
      · rw [if_neg attached]
        exact .inr ⟨fun can => attached can.valid_node, _, rfl⟩
  · refine .inr ⟨fun can => valid can.valid, ?_⟩
    by_cases same : handle.document = node.document
    · rw [run_insert_same same, if_neg valid]
      exact ⟨_, rfl⟩
    · rw [run_insert_other same, if_neg valid]
      exact ⟨_, ite_self _⟩

/-- An insertion that is carried out puts the node in its place and changes nothing else. It is
carried out if the node may be put there, and refused if the target is the node itself or below it.
The links of a document are in step after parsing (`IsBeginning.sound`) and after every change
(`Deed.changed`). -/
theorem insert_puts (linked : (workspace.tree handle.document).WellLinked) (node : Handle)
    (placement : Document.Placement) :
    (∀ result after, (handle.insert node placement).run workspace = (.ok result, after) →
      Inserts workspace after handle node result placement) ∧
    ((∃ result after, (handle.insert node placement).run workspace = (.ok result, after)) ↔
      CanTake workspace handle node placement) ∧
    (handle.document = node.document →
      node.node ∈ (workspace.tree handle.document).ancestors handle.node →
      ∃ refusal, (handle.insert node placement).run workspace = (.error refusal, workspace)) := by
  refine ⟨fun result after => inserts_of_run_eq_ok linked, ?_, fun same above => ?_⟩
  · rcases run_insert_cases handle node placement workspace with ⟨can, done⟩ | ⟨cannot, refused⟩
    · exact iff_of_true done can
    · obtain ⟨refusal, refused⟩ := refused
      refine iff_of_false (fun ⟨result, after, done⟩ => ?_) cannot
      rw [refused] at done
      cases done
  · rcases run_insert_cases handle node placement workspace with ⟨can, -⟩ | ⟨-, refused⟩
    · exact absurd above (can.outside same)
    · exact refused

/-- Two documents of an element with two elements in it. -/
def twins : Workspace :=
  let siblings := ((Document.empty.grow Document.root (.plainElement "a")).grow ⟨2, 0⟩
    (.plainElement "b")).grow ⟨2, 0⟩ (.plainElement "c")
  { documents := #[.ofTree siblings .xml, .ofTree siblings .xml] }

/-- The second inner element is moved before the first one. All of the other document is copied
behind the first one. What is above the first one is not moved there. -/
theorem insert_puts_twins :
    Inserts twins ((Handle.insert ⟨0, ⟨3, 0⟩⟩ ⟨0, ⟨4, 0⟩⟩ .before).effect twins) ⟨0, ⟨3, 0⟩⟩
      ⟨0, ⟨4, 0⟩⟩ ⟨0, ⟨4, 0⟩⟩ .before ∧
    Inserts twins ((Handle.insert ⟨0, ⟨3, 0⟩⟩ ⟨1, ⟨2, 0⟩⟩ .after).effect twins) ⟨0, ⟨3, 0⟩⟩
      ⟨1, ⟨2, 0⟩⟩ ⟨0, ⟨5, 0⟩⟩ .after ∧
    ∃ refusal, (Handle.insert ⟨0, ⟨3, 0⟩⟩ ⟨0, ⟨2, 0⟩⟩ .after).run twins = (.error refusal, twins) := by
  have linked : (twins.tree 0).WellLinked := by
    have outer := Document.extended_grow Document.wellLinked_empty
      Document.wellLinked_empty.root_live (.plainElement "a")
    have live := (outer.live_iff _).mpr (.inl rfl)
    have first := Document.extended_grow outer.linked live (.plainElement "b")
    exact (Document.extended_grow first.linked ((first.live_iff _).mpr (.inr live)) _).linked
  refine ⟨(insert_puts linked _ _).1 _ _ (Prod.ext (by cbv) rfl),
    (insert_puts linked _ _).1 _ _ (Prod.ext (by cbv) rfl),
    (insert_puts linked _ _).2.2 rfl (by decide)⟩

end Handle
end Markup
