import Markup.Proofs.Store.Create

/-!
# What stands below a node

Walks through everything below a node are cut off by the number of slots, and so is the depth of
its tree. In a document whose links are in step nothing is lost by that: both follow the children of
each node.
-/

namespace Markup.Document

variable {doc : Document} {id child parent other top : NodeId}

namespace WellLinked

theorem live_of_mem_children (linked : doc.WellLinked) (live : doc.IsLive id)
    (member : child ∈ doc.children id) : doc.IsLive child := (linked.child live member).1

theorem ancestors_child (linked : doc.WellLinked) (live : doc.IsLive id)
    (member : child ∈ doc.children id) : doc.ancestors child = child :: doc.ancestors id := by
  obtain ⟨liveC, above⟩ := linked.child live member
  exact HasShape.ancestors_of_parent linked liveC above

/-- The parent of a node comes second on the way up. -/
theorem parent_eq_head? (linked : doc.WellLinked) (live : doc.IsLive id) :
    doc.parent id = (doc.ancestors id).tail.head? := by
  have walk := HasShape.leads_ancestors linked live
  rw [HasShape.ancestors_eq_cons linked live] at walk
  exact walk.2.start_eq

theorem length_ancestors_lt (linked : doc.WellLinked) (live : doc.IsLive id) :
    (doc.ancestors id).length < doc.slots.size :=
  length_lt_of_live (HasShape.leads_ancestors linked live).nodup
    (Nat.zero_lt_of_lt linked.root_live.lt_size) (HasShape.live_of_mem_ancestors linked live)

/-- What holds of a node if it holds of its children holds of every live node. -/
theorem induction {motive : NodeId → Prop} (linked : doc.WellLinked)
    (step : ∀ id, doc.IsLive id → (∀ child ∈ doc.children id, motive child) → motive id) :
    ∀ id, doc.IsLive id → motive id := by
  have bounded : ∀ room id, doc.IsLive id → doc.slots.size ≤ room + (doc.ancestors id).length →
      motive id := by
    intro room
    induction room with
    | zero =>
      intro id live deep
      have short := linked.length_ancestors_lt live
      omega
    | succ room ih =>
      intro id live deep
      refine step id live fun child member => ih child (linked.live_of_mem_children live member) ?_
      rw [linked.ancestors_child live member, List.length_cons]
      omega
  exact fun id live => bounded doc.slots.size id live (by omega)

/-- What holds of nodes that hang nowhere, and of a node if it holds of the one above, holds of
every live node. -/
theorem ascent {motive : NodeId → Prop} (linked : doc.WellLinked)
    (top : ∀ id, doc.IsLive id → doc.parent id = none → motive id)
    (step : ∀ id parent, doc.IsLive id → doc.IsLive parent → doc.parent id = some parent →
      motive parent → motive id) : ∀ id, doc.IsLive id → motive id := by
  intro id live
  have walk := HasShape.leads_ancestors linked live
  generalize doc.ancestors id = path at walk
  induction path generalizing id with
  | nil => simp at walk
  | cons first rest ih =>
    obtain ⟨same, above⟩ := walk
    obtain rfl := Option.some.inj same
    cases hung : doc.parent id with
    | none => exact top id live hung
    | some parent =>
      rw [hung] at above
      have liveP := (linked.listed live hung).1
      exact step id parent live liveP hung (ih parent liveP above)

end WellLinked

/-! ## Folds over the tree of a node -/

/-- Combine what the children of a node yield, down to a depth. -/
def foldTo {α : Type} (doc : Document) (combine : NodeId → List α → α) : Nat → NodeId → α
  | 0, id => combine id []
  | depth + 1, id => combine id ((doc.children id).map (doc.foldTo combine depth))

/-- Combine what the children of a node yield. -/
def fold {α : Type} (doc : Document) (combine : NodeId → List α → α) (id : NodeId) : α :=
  doc.foldTo combine doc.slots.size id

theorem foldTo_succ {α : Type} (linked : doc.WellLinked) (combine : NodeId → List α → α) :
    ∀ depth id, doc.IsLive id → doc.slots.size ≤ depth + (doc.ancestors id).length →
      doc.foldTo combine (depth + 1) id = doc.foldTo combine depth id := by
  intro depth
  induction depth with
  | zero =>
    intro id live deep
    have short := linked.length_ancestors_lt live
    omega
  | succ depth ih =>
    intro id live deep
    rw [foldTo, foldTo]
    congr 1
    apply List.map_congr_left
    intro child member
    apply ih child (linked.live_of_mem_children live member)
    rw [linked.ancestors_child live member, List.length_cons]
    omega

/-- The depth that a fold goes down to is never reached. -/
theorem fold_eq {α : Type} (linked : doc.WellLinked) (combine : NodeId → List α → α)
    (live : doc.IsLive id) :
    doc.fold combine id = combine id ((doc.children id).map (doc.fold combine)) := by
  obtain ⟨depth, size⟩ := Nat.exists_eq_succ_of_ne_zero (Nat.ne_zero_of_lt live.lt_size)
  rw [fold, size, foldTo]
  congr 1
  apply List.map_congr_left
  intro child member
  rw [fold, size, foldTo_succ linked combine depth child (linked.live_of_mem_children live member)]
  rw [linked.ancestors_child live member, List.length_cons]
  omega

theorem tree_eq_fold : doc.tree id = doc.fold (fun id trees => .node (doc.kind id) trees) id := by
  have general : ∀ depth id,
      doc.treeTo depth id = doc.foldTo (fun id trees => .node (doc.kind id) trees) depth id := by
    intro depth
    induction depth with
    | zero => exact fun id => rfl
    | succ depth ih =>
      intro id
      rw [treeTo, foldTo, List.map_congr_left fun child _ => ih child]
  exact general _ _

/-- The tree of a node is made of the trees of its children. -/
theorem WellLinked.tree_eq (linked : doc.WellLinked) (live : doc.IsLive id) :
    doc.tree id = .node (doc.kind id) ((doc.children id).map doc.tree) := by
  have same : doc.tree = doc.fold fun id trees => .node (doc.kind id) trees :=
    funext fun _ => tree_eq_fold
  rw [same, fold_eq linked _ live]

/-- A node and everything below it, in document order. -/
def preorder (doc : Document) (id : NodeId) : List NodeId :=
  doc.fold (fun id below => id :: below.flatten) id

theorem WellLinked.preorder_eq (linked : doc.WellLinked) (live : doc.IsLive id) :
    doc.preorder id = id :: (doc.children id).flatMap doc.preorder := by
  rw [preorder, fold_eq linked _ live, List.flatMap_def]
  rfl

/-! ## The walk through everything below a node -/

/-- The node after a node and everything below it, among what stands below `top`. -/
def after (doc : Document) (top id : NodeId) : Option NodeId :=
  ((doc.ancestors id).takeWhile (· != top)).findSome? doc.nextSibling

theorem nextWithin_eq : doc.nextWithin top id = (doc.firstChild id <|> doc.after top id) := rfl

namespace WellLinked

theorem after_self (linked : doc.WellLinked) (live : doc.IsLive id) : doc.after id id = none := by
  rw [after, HasShape.ancestors_eq_cons linked live]
  simp

theorem after_child (linked : doc.WellLinked) (live : doc.IsLive parent)
    (member : child ∈ doc.children parent) (other : child ≠ top) :
    doc.after top child = (doc.nextSibling child <|> doc.after top parent) := by
  rw [after, linked.ancestors_child live member]
  simp only [List.takeWhile_cons, bne_iff_ne, ne_eq, other, not_false_eq_true, if_true,
    List.findSome?_cons]
  cases doc.nextSibling child <;> rfl

/-- Nothing stands above itself. -/
theorem ne_of_above (linked : doc.WellLinked) (live : doc.IsLive parent)
    (member : child ∈ doc.children parent) (above : top ∈ doc.ancestors parent) : child ≠ top := by
  rintro rfl
  have single :=
    (HasShape.leads_ancestors linked (linked.live_of_mem_children live member)).nodup
  rw [linked.ancestors_child live member] at single
  exact (List.nodup_cons.mp single).1 above

/-- A walk through some last children of a node, if each of them is walked through to its end. -/
private theorem leads_children (linked : doc.WellLinked) (live : doc.IsLive parent)
    (above : top ∈ doc.ancestors parent)
    (walked : ∀ child ∈ doc.children parent, ∀ rest,
      Leads (doc.nextWithin top) (doc.after top child) rest →
        Leads (doc.nextWithin top) (some child) (doc.preorder child ++ rest))
    {rest : List NodeId} (behind : Leads (doc.nextWithin top) (doc.after top parent) rest) :
    ∀ before last, doc.children parent = before ++ last →
      Leads (doc.nextWithin top) (last.head? <|> doc.after top parent)
        (last.flatMap doc.preorder ++ rest) := by
  intro before last
  induction last generalizing before with
  | nil => exact fun _ => behind
  | cons child others ih =>
    intro split
    have member : child ∈ doc.children parent := by simp [split]
    rw [List.flatMap_cons, List.append_assoc]
    apply walked child member _
    rw [linked.after_child live member (linked.ne_of_above live member above),
      (HasShape.siblings_eq linked live split).1]
    exact ih (before ++ [child]) (by simp [split])

theorem leads_preorder (linked : doc.WellLinked) (live : doc.IsLive id) :
    ∀ parent, doc.parent id = some parent → top ∈ doc.ancestors parent → ∀ rest,
      Leads (doc.nextWithin top) (doc.after top id) rest →
        Leads (doc.nextWithin top) (some id) (doc.preorder id ++ rest) := by
  refine linked.induction (motive := fun id => ∀ parent, doc.parent id = some parent →
    top ∈ doc.ancestors parent → ∀ rest, Leads (doc.nextWithin top) (doc.after top id) rest →
      Leads (doc.nextWithin top) (some id) (doc.preorder id ++ rest)) ?_ id live
  intro id live ih parent above outer rest behind
  rw [linked.preorder_eq live]
  refine ⟨rfl, ?_⟩
  have above' : top ∈ doc.ancestors id := by
    rw [HasShape.ancestors_of_parent linked live above]
    exact List.mem_cons_of_mem _ outer
  rw [nextWithin_eq, HasShape.firstChild_eq linked live]
  refine linked.leads_children live above' (fun child member rest => ?_) behind []
    (doc.children id) rfl
  exact ih child member id (linked.child live member).2 above' rest

/-- Everything below a node is walked through, child by child. -/
theorem leads_descendants (linked : doc.WellLinked) (live : doc.IsLive id) :
    Leads (doc.nextWithin id) (doc.firstChild id) ((doc.children id).flatMap doc.preorder) := by
  have above := HasShape.mem_ancestors_self linked live
  have behind : Leads (doc.nextWithin id) (doc.after id id) [] := linked.after_self live
  have walk := linked.leads_children live above (fun child member rest behind =>
    linked.leads_preorder (linked.live_of_mem_children live member) id (linked.child live member).2
      above rest behind) behind [] (doc.children id) rfl
  rw [linked.after_self live, List.append_nil] at walk
  rw [HasShape.firstChild_eq linked live]
  simpa using walk

/-! ## What is met -/

theorem ancestors_subset (linked : doc.WellLinked) (live : doc.IsLive id)
    (above : other ∈ doc.ancestors id) : doc.ancestors other ⊆ doc.ancestors id := by
  have liveO := HasShape.live_of_mem_ancestors linked live other above
  have walk := HasShape.leads_ancestors linked live
  obtain ⟨inner, outer, path⟩ := List.append_of_mem above
  rw [path] at walk ⊢
  rw [HasShape.ancestors_eq_of_leads linked liveO walk.drop]
  exact List.subset_append_right inner _

/-- A node is met below another one exactly if that one is met on the way up. -/
theorem mem_preorder_iff (linked : doc.WellLinked) (live : doc.IsLive id) :
    other ∈ doc.preorder id ↔ doc.IsLive other ∧ id ∈ doc.ancestors other := by
  constructor
  · refine linked.induction (motive := fun id =>
      other ∈ doc.preorder id → doc.IsLive other ∧ id ∈ doc.ancestors other) ?_ id live
    intro id live ih met
    rw [linked.preorder_eq live] at met
    rcases List.mem_cons.mp met with rfl | met
    · exact ⟨live, HasShape.mem_ancestors_self linked live⟩
    · obtain ⟨child, member, inner⟩ := List.mem_flatMap.mp met
      obtain ⟨liveO, above⟩ := ih child member inner
      refine ⟨liveO, linked.ancestors_subset liveO above ?_⟩
      rw [linked.ancestors_child live member]
      exact List.mem_cons_of_mem _
        (HasShape.mem_ancestors_self linked live)
  · rintro ⟨liveO, above⟩
    -- Going up from `other`, every node on the way has its children below `id`.
    have closed : ∀ id, doc.IsLive id → ∀ parent ∈ doc.preorder id, doc.IsLive parent →
        ∀ child ∈ doc.children parent, child ∈ doc.preorder id := by
      refine linked.induction ?_
      intro id live ih parent met liveP child member
      rw [linked.preorder_eq live] at met ⊢
      rcases List.mem_cons.mp met with rfl | met
      · refine List.mem_cons_of_mem _ (List.mem_flatMap.mpr ⟨child, member, ?_⟩)
        rw [linked.preorder_eq (linked.live_of_mem_children live member)]
        exact List.mem_cons_self
      · obtain ⟨middle, listed, inner⟩ := List.mem_flatMap.mp met
        exact List.mem_cons_of_mem _
          (List.mem_flatMap.mpr ⟨middle, listed, ih middle listed parent inner liveP child member⟩)
    have self : id ∈ doc.preorder id := by
      rw [linked.preorder_eq live]
      exact List.mem_cons_self
    refine linked.ascent (motive := fun other =>
      id ∈ doc.ancestors other → other ∈ doc.preorder id) ?_ ?_ other liveO above
    · intro other liveO top above
      rw [HasShape.ancestors_of_top linked liveO top] at above
      obtain rfl := List.mem_singleton.mp above
      exact self
    · intro other parent liveO liveP hung ih above
      rw [HasShape.ancestors_of_parent linked liveO hung] at above
      rcases List.mem_cons.mp above with rfl | above
      · exact self
      · exact closed id live parent (ih above) liveP other (linked.listed liveO hung).2

theorem live_of_mem_preorder (linked : doc.WellLinked) (live : doc.IsLive id)
    (met : other ∈ doc.preorder id) : doc.IsLive other := ((linked.mem_preorder_iff live).mp met).1

/-- The walk through everything below a node is not cut off. -/
theorem descendants_eq (linked : doc.WellLinked) (live : doc.IsLive id) :
    doc.descendants id = (doc.children id).flatMap doc.preorder := by
  apply HasShape.along_eq linked (linked.leads_descendants live)
  intro other met
  apply linked.live_of_mem_preorder live
  rw [linked.preorder_eq live]
  exact List.mem_cons_of_mem _ met

theorem preorder_eq_cons (linked : doc.WellLinked) (live : doc.IsLive id) :
    doc.preorder id = id :: doc.descendants id := by
  rw [linked.preorder_eq live, linked.descendants_eq live]

theorem preorder_nodup (linked : doc.WellLinked) (live : doc.IsLive id) :
    (doc.preorder id).Nodup := by
  rw [linked.preorder_eq live]
  refine List.nodup_cons.mpr ⟨fun met => ?_, (linked.leads_descendants live).nodup⟩
  obtain ⟨child, member, inner⟩ := List.mem_flatMap.mp met
  have above := ((linked.mem_preorder_iff (linked.live_of_mem_children live member)).mp inner).2
  exact linked.ne_of_above live member above rfl

theorem order_eq (linked : doc.WellLinked) : doc.order = doc.preorder root :=
  (linked.preorder_eq_cons linked.root_live).symm

/-- The way up ends at the document node or at a node that hangs nowhere. -/
theorem getLast?_ancestors (linked : doc.WellLinked) (live : doc.IsLive id) :
    (doc.ancestors id).getLast? = some root ↔ root ∈ doc.ancestors id := by
  refine ⟨List.mem_of_getLast?, fun above => ?_⟩
  obtain ⟨inner, outer, path⟩ := List.append_of_mem above
  have walk := HasShape.leads_ancestors linked live
  rw [path] at walk ⊢
  have ends := walk.next_eq
  rw [linked.root_top] at ends
  obtain rfl : outer = [] := List.head?_eq_none_iff.mp ends.symm
  simp

/-- The nodes that are part of the tree are the live ones below the document node. -/
theorem isAttached_iff (linked : doc.WellLinked) :
    doc.isAttached id = true ↔ doc.IsLive id ∧ root ∈ doc.ancestors id := by
  rw [isAttached]
  constructor
  · intro attached
    simp only [Bool.and_eq_true, Bool.not_eq_true', beq_iff_eq] at attached
    have numbered : 0 < id.index := by
      apply Nat.pos_of_ne_zero
      intro zero
      have unused : doc.parent id = none := by
        rw [← linked.unused_top, parent, parent, slot, slot, zero]
      have path : doc.ancestors id = [id] := by
        have walk : Leads doc.parent (some id) [id] := ⟨rfl, unused⟩
        exact walk.walk_eq (Nat.zero_lt_of_lt linked.root_live.lt_size)
      have last := attached.2
      rw [path, List.getLast?_singleton, Option.some.injEq] at last
      simp [last, root] at zero
    have live : doc.IsLive id := ⟨numbered, attached.1.1, attached.1.2⟩
    exact ⟨live, (linked.getLast?_ancestors live).mp attached.2⟩
  · rintro ⟨live, above⟩
    simp [live.current, live.kept, (linked.getLast?_ancestors live).mpr above]

theorem isAttached_of_hung (linked : doc.WellLinked) (live : doc.IsLive id)
    (hung : doc.parent id = some root) : doc.isAttached id = true := by
  rw [linked.isAttached_iff, HasShape.ancestors_of_parent linked live hung]
  exact ⟨live, List.mem_cons_of_mem _ (HasShape.mem_ancestors_self linked linked.root_live)⟩

/-- What stands above a node of the tree is a node of the tree. -/
theorem isAttached_above (linked : doc.WellLinked) (attached : doc.isAttached id = true)
    (above : other ∈ doc.ancestors id) : doc.isAttached other = true := by
  obtain ⟨live, hangs⟩ := linked.isAttached_iff.mp attached
  have liveO := HasShape.live_of_mem_ancestors linked live other above
  have last := (linked.getLast?_ancestors live).mpr hangs
  have walk := HasShape.leads_ancestors linked live
  obtain ⟨inner, outer, split⟩ := List.append_of_mem above
  rw [split] at walk last
  rw [List.getLast?_append_cons] at last
  rw [linked.isAttached_iff, HasShape.ancestors_eq_of_leads linked liveO walk.drop]
  exact ⟨liveO, List.mem_of_getLast? last⟩

theorem isAttached_below (linked : doc.WellLinked) (live : doc.IsLive id)
    (above : top ∈ doc.ancestors id) (attached : doc.isAttached top = true) :
    doc.isAttached id = true := by
  have hangs := (linked.isAttached_iff.mp attached).2
  exact linked.isAttached_iff.mpr ⟨live, linked.ancestors_subset live above hangs⟩

/-- The nodes in document order are those that are part of the tree. -/
theorem mem_order_iff (linked : doc.WellLinked) :
    id ∈ doc.order ↔ doc.isAttached id = true := by
  rw [linked.order_eq, linked.mem_preorder_iff linked.root_live, linked.isAttached_iff]

theorem isAttached_root (linked : doc.WellLinked) : doc.isAttached root = true := by
  rw [← linked.mem_order_iff, order]
  exact List.mem_cons_self

theorem live_of_isAttached (linked : doc.WellLinked) (attached : doc.isAttached id = true) :
    doc.IsLive id := (linked.isAttached_iff.mp attached).1

theorem isAttached_child (linked : doc.WellLinked) (attached : doc.isAttached id = true)
    (member : other ∈ doc.children id) : doc.isAttached other = true := by
  have live := linked.live_of_isAttached attached
  refine linked.isAttached_below (linked.live_of_mem_children live member) ?_ attached
  rw [linked.ancestors_child live member]
  exact List.mem_cons_of_mem _ (HasShape.mem_ancestors_self linked live)

theorem isAttached_parent (linked : doc.WellLinked) (attached : doc.isAttached id = true)
    (above : doc.parent id = some other) : doc.isAttached other = true := by
  have live := linked.live_of_isAttached attached
  apply linked.isAttached_above attached
  rw [HasShape.ancestors_of_parent linked live above]
  exact List.mem_cons_of_mem _
    (HasShape.mem_ancestors_self linked (linked.listed live above).1)

end WellLinked

end Markup.Document
