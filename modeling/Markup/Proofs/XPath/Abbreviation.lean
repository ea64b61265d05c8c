import Mathlib
import Markup.Proofs.Store.Containers
import Markup.Proofs.XPath.Accepted
import Markup.Proofs.XPath.Evaluate

/-!
# The abbreviation for descendants

Two slashes stand for a step to a node and everything below it, after which a step to children
follows. Together they lead to the descendants: each of them is a child of a node on the way, unless
that is a document type, which no test selects. Nothing stands below a document type in a document
that was parsed, whatever is done to it through handles (`Workspace.onlyContainersHold_afterDeeds`).
-/

namespace Markup

/-! ## What stands below a node -/

namespace Document

variable {doc : Document} {id child : NodeId}

/-- What stands below a node is the children of the node and of what stands below it. -/
theorem WellLinked.mem_descendants_iff (linked : doc.WellLinked) (live : doc.IsLive id) :
    child ∈ doc.descendants id ↔ ∃ parent ∈ doc.preorder id, child ∈ doc.children parent := by
  have single := linked.preorder_nodup live
  rw [linked.preorder_eq_cons live] at single
  constructor
  · intro below
    have met : child ∈ doc.preorder id := by
      rw [linked.preorder_eq_cons live]
      exact List.mem_cons_of_mem _ below
    obtain ⟨liveC, above⟩ := (linked.mem_preorder_iff live).mp met
    cases hung : doc.parent child with
    | none =>
      rw [HasShape.ancestors_of_top linked liveC hung] at above
      obtain rfl := List.mem_singleton.mp above
      exact absurd below (List.nodup_cons.mp single).1
    | some parent =>
      obtain ⟨liveP, listed⟩ := linked.listed liveC hung
      rw [HasShape.ancestors_of_parent linked liveC hung] at above
      rcases List.mem_cons.mp above with rfl | above
      · exact absurd below (List.nodup_cons.mp single).1
      · exact ⟨parent, (linked.mem_preorder_iff live).mpr ⟨liveP, above⟩, listed⟩
  · rintro ⟨parent, met, listed⟩
    obtain ⟨liveP, above⟩ := (linked.mem_preorder_iff live).mp met
    have met' : child ∈ doc.preorder id := by
      rw [linked.mem_preorder_iff live, linked.ancestors_child liveP listed]
      exact ⟨linked.live_of_mem_children liveP listed, List.mem_cons_of_mem _ above⟩
    rw [linked.preorder_eq_cons live] at met'
    exact (List.mem_cons.mp met').resolve_left (linked.ne_of_above liveP listed above)

end Document

namespace XPath

open Document

section Members

variable {doc : Document} {values : List (String × Value)} {axis : Axis} {test : NodeTest}
  {nodes found left right : List Node} {id other : NodeId} {node : Node}

/-! ## Lists in document order -/

/-- Two lists in document order with the same members are one list. -/
theorem InOrder.eq_of_mem_iff (ordered : InOrder doc left) (ordered' : InOrder doc right)
    (same : ∀ node, node ∈ left ↔ node ∈ right) : left = right := by
  have shuffled : left.Perm right :=
    (List.perm_ext_iff_of_nodup ordered.nodup ordered'.nodup).mpr same
  refine shuffled.eq_of_pairwise (fun a b _ _ before after => ?_) ordered.increasing
    ordered'.increasing
  rw [Node.Precedes] at before after
  omega

theorem mem_withoutRepeats : node ∈ withoutRepeats nodes ↔ node ∈ nodes := by
  refine ⟨fun member => withoutRepeats_subset nodes member, fun member => ?_⟩
  fun_induction withoutRepeats nodes with
  | case1 => exact member
  | case2 => exact member
  | case3 second rest ih =>
    rcases List.mem_cons.mp member with rfl | member
    · exact ih List.mem_cons_self
    · exact ih member
  | case4 first second rest other ih =>
    rcases List.mem_cons.mp member with rfl | member
    · exact List.mem_cons_self
    · exact List.mem_cons_of_mem _ (ih member)

theorem mem_arrange {ranks : Ranks} : node ∈ ranks.arrange nodes ↔ node ∈ nodes := by
  rw [Ranks.arrange, mem_withoutRepeats, List.mem_mergeSort]

theorem mem_collect {ranks : Ranks} {lists : List (List Node)} :
    node ∈ collect ranks axis lists ↔ ∃ list ∈ lists, node ∈ list := by
  rcases lists with _ | ⟨first, _ | ⟨second, rest⟩⟩
  · simp [collect]
  · rw [collect]
    split <;> simp
  · have several : collect ranks axis (first :: second :: rest) =
        ranks.arrange (first :: second :: rest).flatten := rfl
    simp only [several, mem_arrange, List.mem_flatten]

/-! ## Steps without predicates -/

/-- A step without predicates fails nowhere. -/
theorem take_plain {scope : Scope} : (Step.to axis test []).take scope nodes =
    .ok (collect scope.ranks axis (nodes.map (candidates scope.doc axis test))) := by
  have all : nodes.mapM (fun node => keepAll scope [] (candidates scope.doc axis test node)) =
      Except.ok (nodes.map (candidates scope.doc axis test)) := by
    induction nodes with
    | nil => rfl
    | cons node rest ih =>
      rw [List.mapM_cons, ih, keepAll]
      rfl
  rw [Step.take, all]
  rfl

theorem mem_of_take (taken : (Step.to axis test []).take (.of doc values) nodes = .ok found) :
    node ∈ found ↔ ∃ start ∈ nodes, node ∈ candidates doc axis test start := by
  rw [take_plain] at taken
  cases taken
  simp [mem_collect, Scope.of]

end Members

variable {doc : Document} {values : List (String × Value)} {scope : Scope} {test : NodeTest}
  {nodes : List Node} {id : NodeId} {node : Node} {bindings : Bindings} {tree : Expr}
  {ts us : List Token} {focus : Focus}

/-! ## Steps -/

theorem accepts_descendant :
    test.accepts doc .descendant node = test.accepts doc .child node := by
  cases node with
  | tree id =>
    rw [NodeTest.accepts, NodeTest.accepts]
    cases doc.kind id <;> cases test <;> rfl
  | attr owner index =>
    rw [NodeTest.accepts, NodeTest.accepts]
    cases test <;> rfl

/-- Where a parent is selected, it is no document type. -/
theorem accepts_anyNode_of_child (leaves : doc.TypesAreLeaves) (attached : doc.isAttached id = true)
    {child : NodeId} (listed : child ∈ doc.children id) :
    NodeTest.anyNode.accepts doc .descendantOrSelf (.tree id) = true := by
  rw [NodeTest.accepts]
  cases kind : doc.kind id with
  | doctype name publicId systemId =>
    rw [leaves id name publicId systemId attached kind] at listed
    cases listed
  | _ => rfl

/-- The children of a node and of what stands below it are what stands below the node. -/
theorem mem_candidates_descendant (linked : doc.WellLinked) (leaves : doc.TypesAreLeaves)
    {start : Node} (present : start.IsPresent doc) :
    node ∈ candidates doc .descendant test start ↔
      ∃ middle ∈ candidates doc .descendantOrSelf .anyNode start,
        node ∈ candidates doc .child test middle := by
  cases start with
  | attr owner index =>
    constructor
    · intro member
      simp [candidates, Axis.nodes] at member
    · rintro ⟨middle, member, -⟩
      simp [candidates, Axis.nodes] at member
  | tree id =>
    have live := linked.live_of_isAttached present
    constructor
    · intro member
      obtain ⟨inside, accepted⟩ := List.mem_filter.mp member
      obtain ⟨child, below, rfl⟩ := List.mem_map.mp inside
      obtain ⟨parent, met, listed⟩ := (linked.mem_descendants_iff live).mp below
      obtain ⟨liveP, above⟩ := (linked.mem_preorder_iff live).mp met
      refine ⟨.tree parent, List.mem_filter.mpr ⟨?_, ?_⟩, List.mem_filter.mpr ⟨?_, ?_⟩⟩
      · exact List.mem_map_of_mem (subtree_eq linked live ▸ met)
      · exact accepts_anyNode_of_child leaves (linked.isAttached_below liveP above present) listed
      · exact List.mem_map_of_mem listed
      · exact accepts_descendant.symm.trans accepted
    · rintro ⟨middle, member, member'⟩
      obtain ⟨inside, -⟩ := List.mem_filter.mp member
      obtain ⟨parent, met, rfl⟩ := List.mem_map.mp inside
      obtain ⟨inside', accepted⟩ := List.mem_filter.mp member'
      obtain ⟨child, listed, rfl⟩ := List.mem_map.mp inside'
      rw [subtree_eq linked live] at met
      refine List.mem_filter.mpr ⟨List.mem_map_of_mem ?_, accepts_descendant.trans accepted⟩
      exact (linked.mem_descendants_iff live).mpr ⟨parent, met, listed⟩

/-- The two steps that the abbreviation stands for lead to the same nodes as the one along the
descendants. -/
theorem follow_anywhere (linked : doc.WellLinked) (leaves : doc.TypesAreLeaves)
    (present : ∀ node ∈ nodes, node.IsPresent doc) :
    follow (.of doc values) [.anywhere, .to .child test []] nodes =
      follow (.of doc values) [.to .descendant test []] nodes := by
  obtain ⟨middles, first⟩ : ∃ found, Step.anywhere.take (.of doc values) nodes = .ok found :=
    ⟨_, take_plain⟩
  obtain ⟨left, second⟩ : ∃ found, (Step.to .child test []).take (.of doc values) middles =
      .ok found := ⟨_, take_plain⟩
  obtain ⟨right, direct⟩ : ∃ found, (Step.to .descendant test []).take (.of doc values) nodes =
      .ok found := ⟨_, take_plain⟩
  have present' := (inOrder_take linked _ present first).present
  have same : left = right := by
    refine (inOrder_take linked _ present' second).eq_of_mem_iff
      (inOrder_take linked _ present direct) fun node => ?_
    rw [mem_of_take second, mem_of_take direct]
    constructor
    · rintro ⟨middle, member, found⟩
      obtain ⟨start, listed, member⟩ := (mem_of_take first).mp member
      exact ⟨start, listed, (mem_candidates_descendant linked leaves (present start listed)).mpr
        ⟨middle, member, found⟩⟩
    · rintro ⟨start, listed, found⟩
      obtain ⟨middle, member, found⟩ :=
        (mem_candidates_descendant linked leaves (present start listed)).mp found
      exact ⟨middle, (mem_of_take first).mpr ⟨start, listed, member⟩, found⟩
  simp only [follow, first, second, direct, same, bind, Except.bind]

/-! ## Paths that go on -/

theorem follow_append (steps more : List Step) (nodes : List Node) :
    follow scope (steps ++ more) nodes = follow scope steps nodes >>= follow scope more := by
  induction steps generalizing nodes with
  | nil => rw [List.nil_append, follow]; rfl
  | cons step rest ih =>
    rw [List.cons_append, follow, follow, bind_assoc]
    exact bind_congr_ok fun middle _ => ih middle

/-- The value of a path that goes on from what an expression selects. -/
def goOn (scope : Scope) (value : Except Fault Value) (more : List Step) : Except Fault Value := do
  let found ← (← value).asNodes
  return .nodes (← follow scope more found)

theorem goOn_goOn (value : Except Fault Value) (steps more : List Step) :
    goOn scope (goOn scope value steps) more = goOn scope value (steps ++ more) := by
  rw [goOn, goOn, goOn, bind_assoc]
  refine bind_congr_ok fun value _ => ?_
  cases value.asNodes with
  | error failure => rfl
  | ok found =>
    show (follow scope steps found >>= _) >>= _ = follow scope (steps ++ more) found >>= _
    rw [follow_append]
    cases follow scope steps found <;> rfl

theorem eval_path (steps : List Step) (focus : Focus) :
    (Expr.path steps).eval scope focus = goOn scope (.ok (.nodes [focus.node])) steps := by
  rw [Expr.eval]
  rfl

theorem eval_rootPath (steps : List Step) (focus : Focus) :
    (Expr.rootPath steps).eval scope focus = goOn scope (.ok (.nodes [.tree root])) steps := by
  rw [Expr.eval]
  rfl

theorem eval_pathFrom (base : Expr) (steps : List Step) (focus : Focus) :
    (Expr.pathFrom base steps).eval scope focus = goOn scope (base.eval scope focus) steps := by
  rw [Expr.eval, goOn]

/-- A path other than a slash alone can go on with a step, after one slash or after two. -/
theorem exists_continued (path : Derives bindings (.path tree) ts)
    (more : ts ≠ [.symbol .slash]) : ∃ continued : List Step → Expr,
      (∀ step us, Derives bindings (.step step) us →
        Derives bindings (.path (continued [step])) (ts ++ .symbol .slash :: us) ∧
        Derives bindings (.path (continued [.anywhere, step]))
          (ts ++ .symbol .doubleSlash :: us)) ∧
      ∀ scope steps focus,
        (continued steps).eval scope focus = goOn scope (tree.eval scope focus) steps := by
  cases path with
  | location only =>
    cases only with
    | root => exact absurd rfl more
    | @fromRoot steps ts before =>
      refine ⟨fun more => .rootPath (steps ++ more), fun step us last => ⟨?_, ?_⟩,
        fun scope more focus => ?_⟩
      · exact .location (.fromRoot (.nextStep before last))
      · exact .location (.fromRoot (.anywhereStep before last))
      · rw [eval_rootPath, eval_rootPath, goOn_goOn]
    | @anywhere steps ts before =>
      refine ⟨fun more => .rootPath (.anywhere :: (steps ++ more)), fun step us last => ⟨?_, ?_⟩,
        fun scope more focus => ?_⟩
      · exact .location (.anywhere (.nextStep before last))
      · exact .location (.anywhere (.anywhereStep before last))
      · rw [eval_rootPath, eval_rootPath, goOn_goOn, List.cons_append]
    | @relative steps ts before =>
      refine ⟨fun more => .path (steps ++ more), fun step us last => ⟨?_, ?_⟩,
        fun scope more focus => ?_⟩
      · exact .location (.relative (.nextStep before last))
      · exact .location (.relative (.anywhereStep before last))
      · rw [eval_path, eval_path, goOn_goOn]
  | filtered only =>
    refine ⟨fun more => .pathFrom tree more, fun step us last => ⟨?_, ?_⟩,
      fun scope more focus => ?_⟩
    · exact .pathFrom only (.firstStep last)
    · exact .anywhereFrom only (.firstStep last)
    · exact eval_pathFrom tree more focus
  | @pathFrom base steps ts us start before =>
    refine ⟨fun more => .pathFrom base (steps ++ more), fun step vs last => ⟨?_, ?_⟩,
      fun scope more focus => ?_⟩
    · rw [List.append_assoc]
      exact .pathFrom start (.nextStep before last)
    · rw [List.append_assoc]
      exact .pathFrom start (.anywhereStep before last)
    · rw [eval_pathFrom, eval_pathFrom, goOn_goOn]
  | @anywhereFrom base steps ts us start before =>
    refine ⟨fun more => .pathFrom base (.anywhere :: (steps ++ more)), fun step vs last => ⟨?_, ?_⟩,
      fun scope more focus => ?_⟩
    · rw [List.append_assoc]
      exact .anywhereFrom start (.nextStep before last)
    · rw [List.append_assoc]
      exact .anywhereFrom start (.anywhereStep before last)
    · rw [eval_pathFrom, eval_pathFrom, goOn_goOn, List.cons_append]

/-! ## Whole expressions -/

/-- Paths that are united are an expression. -/
theorem Derives.expr_of_union (united : Derives bindings (.union tree) ts) :
    Derives bindings (.expr tree) ts := by
  have multiplicative : Derives bindings (.layer .multiplicative tree) ts :=
    .operand (.unsigned united)
  have additive : Derives bindings (.layer .additive tree) ts := .operand multiplicative
  have relational : Derives bindings (.layer .relational tree) ts := .operand additive
  have equality : Derives bindings (.layer .equality tree) ts := .operand relational
  have and : Derives bindings (.layer .and tree) ts := .operand equality
  exact .operand and

/-- A path is an expression. -/
theorem Derives.expr_of_path (path : Derives bindings (.path tree) ts) :
    Derives bindings (.expr tree) ts :=
  expr_of_union (.single path)

/-- A text whose tokens are derived is read as what they are derived as, unless it is nested too
deeply. -/
theorem ofText_of_derives {text : String} {found : List (Token × Nat)}
    (lexed : tokens text = .ok found)
    (shallow : ∀ position, Expr.ofText bindings text ≠ .error (.badSyntax .tooDeep position))
    (derived : Derives bindings (.expr tree) (found.map (·.1))) :
    Expr.ofText bindings text = .ok tree := by
  have nonempty : found.isEmpty = false := by
    obtain ⟨first, rest, spelled, -⟩ := derived.begins
    cases found with
    | nil => cases spelled
    | cons => rfl
  have read : Parser.Yields (Parser.expression bindings maxDepth) (found.map (·.1) ++ []) tree [] :=
    yields_expression (fun room => derived.isRead room []) nofun
  rw [ofText_eq lexed, nonempty, if_neg (by decide)] at shallow ⊢
  rcases read ⟨found, text.utf8ByteSize, 0⟩ (List.append_nil _).symm with
    ⟨position, deep⟩ | ⟨rest, done, nothing⟩
  · rw [deep] at shallow
    exact absurd rfl (shallow position)
  · simp only [done, bind, Except.bind, List.map_eq_nil_iff.mp nothing]

theorem derives_child (tested : Derives bindings (.test test) us) :
    Derives bindings (.step (.to .child test [])) us := by
  have step : Derives bindings (.step (.to .child test [])) ([] ++ us ++ []) :=
    .step .child tested .noPredicate
  rwa [List.nil_append, List.append_nil] at step

theorem derives_descendant (tested : Derives bindings (.test test) us) :
    Derives bindings (.step (.to .descendant test []))
      (.axis ⟨none, "descendant"⟩ :: .symbol .doubleColon :: us) := by
  have step : Derives bindings (.step (.to .descendant test []))
      ([.axis ⟨none, "descendant"⟩, .symbol .doubleColon] ++ us ++ []) :=
    .step (.axis rfl) tested .noPredicate
  rwa [List.append_nil] at step

/-- What comes before the slashes: nothing, or a path other than a slash alone. -/
def IsStart (bindings : Bindings) (ts : List Token) : Prop :=
  ts = [] ∨ ∃ tree, Derives bindings (.path tree) ts ∧ ts ≠ [.symbol .slash]

/-- Two slashes before a test and the axis of descendants after one slash are derived as paths that
go on from the same value. -/
theorem IsStart.exists_derived (start : IsStart bindings ts)
    (tested : Derives bindings (.test test) us) :
    ∃ left right, Derives bindings (.path left) (ts ++ .symbol .doubleSlash :: us) ∧
      Derives bindings (.path right)
        (ts ++ .symbol .slash :: .axis ⟨none, "descendant"⟩ :: .symbol .doubleColon :: us) ∧
      ∀ scope focus, ∃ value,
        (value = .ok (.nodes [.tree root]) ∨ ∃ tree : Expr, value = tree.eval scope focus) ∧
        left.eval scope focus = goOn scope value [.anywhere, .to .child test []] ∧
        right.eval scope focus = goOn scope value [.to .descendant test []] := by
  rcases start with rfl | ⟨tree, path, more⟩
  · refine ⟨_, _, .location (.anywhere (.firstStep (derives_child tested))),
      .location (.fromRoot (.firstStep (derives_descendant tested))), fun scope focus => ?_⟩
    exact ⟨_, .inl rfl, eval_rootPath _ _, eval_rootPath _ _⟩
  · obtain ⟨continued, derived, evaluated⟩ := exists_continued path more
    refine ⟨_, _, (derived _ _ (derives_child tested)).2,
      (derived _ _ (derives_descendant tested)).1, fun scope focus => ?_⟩
    exact ⟨_, .inr ⟨tree, rfl⟩, evaluated scope _ focus, evaluated scope _ focus⟩

/-- A document with a document type and three elements, one inside the other. -/
def typedSample : Document :=
  (((Document.empty.grow root (.doctype "a" none none)).grow root (.plainElement "a")).grow ⟨3, 0⟩
    (.plainElement "b")).grow ⟨4, 0⟩ (.plainElement "b")

theorem sound_typedSample : typedSample.WellLinked ∧ typedSample.TypesAreLeaves := by
  have type := extended_grow wellLinked_empty wellLinked_empty.root_live (.doctype "a" none none)
  have outer := extended_grow type.linked type.linked.root_live (.plainElement "a")
  have liveO := (outer.live_iff ⟨3, 0⟩).mpr (.inl rfl)
  have inner := extended_grow outer.linked liveO (.plainElement "b")
  have liveI := (inner.live_iff ⟨4, 0⟩).mpr (.inl rfl)
  refine ⟨(extended_grow inner.linked liveI (.plainElement "b")).linked, ?_⟩
  have held := (onlyContainersHold_empty.grow wellLinked_empty wellLinked_empty.root_live rfl
    (.doctype "a" none none)).grow type.linked type.linked.root_live rfl (.plainElement "a")
  exact ((held.grow outer.linked liveO rfl (.plainElement "b")).grow inner.linked liveI rfl
    (.plainElement "b")).typesAreLeaves

end XPath
end Markup
