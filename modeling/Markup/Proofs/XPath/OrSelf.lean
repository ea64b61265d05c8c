import Mathlib
import Markup.Proofs.XPath.Abbreviation

/-!
# The axes that lead to a node itself

From a node of the tree, two axes lead to the node itself and to what another axis leads to: what is
below the node, or what is above it. So does the one that leads up from an attribute. But the one
that leads down from an attribute leads nowhere, not even to the attribute.
-/

namespace Markup.XPath

open Document

variable {doc : Document} {values : List (String × Value)} {axis : Axis} {start node : Node}
  {nodes found : List Node} {bindings : Bindings} {tree : Expr} {ts : List Token} {focus : Focus}

/-! ## Candidates -/

/-- Any node is selected on one axis exactly if it is on another. -/
theorem accepts_anyNode_congr (axis axis' : Axis) :
    NodeTest.anyNode.accepts doc axis node = NodeTest.anyNode.accepts doc axis' node := by
  cases node with
  | tree id =>
    rw [NodeTest.accepts, NodeTest.accepts]
    cases doc.kind id <;> rfl
  | attr owner index => rfl

theorem mem_candidates_anyNode :
    node ∈ candidates doc axis .anyNode start ↔
      node ∈ axis.nodes doc start ∧ NodeTest.anyNode.accepts doc .self node = true := by
  rw [candidates, List.mem_filter, accepts_anyNode_congr axis .self]

theorem mem_candidates_ancestorOrSelf (linked : doc.WellLinked) (present : start.IsPresent doc) :
    node ∈ candidates doc .ancestorOrSelf .anyNode start ↔
      node ∈ candidates doc .self .anyNode start ∨
        node ∈ candidates doc .ancestor .anyNode start := by
  have whole : Axis.ancestorOrSelf.nodes doc start =
      Axis.self.nodes doc start ++ Axis.ancestor.nodes doc start := by
    cases start with
    | tree id =>
      have above := HasShape.ancestors_eq_cons linked (linked.live_of_isAttached present)
      exact congrArg (List.map Node.tree) above
    | attr owner index => rfl
  simp only [mem_candidates_anyNode, whole, List.mem_append, or_and_right]

/-- What the axis leads down to is the nodes of the tree among the node itself and what is below
it. -/
theorem mem_candidates_descendantOrSelf :
    node ∈ candidates doc .descendantOrSelf .anyNode start ↔
      (node ∈ candidates doc .self .anyNode start ∨
        node ∈ candidates doc .descendant .anyNode start) ∧ node.tree?.isSome = true := by
  cases start with
  | tree id =>
    have inside : ∀ node ∈ Axis.descendantOrSelf.nodes doc (.tree id),
        node.tree?.isSome = true := by
      intro node member
      obtain ⟨below, -, rfl⟩ := List.mem_map.mp member
      rfl
    have whole : Axis.descendantOrSelf.nodes doc (.tree id) =
        Axis.self.nodes doc (.tree id) ++ Axis.descendant.nodes doc (.tree id) := rfl
    simp only [mem_candidates_anyNode, ← or_and_right, ← List.mem_append, ← whole]
    exact ⟨fun member => ⟨member, inside node member.1⟩, And.left⟩
  | attr owner index =>
    simp only [mem_candidates_anyNode, Axis.nodes, List.not_mem_nil, false_and, or_false,
      List.mem_singleton, false_iff]
    rintro ⟨⟨rfl, -⟩, inTree⟩
    exact absurd inTree Bool.false_ne_true

/-- Only from an attribute is the node itself, or what is below it, no node of the tree. -/
theorem tree?_isSome_of_candidate (inTree : start.tree?.isSome = true)
    (found : node ∈ candidates doc .self .anyNode start ∨
      node ∈ candidates doc .descendant .anyNode start) : node.tree?.isSome = true := by
  cases start with
  | attr owner index => exact absurd inTree Bool.false_ne_true
  | tree id =>
    rw [mem_candidates_anyNode, mem_candidates_anyNode] at found
    rcases found with ⟨member, -⟩ | ⟨member, -⟩
    · exact List.mem_singleton.mp member ▸ rfl
    · obtain ⟨below, -, rfl⟩ := List.mem_map.mp member
      rfl

theorem mem_candidates_self_attr {owner : NodeId} {index : Nat}
    (present : Node.IsPresent doc (.attr owner index)) :
    .attr owner index ∈ candidates doc .self .anyNode (.attr owner index) := by
  refine mem_candidates_anyNode.mpr ⟨List.mem_singleton_self _, ?_⟩
  rw [NodeTest.accepts, List.getElem?_eq_getElem present.2]
  rfl

/-! ## Steps to any node -/

/-- A step along an axis to any node. -/
def Axis.toAny (axis : Axis) : Step := .to axis .anyNode []

/-- A slash, and a step along an axis to any node. -/
def Axis.slashAny (axis : Axis) : List Token :=
  [.symbol .slash, .axis ⟨none, axis.name⟩, .symbol .doubleColon, .nodeType .node,
    .symbol .leftParen, .symbol .rightParen]

theorem derives_toAny (axis : Axis) :
    Derives bindings (.step axis.toAny)
      [.axis ⟨none, axis.name⟩, .symbol .doubleColon, .nodeType .node, .symbol .leftParen,
        .symbol .rightParen] :=
  .step (.axis rfl) .anyNode .noPredicate

/-- A step along an axis to any node finds in document order what can be found from any of the nodes
at which it starts. -/
theorem exists_toAny (linked : doc.WellLinked) (present : ∀ node ∈ nodes, node.IsPresent doc)
    (axis : Axis) : ∃ reached,
      goOn (.of doc values) (.ok (.nodes nodes)) [axis.toAny] = .ok (.nodes reached) ∧
      InOrder doc reached ∧
      ∀ node, node ∈ reached ↔ ∃ start ∈ nodes, node ∈ candidates doc axis .anyNode start := by
  obtain ⟨reached, taken⟩ : ∃ reached, axis.toAny.take (.of doc values) nodes = .ok reached :=
    ⟨_, take_plain⟩
  refine ⟨reached, ?_, inOrder_take linked _ present taken, fun node => mem_of_take taken⟩
  simp only [goOn, follow, taken, Value.asNodes, bind, Except.bind, pure, Except.pure]

/-- A union is in document order what either of its sides selects. -/
theorem exists_union (linked : doc.WellLinked) {left right : Expr} {first second : List Node}
    (one : left.eval (.of doc values) focus = .ok (.nodes first))
    (other : right.eval (.of doc values) focus = .ok (.nodes second))
    (ordered : InOrder doc first) (ordered' : InOrder doc second) : ∃ united,
      (Expr.union left right).eval (.of doc values) focus = .ok (.nodes united) ∧
      InOrder doc united ∧ ∀ node, node ∈ united ↔ node ∈ first ∨ node ∈ second := by
  refine ⟨(Ranks.ofDocument doc).arrange (first ++ second), ?_, ?_, fun node => ?_⟩
  · rw [Expr.eval, one, other]
    rfl
  · refine inOrder_arrange linked fun node member => ?_
    rcases List.mem_append.mp member with member | member
    · exact ordered.present node member
    · exact ordered'.present node member
  · rw [mem_arrange, List.mem_append]

/-! ## Paths -/

/-- After a path other than a slash alone, a step up to any node or to the node itself selects what
two steps select together, to the node itself and up. A step down or to the node itself selects only
nodes of the tree: it selects all that the two steps down and to the node itself select together
exactly if there is no attribute among the nodes that the path has reached. -/
theorem eval_orSelf (linked : doc.WellLinked) (path : Derives bindings (.path tree) ts)
    (more : ts ≠ [.symbol .slash]) : ∃ along : Axis → Expr,
      (∀ axis, Derives bindings (.expr (along axis)) (ts ++ axis.slashAny)) ∧
      (∀ axis, Derives bindings (.expr (.union (along .self) (along axis)))
        (ts ++ Axis.self.slashAny ++ .symbol .pipe :: (ts ++ axis.slashAny))) ∧
      ∀ values focus found, tree.eval (.of doc values) focus = .ok (.nodes found) →
        (∀ node ∈ found, node.IsPresent doc) → ∃ up down, InOrder doc up ∧ InOrder doc down ∧
          (along .ancestorOrSelf).eval (.of doc values) focus = .ok (.nodes up) ∧
          (Expr.union (along .self) (along .ancestor)).eval (.of doc values) focus =
            .ok (.nodes up) ∧
          (Expr.union (along .self) (along .descendant)).eval (.of doc values) focus =
            .ok (.nodes down) ∧
          (along .descendantOrSelf).eval (.of doc values) focus =
            .ok (.nodes (down.filter (·.tree?.isSome))) ∧
          (down.filter (·.tree?.isSome) = down ↔ ∀ node ∈ found, node.tree?.isSome = true) := by
  obtain ⟨continued, derived, evaluated⟩ := exists_continued path more
  have derivedAny (axis : Axis) :
      Derives bindings (.path (continued [axis.toAny])) (ts ++ axis.slashAny) :=
    (derived _ _ (derives_toAny axis)).1
  refine ⟨fun axis => continued [axis.toAny], fun axis => (derivedAny axis).expr_of_path,
    fun axis => (Derives.unite (.single (derivedAny .self)) (derivedAny axis)).expr_of_union,
    fun values focus found yielded present => ?_⟩
  have step (axis : Axis) : ∃ reached,
      (continued [axis.toAny]).eval (.of doc values) focus = .ok (.nodes reached) ∧
      InOrder doc reached ∧
      ∀ node, node ∈ reached ↔ ∃ start ∈ found, node ∈ candidates doc axis .anyNode start := by
    rw [evaluated, yielded]
    exact exists_toAny linked present axis
  obtain ⟨here, selfEval, selfOrdered, mem_here⟩ := step .self
  obtain ⟨above, aboveEval, aboveOrdered, mem_above⟩ := step .ancestor
  obtain ⟨below, belowEval, belowOrdered, mem_below⟩ := step .descendant
  obtain ⟨up, upEval, upOrdered, mem_up⟩ := step .ancestorOrSelf
  obtain ⟨inTree, treeEval, treeOrdered, mem_tree⟩ := step .descendantOrSelf
  obtain ⟨united, unitedEval, unitedOrdered, mem_united⟩ :=
    exists_union linked selfEval aboveEval selfOrdered aboveOrdered
  obtain ⟨down, downEval, downOrdered, mem_down⟩ :=
    exists_union linked selfEval belowEval selfOrdered belowOrdered
  have same : united = up := by
    refine unitedOrdered.eq_of_mem_iff upOrdered fun node => ?_
    rw [mem_united, mem_here, mem_above, mem_up, ← exists_or]
    refine exists_congr fun start => ?_
    rw [← and_or_left]
    exact and_congr_right fun member =>
      (mem_candidates_ancestorOrSelf linked (present start member)).symm
  have part : down.filter (·.tree?.isSome) = inTree := by
    refine (downOrdered.sublist List.filter_sublist).eq_of_mem_iff treeOrdered fun node => ?_
    rw [List.mem_filter, mem_down, mem_here, mem_below, mem_tree, ← exists_or]
    simp only [mem_candidates_descendantOrSelf, ← and_or_left, ← and_assoc, exists_and_right]
  refine ⟨up, down, upOrdered, downOrdered, upEval, same ▸ unitedEval, downEval, part ▸ treeEval, ?_⟩
  rw [List.filter_eq_self]
  constructor
  · intro all node member
    cases node with
    | tree id => rfl
    | attr owner index =>
      have itself := mem_candidates_self_attr (present _ member)
      exact all _ ((mem_down _).mpr (.inl ((mem_here _).mpr ⟨_, member, itself⟩)))
  · intro all node member
    rcases (mem_down node).mp member with member | member
    · obtain ⟨start, listed, itself⟩ := (mem_here node).mp member
      exact tree?_isSome_of_candidate (all start listed) (.inl itself)
    · obtain ⟨start, listed, inside⟩ := (mem_below node).mp member
      exact tree?_isSome_of_candidate (all start listed) (.inr inside)

/-- An element and one of its attributes together. Up from them stands the document node, and the
step down drops the attribute. -/
theorem eval_orSelf_mixed : ∃ along : Axis → Expr, ∃ down : List Node,
    Expr.ofText .standard "(.|@x)/ancestor-or-self::node()" = .ok (along .ancestorOrSelf) ∧
    Expr.ofText .standard "(.|@x)/descendant-or-self::node()" = .ok (along .descendantOrSelf) ∧
    (Expr.union (along .self) (along .ancestor)).eval (.of sampleDocument [])
      ⟨.tree ⟨2, 0⟩, 1, 1⟩ = .ok (.nodes [.tree root, .tree ⟨2, 0⟩, .attr ⟨2, 0⟩ 0]) ∧
    (Expr.union (along .self) (along .descendant)).eval (.of sampleDocument [])
      ⟨.tree ⟨2, 0⟩, 1, 1⟩ = .ok (.nodes down) ∧
    down.filter (·.tree?.isSome) = [.tree ⟨2, 0⟩] ∧ down ≠ [.tree ⟨2, 0⟩] := by
  have linked : sampleDocument.WellLinked :=
    (extended_grow wellLinked_empty wellLinked_empty.root_live _).linked
  have united : Derives .standard
      (.union (.union (.path [.to .self .anyNode []])
        (.path [.to .attributes (.named none "x") []])))
      [.symbol .dot, .symbol .pipe, .symbol .atSign, .name (.exactly ⟨none, "x"⟩)] :=
    .unite (.single (.location (.relative (.firstStep .self))))
      (.location (.relative (.firstStep (.step .attributes .named .noPredicate))))
  have path := Derives.filtered (.plain (.parentheses united.expr_of_union))
  obtain ⟨along, derived, -, yields⟩ := eval_orSelf linked path (by simp)
  have mixed : (Expr.union (.path [.to .self .anyNode []])
      (.path [.to .attributes (.named none "x") []])).eval (.of sampleDocument [])
      ⟨.tree ⟨2, 0⟩, 1, 1⟩ = .ok (.nodes [.tree ⟨2, 0⟩, .attr ⟨2, 0⟩ 0]) := by cbv
  have attached : sampleDocument.isAttached ⟨2, 0⟩ = true := by decide
  have inside : 0 < (sampleDocument.attributes ⟨2, 0⟩).length := by decide
  have present : ∀ node ∈ [Node.tree ⟨2, 0⟩, .attr ⟨2, 0⟩ 0], node.IsPresent sampleDocument :=
    List.forall_mem_cons.mpr ⟨attached, List.forall_mem_singleton.mpr ⟨attached, inside⟩⟩
  obtain ⟨up, down, -, -, upEval, unionUp, unionDown, downEval, exact_iff⟩ :=
    yields [] _ _ mixed present
  -- The trees are those that the texts are read as.
  have lexedUp : tokens "(.|@x)/ancestor-or-self::node()" = .ok [(.symbol .leftParen, 0),
      (.symbol .dot, 1), (.symbol .pipe, 2), (.symbol .atSign, 3),
      (.name (.exactly ⟨none, "x"⟩), 4), (.symbol .rightParen, 5), (.symbol .slash, 6),
      (.axis ⟨none, "ancestor-or-self"⟩, 7), (.symbol .doubleColon, 23), (.nodeType .node, 25),
      (.symbol .leftParen, 29), (.symbol .rightParen, 30)] := by cbv
  have lexedDown : tokens "(.|@x)/descendant-or-self::node()" = .ok [(.symbol .leftParen, 0),
      (.symbol .dot, 1), (.symbol .pipe, 2), (.symbol .atSign, 3),
      (.name (.exactly ⟨none, "x"⟩), 4), (.symbol .rightParen, 5), (.symbol .slash, 6),
      (.axis ⟨none, "descendant-or-self"⟩, 7), (.symbol .doubleColon, 25), (.nodeType .node, 27),
      (.symbol .leftParen, 31), (.symbol .rightParen, 32)] := by cbv
  have readUp : Expr.ofText .standard "(.|@x)/ancestor-or-self::node()" =
      .ok (along .ancestorOrSelf) :=
    ofText_of_derives lexedUp (by intro position; cbv; simp) (derived .ancestorOrSelf)
  have readDown : Expr.ofText .standard "(.|@x)/descendant-or-self::node()" =
      .ok (along .descendantOrSelf) :=
    ofText_of_derives lexedDown (by intro position; cbv; simp) (derived .descendantOrSelf)
  have upTree : along .ancestorOrSelf = .pathFrom _ [.to .ancestorOrSelf .anyNode []] :=
    Except.ok.inj (readUp.symm.trans (by cbv))
  have downTree : along .descendantOrSelf = .pathFrom _ [.to .descendantOrSelf .anyNode []] :=
    Except.ok.inj (readDown.symm.trans (by cbv))
  have found : (along .ancestorOrSelf).eval (.of sampleDocument []) ⟨.tree ⟨2, 0⟩, 1, 1⟩ =
      .ok (.nodes [.tree root, .tree ⟨2, 0⟩, .attr ⟨2, 0⟩ 0]) := by
    rw [upTree]
    cbv
  have found' : (along .descendantOrSelf).eval (.of sampleDocument []) ⟨.tree ⟨2, 0⟩, 1, 1⟩ =
      .ok (.nodes [.tree ⟨2, 0⟩]) := by
    rw [downTree]
    cbv
  cases upEval.symm.trans found
  have part : down.filter (·.tree?.isSome) = [.tree ⟨2, 0⟩] :=
    Value.nodes.inj (Except.ok.inj (downEval.symm.trans found'))
  refine ⟨along, down, readUp, readDown, unionUp, unionDown, part, fun same => ?_⟩
  have all := exact_iff.mp (part.trans same.symm)
  exact absurd (all (.attr ⟨2, 0⟩ 0) (by simp)) Bool.false_ne_true

/-- From an attribute the step down finds nothing, but the attribute is itself. -/
theorem descendantOrSelf_drops_attribute :
    ∃ left right, Expr.ofText .standard "@x/descendant-or-self::node()" = .ok left ∧
      Expr.ofText .standard "@x/self::node() | @x/descendant::node()" = .ok right ∧
      left.eval (.of sampleDocument []) ⟨.tree ⟨2, 0⟩, 1, 1⟩ = .ok (.nodes []) ∧
      right.eval (.of sampleDocument []) ⟨.tree ⟨2, 0⟩, 1, 1⟩ =
        .ok (.nodes [.attr ⟨2, 0⟩ 0]) :=
  ⟨_, _, by cbv, by cbv, by cbv, by cbv⟩

end Markup.XPath
