import Markup.Proofs.Outcome
import Markup.Proofs.XPath.Axes
import Markup.Proofs.XPath.Evaluate
import Markup.XPath.Evaluator
import Markup.Proofs.XPath.Faults

/-!
# Queries that were read are safe to evaluate

Axes are walks along links, and they lead from live nodes to live nodes. So evaluation never comes
to a node that was removed, and all of its walks end by themselves, not only where they are cut off.
A query that was read has a value at every node, unless a variable has none or a value of another
type stands where nodes are needed, and on the way nothing is taken from outside of a list or a text.
-/

namespace Markup.XPath

open Document

section Live

variable {doc : Document} {id other : NodeId} {holds : Node → Prop} {nodes found : List Node}
  {values : List (String × Value)} {value : Value}

/-! ## Walks that end -/

/-- The walks from a node, as they are without a limit. -/
structure WalksEnd (doc : Document) (id : NodeId) : Prop where
  children : Leads doc.nextSibling (doc.firstChild id) (doc.children id)
  after : Leads doc.nextSibling (doc.nextSibling id) (siblingsAfter doc id)
  before : Leads doc.prevSibling (doc.prevSibling id) (siblingsBefore doc id)
  ancestors : Leads doc.parent (some id) (doc.ancestors id)
  descendants : Leads (doc.nextWithin id) (doc.firstChild id) (doc.descendants id)
  tree : doc.tree id = .node (doc.kind id) ((doc.children id).map doc.tree)

section Linked

variable (linked : doc.WellLinked)

include linked

theorem leads_siblings (live : doc.IsLive id) :
    Leads doc.nextSibling (doc.nextSibling id) (siblingsAfter doc id) ∧
      Leads doc.prevSibling (doc.prevSibling id) (siblingsBefore doc id) := by
  cases above : doc.parent id with
  | none =>
    rw [siblingsAfter_of_top linked live above, siblingsBefore_of_top linked live above]
    exact linked.alone live above
  | some parent =>
    obtain ⟨liveP, member⟩ := linked.listed live above
    obtain ⟨before, after, split⟩ := List.append_of_mem member
    rw [siblingsAfter_eq linked liveP split, siblingsBefore_eq linked liveP split]
    have forward := linked.forward liveP
    have backward := linked.backward liveP
    rw [split] at forward backward
    rw [List.reverse_append, List.reverse_cons, List.append_assoc] at backward
    exact ⟨forward.drop.2, (Leads.drop backward).2⟩

/-- No walk from a live node is cut off. -/
theorem walksEnd (live : doc.IsLive id) : WalksEnd doc id where
  children := linked.forward live
  after := (leads_siblings linked live).1
  before := (leads_siblings linked live).2
  ancestors := HasShape.leads_ancestors linked live
  descendants := linked.descendants_eq live ▸ linked.leads_descendants live
  tree := linked.tree_eq live

/-! ## Where axes lead -/

theorem live_of_mem_siblings (live : doc.IsLive id)
    (member : other ∈ siblingsAfter doc id ++ siblingsBefore doc id) : doc.IsLive other := by
  cases above : doc.parent id with
  | none =>
    rw [siblingsAfter_of_top linked live above, siblingsBefore_of_top linked live above] at member
    cases member
  | some parent =>
    obtain ⟨liveP, listed⟩ := linked.listed live above
    obtain ⟨before, after, split⟩ := List.append_of_mem listed
    rw [siblingsAfter_eq linked liveP split, siblingsBefore_eq linked liveP split] at member
    refine linked.live_of_mem_children liveP (split ▸ ?_)
    simp only [List.mem_append, List.mem_cons, List.mem_reverse] at member ⊢
    tauto

theorem live_of_mem_subtree (live : doc.IsLive id) (member : other ∈ subtree doc id) :
    doc.IsLive other :=
  linked.live_of_mem_preorder live (subtree_eq linked live ▸ member)

theorem live_of_mem_following (live : doc.IsLive id) (member : other ∈ following doc id) :
    doc.IsLive other := by
  obtain ⟨above, inside, member⟩ := List.mem_flatMap.mp member
  obtain ⟨sibling, beside, below⟩ := List.mem_flatMap.mp member
  have liveA := HasShape.live_of_mem_ancestors linked live above inside
  have liveS := live_of_mem_siblings linked liveA (List.mem_append_left _ beside)
  exact live_of_mem_subtree linked liveS below

theorem live_of_mem_preceding (live : doc.IsLive id) (member : other ∈ preceding doc id) :
    doc.IsLive other := by
  obtain ⟨above, inside, member⟩ := List.mem_flatMap.mp member
  obtain ⟨sibling, beside, below⟩ := List.mem_flatMap.mp member
  have liveA := HasShape.live_of_mem_ancestors linked live above inside
  have liveS := live_of_mem_siblings linked liveA (List.mem_append_right _ beside)
  exact live_of_mem_subtree linked liveS (List.mem_reverse.mp below)

theorem live_of_mem_axis (live : doc.IsLive id) (axis : Axis) :
    ∀ found ∈ axis.nodes doc (.tree id), doc.IsLive found.owner := by
  have tree {ids : List NodeId} (lives : ∀ other ∈ ids, doc.IsLive other) :
      ∀ found ∈ ids.map Node.tree, doc.IsLive found.owner :=
    List.forall_mem_map.mpr lives
  cases axis with
  | child => exact tree fun _ => linked.live_of_mem_children live
  | descendant => exact tree fun _ member => live_of_mem_subtree linked live (.tail _ member)
  | parent =>
    exact tree fun _ member => (linked.listed live (Option.mem_toList.mp member)).1
  | ancestor =>
    exact tree fun other member =>
      HasShape.live_of_mem_ancestors linked live other (List.mem_of_mem_tail member)
  | followingSibling =>
    exact tree fun _ member => live_of_mem_siblings linked live (List.mem_append_left _ member)
  | precedingSibling =>
    exact tree fun _ member => live_of_mem_siblings linked live (List.mem_append_right _ member)
  | following => exact tree fun _ => live_of_mem_following linked live
  | preceding => exact tree fun _ => live_of_mem_preceding linked live
  | attributes =>
    intro found member
    obtain ⟨⟨attr, index⟩, -, same⟩ := List.mem_filterMap.mp member
    dsimp only at same
    split at same <;> cases same
    exact live
  | namespaces => nofun
  | self => exact List.forall_mem_singleton.mpr live
  | descendantOrSelf => exact tree fun _ => live_of_mem_subtree linked live
  | ancestorOrSelf => exact tree (HasShape.live_of_mem_ancestors linked live)

/-- An axis leads from a live node, or an attribute of one, to such nodes only. -/
theorem live_of_mem_nodes (axis : Axis) {node : Node} (live : doc.IsLive node.owner) :
    ∀ found ∈ axis.nodes doc node, doc.IsLive found.owner := by
  cases node with
  | tree id => exact live_of_mem_axis linked live axis
  | attr owner index =>
    have live : doc.IsLive owner := live
    have self := live_of_mem_axis linked live .ancestorOrSelf
    cases axis with
    | self => exact List.forall_mem_singleton.mpr live
    | parent => exact List.forall_mem_singleton.mpr live
    | ancestor => exact self
    | ancestorOrSelf => exact List.forall_mem_cons.mpr ⟨live, self⟩
    | following =>
      refine List.forall_mem_map.mpr fun other member => ?_
      rcases List.mem_append.mp member with below | behind
      · exact live_of_mem_subtree linked live (.tail _ below)
      · exact live_of_mem_following linked live behind
    | preceding => exact live_of_mem_axis linked live .preceding
    | _ => nofun

end Linked

/-! ## Properties that axes keep -/

/-- A property of nodes that the document node has and that axes keep. -/
structure Closed (doc : Document) (holds : Node → Prop) : Prop where
  root : holds (.tree root)
  axis : ∀ axis node, holds node → ∀ found ∈ Axis.nodes doc axis node, holds found

/-- Whether all nodes of a value have a property. -/
def Value.All (holds : Node → Prop) : Value → Prop
  | .nodes found => ∀ node ∈ found, holds node
  | _ => True

theorem closed_live (linked : doc.WellLinked) : Closed doc fun node => doc.IsLive node.owner where
  root := linked.root_live
  axis axis _ := live_of_mem_nodes linked axis

theorem all_of_asNodes (held : value.All holds) (taken : value.asNodes = .ok found) :
    ∀ node ∈ found, holds node := by
  cases value with
  | nodes _ => exact Except.ok.inj taken ▸ held
  | _ => cases taken

section Closed

variable (closed : Closed doc holds)

include closed

theorem all_take (step : Step) (start : ∀ node ∈ nodes, holds node)
    (taken : step.take (.of doc values) nodes = .ok found) : ∀ node ∈ found, holds node := by
  obtain ⟨axis, test, predicates⟩ := step
  rw [Step.take] at taken
  obtain ⟨lists, all, taken⟩ := bind_eq_ok.mp taken
  obtain rfl := Except.ok.inj taken
  have each : ∀ list ∈ lists, ∀ node ∈ list, holds node := by
    intro list member node inside
    obtain ⟨origin, listed, kept⟩ := exists_of_mapM all list member
    have candidate := (keepAll_sublist kept).mem inside
    exact closed.axis axis origin (start origin listed) node (List.mem_of_mem_filter candidate)
  intro node member
  cases lists with
  | nil => cases member
  | cons first rest =>
    cases rest with
    | nil =>
      rw [collect] at member
      split at member
      · exact each first (by simp) node (List.mem_reverse.mp member)
      · exact each first (by simp) node member
    | cons second rest =>
      have inside := List.mem_mergeSort.mp (withoutRepeats_subset _ member)
      obtain ⟨list, listed, inner⟩ := List.mem_flatten.mp inside
      exact each list listed node inner

theorem all_follow (steps : List Step) (start : ∀ node ∈ nodes, holds node)
    (followed : follow (.of doc values) steps nodes = .ok found) : ∀ node ∈ found, holds node := by
  induction steps generalizing nodes with
  | nil =>
    rw [follow] at followed
    exact Except.ok.inj followed ▸ start
  | cons step rest ih =>
    rw [follow] at followed
    obtain ⟨middle, taken, later⟩ := bind_eq_ok.mp followed
    exact ih (all_take closed step start taken) later

theorem all_identified (text : String) : ∀ node ∈ identified doc text, holds node := by
  unfold identified
  dsimp only
  split
  · nofun
  · refine List.forall_mem_map.mpr fun id member => ?_
    exact closed.axis .descendant (.tree root) closed.root _
      (List.mem_map_of_mem (List.mem_of_mem_filter member))

theorem all_apply {focus : Focus} {function : Function} {arguments : List Value}
    (applied : function.apply doc focus arguments = .ok value) : value.All holds := by
  cases value with
  | nodes found =>
    obtain ⟨text, rfl⟩ := exists_identified applied
    exact all_identified closed text
  | _ => trivial

/-- The nodes that an expression yields have a property that axes keep. -/
theorem all_eval (bound : ∀ entry ∈ values, entry.2.All holds) :
    (expr : Expr) → {focus : Focus} → {value : Value} → holds focus.node →
      expr.eval (.of doc values) focus = .ok value → value.All holds
  | .number _, focus, value, _, evaluated | .literal _, focus, value, _, evaluated => by
    rw [Expr.eval] at evaluated
    exact Except.ok.inj evaluated ▸ trivial
  | .reference name, focus, value, _, evaluated => by
    rw [Expr.eval, Scope.lookup] at evaluated
    split at evaluated
    · next found named =>
      obtain ⟨before, after, split, -⟩ := List.lookup_eq_some_iff.mp named
      have split : values = before ++ (name.toText, found) :: after := split
      exact Except.ok.inj evaluated ▸ bound (name.toText, found) (by simp [split])
    · cases evaluated
  | .binary op left right, focus, value, _, evaluated => by
    cases value with
    | nodes found => exact absurd evaluated binary_ne_nodes
    | _ => trivial
  | .negative operand, focus, value, _, evaluated => by
    rw [Expr.eval] at evaluated
    obtain ⟨first, -, evaluated⟩ := bind_eq_ok.mp evaluated
    exact Except.ok.inj evaluated ▸ trivial
  | .call function arguments, focus, value, _, evaluated => by
    rw [Expr.eval] at evaluated
    obtain ⟨given, -, applied⟩ := bind_eq_ok.mp evaluated
    exact all_apply closed applied
  | .path steps, focus, value, start, evaluated => by
    rw [Expr.eval] at evaluated
    obtain ⟨reached, followed, evaluated⟩ := bind_eq_ok.mp evaluated
    exact Except.ok.inj evaluated ▸
      all_follow closed steps (List.forall_mem_singleton.mpr start) followed
  | .rootPath steps, focus, value, _, evaluated => by
    rw [Expr.eval] at evaluated
    obtain ⟨reached, followed, evaluated⟩ := bind_eq_ok.mp evaluated
    exact Except.ok.inj evaluated ▸
      all_follow closed steps (List.forall_mem_singleton.mpr closed.root) followed
  | .filter base predicates, focus, value, start, evaluated => by
    rw [Expr.eval] at evaluated
    obtain ⟨given, first, evaluated⟩ := bind_eq_ok.mp evaluated
    obtain ⟨found, asNodes, evaluated⟩ := bind_eq_ok.mp evaluated
    obtain ⟨kept, all, evaluated⟩ := bind_eq_ok.mp evaluated
    have held := all_of_asNodes (all_eval bound base start first) asNodes
    exact Except.ok.inj evaluated ▸ fun node member => held node ((keepAll_sublist all).mem member)
  | .pathFrom base steps, focus, value, start, evaluated => by
    rw [Expr.eval] at evaluated
    obtain ⟨given, first, evaluated⟩ := bind_eq_ok.mp evaluated
    obtain ⟨found, asNodes, evaluated⟩ := bind_eq_ok.mp evaluated
    obtain ⟨reached, followed, evaluated⟩ := bind_eq_ok.mp evaluated
    have held := all_of_asNodes (all_eval bound base start first) asNodes
    exact Except.ok.inj evaluated ▸ all_follow closed steps held followed
  | .union left right, focus, value, start, evaluated => by
    rw [Expr.eval] at evaluated
    obtain ⟨first, one, evaluated⟩ := bind_eq_ok.mp evaluated
    obtain ⟨found, asNodes, evaluated⟩ := bind_eq_ok.mp evaluated
    obtain ⟨second, other, evaluated⟩ := bind_eq_ok.mp evaluated
    obtain ⟨found', asNodes', evaluated⟩ := bind_eq_ok.mp evaluated
    have held := all_of_asNodes (all_eval bound left start one) asNodes
    have held' := all_of_asNodes (all_eval bound right start other) asNodes'
    refine Except.ok.inj evaluated ▸ fun node member => ?_
    have inside := List.mem_mergeSort.mp (withoutRepeats_subset _ member)
    exact (List.mem_append.mp inside).elim (held node) (held' node)

theorem Task.Calls.all (bound : ∀ entry ∈ values, entry.2.All holds) {task task' : Task}
    (calls : Task.Calls (.of doc values) task task') (start : ∀ node ∈ task.starts, holds node) :
    ∀ node ∈ task'.starts, holds node := by
  cases calls with
  | left | right | operand | argument | path | filterBase | pathBase | unionLeft | unionRight =>
    exact start
  | rootPath steps focus => exact List.forall_mem_singleton.mpr closed.root
  | filter predicates evaluated | pathFrom steps evaluated =>
    exact all_eval closed bound _ (start _ List.mem_cons_self) evaluated
  | predicate predicate rest before after node =>
    exact List.forall_mem_singleton.mpr
      (start node (List.mem_append_right before List.mem_cons_self))
  | nextPredicate rest done =>
    exact fun node member => start node ((keepFrom_sublist done).mem member)
  | step axis test predicates rest member =>
    intro node listed
    exact closed.axis axis _ (start _ member) node (List.mem_of_mem_filter listed)
  | nextStep rest taken => exact all_take closed _ start taken

/-- Whatever is evaluated in the course of a query starts from nodes of a property that axes keep,
if the query does and the variables hold such nodes. -/
theorem all_of_called (bound : ∀ entry ∈ values, entry.2.All holds) {task task' : Task}
    (called : Relation.ReflTransGen (Task.Calls (.of doc values)) task task')
    (start : ∀ node ∈ task.starts, holds node) : ∀ node ∈ task'.starts, holds node := by
  induction called with
  | refl => exact start
  | tail _ calls ih => exact calls.all closed bound ih

end Closed

end Live

variable {doc : Document} {values : List (String × Value)} {scope : Scope} {first later : Task}

/-! ## Calls on the way -/

/-- Whether the calls fit in what a task evaluates. -/
def Task.CallsFit : Task → Prop
  | .evaluate expr _ => expr.CallsFit
  | .select predicates _ => CallsFitIn predicates
  | .walk steps _ => CallsFitAlong steps

theorem Task.Calls.callsFit (calls : Task.Calls scope first later) (fit : first.CallsFit) :
    later.CallsFit := by
  cases calls with
  | left | filterBase | pathBase | unionLeft | predicate | step => exact fit.1
  | right | filter | pathFrom | unionRight | nextPredicate | nextStep => exact fit.2
  | operand | path | rootPath => exact fit
  | argument function focus given => exact fit.2.of_mem given

/-- Whatever is evaluated in the course of a query, its calls fit if those of the query do. -/
theorem Task.callsFit_of_called (called : Relation.ReflTransGen (Task.Calls scope) first later)
    (fit : first.CallsFit) : later.CallsFit := by
  induction called with
  | refl => exact fit
  | tail _ calls ih => exact calls.callsFit ih

/-! ## Queries -/

/-- What the evaluation of a query at a node starts with. -/
def Query.task (query : Query) (node : NodeId) : Task := .evaluate query.expr ⟨.tree node, 1, 1⟩

/-- What is safe about the evaluation of a query at a node. -/
structure Query.IsSafe (query : Query) (doc : Document) (values : List (String × Value))
    (node : NodeId) : Prop where
  /-- The query has a value, or only variables and types keep it from having one. -/
  outcome : (∃ value, query.evaluate (.of doc values) node = .ok value) ∨
    ∃ fault, query.evaluate (.of doc values) node = .error fault ∧ fault.IsDynamic values
  /-- Each call finds what it takes, the arguments as well as the parts of texts. -/
  callChecked : ∀ function arguments focus,
    Relation.ReflTransGen (Task.Calls (.of doc values)) (query.task node)
      (.evaluate (.call function arguments) focus) →
    (function = .substring → ∀ one ∈ arguments.head?, ∀ value,
      one.eval (.of doc values) focus = .ok value → value.IsCountable doc) →
    function.callChecked (.of doc values) arguments focus =
      inRange ((Expr.call function arguments).eval (.of doc values) focus)
  /-- Nothing is evaluated at a node that was removed, if the variables hold none. -/
  live : doc.WellLinked → doc.IsLive node →
    (∀ entry ∈ values, entry.2.All fun bound => doc.IsLive bound.owner) →
    ∀ task, Relation.ReflTransGen (Task.Calls (.of doc values)) (query.task node) task →
      ∀ start ∈ task.starts, doc.IsLive start.owner
  /-- The walks that axes and texts consist of end by themselves. -/
  walksEnd : doc.WellLinked → ∀ id, doc.IsLive id → WalksEnd doc id

end Markup.XPath
