import Markup.Proofs.Outcome
import Markup.Proofs.Store.Grow
import Markup.Proofs.XPath.Arrange
import Markup.XPath.Evaluator
import Mathlib

/-!
# What queries select

Every list of nodes that comes up while a query is evaluated is in document order without repeats,
although only what was found from several nodes is arranged.
-/

namespace Markup.XPath

open Document

variable {doc : Document} {values : List (String × Value)} {nodes found : List Node}

/-! ## Predicates -/

theorem keepFrom_sublist {holds : Focus → Except Fault Value} {size position : Nat}
    (kept : keepFrom holds size position nodes = .ok found) : found.Sublist nodes := by
  induction nodes generalizing position found with
  | nil => exact Except.ok.inj kept ▸ List.Sublist.refl _
  | cons node rest ih =>
    obtain ⟨value, -, kept⟩ := bind_eq_ok.mp kept
    obtain ⟨others, inner, kept⟩ := bind_eq_ok.mp kept
    obtain rfl := Except.ok.inj kept
    split
    · exact (ih inner).cons_cons node
    · exact (ih inner).cons node

/-- Predicates only drop nodes. -/
theorem keepAll_sublist {scope : Scope} {predicates : List Expr}
    (kept : keepAll scope predicates nodes = .ok found) : found.Sublist nodes := by
  induction predicates generalizing nodes with
  | nil =>
    rw [keepAll] at kept
    exact Except.ok.inj kept ▸ List.Sublist.refl _
  | cons predicate rest ih =>
    rw [keepAll] at kept
    obtain ⟨middle, first, later⟩ := bind_eq_ok.mp kept
    exact (ih later).trans (keepFrom_sublist first)

/-! ## Steps -/

theorem exists_of_mapM {α β : Type} {act : α → Except Fault β} {list : List α} {results : List β}
    (done : list.mapM act = .ok results) : ∀ result ∈ results, ∃ item ∈ list,
      act item = .ok result := by
  induction list generalizing results with
  | nil => exact Except.ok.inj done ▸ by simp
  | cons first rest ih =>
    rw [List.mapM_cons] at done
    obtain ⟨one, head, done⟩ := bind_eq_ok.mp done
    obtain ⟨others, tail, done⟩ := bind_eq_ok.mp done
    obtain rfl := Except.ok.inj done
    intro result member
    rcases List.mem_cons.mp member with rfl | member
    · exact ⟨first, by simp, head⟩
    · obtain ⟨item, listed, same⟩ := ih tail result member
      exact ⟨item, by simp [listed], same⟩

/-- The candidates on an axis that predicates leave, in document order. -/
theorem inOrder_kept (linked : doc.WellLinked) {scope : Scope} {axis : Axis} {test : NodeTest}
    {predicates : List Expr} {node : Node} (present : node.IsPresent doc)
    (kept : keepAll scope predicates (candidates doc axis test node) = .ok found) :
    InOrder doc (if axis.isReverse then found.reverse else found) := by
  have ordered := inOrder_axis linked axis present
  have part : found.Sublist (axis.nodes doc node) :=
    (keepAll_sublist kept).trans List.filter_sublist
  split
  · next reverse =>
    rw [if_pos reverse] at ordered
    exact ordered.sublist part.reverse
  · next forward =>
    rw [if_neg forward] at ordered
    exact ordered.sublist part

/-- A step leads to nodes in document order, wherever it starts. -/
theorem inOrder_take (linked : doc.WellLinked) (step : Step)
    (present : ∀ node ∈ nodes, node.IsPresent doc)
    (taken : step.take (.of doc values) nodes = .ok found) : InOrder doc found := by
  obtain ⟨axis, test, predicates⟩ := step
  rw [Step.take] at taken
  obtain ⟨lists, all, taken⟩ := bind_eq_ok.mp taken
  obtain rfl := Except.ok.inj taken
  have ordered : ∀ list ∈ lists, InOrder doc (if axis.isReverse then list.reverse else list) := by
    intro list member
    obtain ⟨node, listed, kept⟩ := exists_of_mapM all list member
    exact inOrder_kept linked (present node listed) kept
  cases lists with
  | nil => exact .nil
  | cons first rest =>
    cases rest with
    | nil => exact ordered first (by simp)
    | cons second rest =>
      apply inOrder_arrange linked
      intro node member
      obtain ⟨list, listed, inner⟩ := List.mem_flatten.mp member
      apply (ordered list listed).present node
      split
      · exact List.mem_reverse.mpr inner
      · exact inner

theorem inOrder_follow (linked : doc.WellLinked) (steps : List Step) (ordered : InOrder doc nodes)
    (followed : follow (.of doc values) steps nodes = .ok found) : InOrder doc found := by
  induction steps generalizing nodes with
  | nil =>
    rw [follow] at followed
    exact Except.ok.inj followed ▸ ordered
  | cons step rest ih =>
    rw [follow] at followed
    obtain ⟨middle, taken, later⟩ := bind_eq_ok.mp followed
    exact ih (inOrder_take linked step ordered.present taken) later

/-! ## Expressions -/

/-- Whether a value, if it is one of nodes, has them in document order. -/
def Value.IsOrdered (doc : Document) : Value → Prop
  | .nodes found => InOrder doc found
  | _ => True

theorem inOrder_of_asNodes {value : Value} (ordered : value.IsOrdered doc)
    (taken : value.asNodes = .ok found) : InOrder doc found := by
  cases value with
  | nodes _ => exact Except.ok.inj taken ▸ ordered
  | _ => simp [Value.asNodes] at taken

theorem inOrder_identified (linked : doc.WellLinked) (text : String) :
    InOrder doc (identified doc text) := by
  unfold identified
  dsimp only
  split
  · exact .nil
  · exact inOrder_tree linked (List.filter_sublist.trans (List.sublist_cons_self _ _))

/-- Of all functions only `id` yields nodes. -/
theorem exists_identified {focus : Focus} {function : Function} {arguments : List Value}
    (applied : function.apply doc focus arguments = .ok (.nodes found)) :
    ∃ text, found = identified doc text := by
  unfold Function.apply at applied
  dsimp only at applied
  split at applied
  case h_4 | h_5 =>
    cases applied
    exact ⟨_, rfl⟩
  all_goals
    first
    | cases applied
    | obtain ⟨middle, -, done⟩ := bind_eq_ok.mp applied
      cases done

theorem isOrdered_apply (linked : doc.WellLinked) {focus : Focus} {function : Function}
    {arguments : List Value} {value : Value}
    (applied : function.apply doc focus arguments = .ok value) : value.IsOrdered doc := by
  cases value with
  | nodes found =>
    obtain ⟨text, rfl⟩ := exists_identified applied
    exact inOrder_identified linked text
  | _ => trivial

/-- Operators yield booleans and numbers only. -/
theorem binary_ne_nodes {scope : Scope} {op : Operator} {left right : Expr} {focus : Focus} :
    (Expr.binary op left right).eval scope focus ≠ .ok (.nodes found) := by
  intro evaluated
  cases op with
  | or | and =>
    rw [Expr.eval] at evaluated
    obtain ⟨first, -, evaluated⟩ := bind_eq_ok.mp evaluated
    split at evaluated
    all_goals
      first
      | cases evaluated
      | obtain ⟨second, -, evaluated⟩ := bind_eq_ok.mp evaluated
        cases evaluated
  | equal | notEqual | relation _ | arithmetic _ =>
    rw [Expr.eval] at evaluated
    obtain ⟨first, -, evaluated⟩ := bind_eq_ok.mp evaluated
    obtain ⟨second, -, evaluated⟩ := bind_eq_ok.mp evaluated
    cases evaluated

theorem isOrdered_binary {scope : Scope} {op : Operator} {left right : Expr} {focus : Focus}
    {value : Value} (evaluated : (Expr.binary op left right).eval scope focus = .ok value) :
    value.IsOrdered doc := by
  cases value with
  | nodes found => exact absurd evaluated binary_ne_nodes
  | _ => trivial

theorem isPresent_root (linked : doc.WellLinked) : Node.IsPresent doc (.tree root) :=
  linked.isAttached_root

/-- Whatever an expression is evaluated at, the nodes it yields are in document order. -/
theorem isOrdered_eval (linked : doc.WellLinked)
    (bound : ∀ entry ∈ values, entry.2.IsOrdered doc) :
    (expr : Expr) → {focus : Focus} → {value : Value} → focus.node.IsPresent doc →
      expr.eval (.of doc values) focus = .ok value → value.IsOrdered doc
  | .number _, focus, value, _, evaluated | .literal _, focus, value, _, evaluated => by
    rw [Expr.eval] at evaluated
    exact Except.ok.inj evaluated ▸ trivial
  | .reference name, focus, value, _, evaluated => by
    rw [Expr.eval, Scope.lookup] at evaluated
    split at evaluated
    · next found named =>
      obtain ⟨before, after, split, -⟩ := List.lookup_eq_some_iff.mp named
      have split : values = before ++ (name.toText, found) :: after := split
      exact Except.ok.inj evaluated ▸ bound (name.toText, found) (by simp [split])
    · simp at evaluated
  | .binary op left right, focus, value, _, evaluated => isOrdered_binary evaluated
  | .negative operand, focus, value, _, evaluated => by
    rw [Expr.eval] at evaluated
    obtain ⟨first, -, evaluated⟩ := bind_eq_ok.mp evaluated
    exact Except.ok.inj evaluated ▸ trivial
  | .call function arguments, focus, value, _, evaluated => by
    rw [Expr.eval] at evaluated
    obtain ⟨given, -, applied⟩ := bind_eq_ok.mp evaluated
    exact isOrdered_apply linked applied
  | .path steps, focus, value, present, evaluated => by
    rw [Expr.eval] at evaluated
    obtain ⟨reached, followed, evaluated⟩ := bind_eq_ok.mp evaluated
    exact Except.ok.inj evaluated ▸ inOrder_follow linked steps (.singleton present) followed
  | .rootPath steps, focus, value, _, evaluated => by
    rw [Expr.eval] at evaluated
    obtain ⟨reached, followed, evaluated⟩ := bind_eq_ok.mp evaluated
    have start := InOrder.singleton (isPresent_root linked)
    exact Except.ok.inj evaluated ▸ inOrder_follow linked steps start followed
  | .filter base predicates, focus, value, present, evaluated => by
    rw [Expr.eval] at evaluated
    obtain ⟨given, first, evaluated⟩ := bind_eq_ok.mp evaluated
    obtain ⟨taken, asNodes, evaluated⟩ := bind_eq_ok.mp evaluated
    obtain ⟨kept, all, evaluated⟩ := bind_eq_ok.mp evaluated
    have ordered := inOrder_of_asNodes (isOrdered_eval linked bound base present first) asNodes
    exact Except.ok.inj evaluated ▸ ordered.sublist (keepAll_sublist all)
  | .pathFrom base steps, focus, value, present, evaluated => by
    rw [Expr.eval] at evaluated
    obtain ⟨given, first, evaluated⟩ := bind_eq_ok.mp evaluated
    obtain ⟨taken, asNodes, evaluated⟩ := bind_eq_ok.mp evaluated
    obtain ⟨reached, followed, evaluated⟩ := bind_eq_ok.mp evaluated
    have ordered := inOrder_of_asNodes (isOrdered_eval linked bound base present first) asNodes
    exact Except.ok.inj evaluated ▸ inOrder_follow linked steps ordered followed
  | .union left right, focus, value, present, evaluated => by
    rw [Expr.eval] at evaluated
    obtain ⟨first, one, evaluated⟩ := bind_eq_ok.mp evaluated
    obtain ⟨found, asNodes, evaluated⟩ := bind_eq_ok.mp evaluated
    obtain ⟨second, other, evaluated⟩ := bind_eq_ok.mp evaluated
    obtain ⟨found', asNodes', evaluated⟩ := bind_eq_ok.mp evaluated
    have ordered := inOrder_of_asNodes (isOrdered_eval linked bound left present one) asNodes
    have ordered' := inOrder_of_asNodes (isOrdered_eval linked bound right present other) asNodes'
    refine Except.ok.inj evaluated ▸ inOrder_arrange linked fun node member => ?_
    rcases List.mem_append.mp member with inner | inner
    · exact ordered.present node inner
    · exact ordered'.present node inner

/-! ## All that is evaluated on the way -/

/-- What is done in the course of an evaluation. -/
inductive Task where
  | evaluate (expr : Expr) (focus : Focus)
  /-- Predicates decide on nodes, one after the other. -/
  | select (predicates : List Expr) (nodes : List Node)
  /-- Steps lead on from nodes. -/
  | walk (steps : List Step) (nodes : List Node)

/-- What a task is done with. The right operand counts even where the left one decides. -/
inductive Task.Calls (scope : Scope) : Task → Task → Prop
  | left (op : Operator) (left right : Expr) (focus : Focus) :
      Calls scope (evaluate (.binary op left right) focus) (evaluate left focus)
  | right (op : Operator) (left right : Expr) (focus : Focus) :
      Calls scope (evaluate (.binary op left right) focus) (evaluate right focus)
  | operand (operand : Expr) (focus : Focus) :
      Calls scope (evaluate (.negative operand) focus) (evaluate operand focus)
  | argument (function : Function) {arguments : List Expr} {argument : Expr} (focus : Focus)
      (given : argument ∈ arguments) :
      Calls scope (evaluate (.call function arguments) focus) (evaluate argument focus)
  | path (steps : List Step) (focus : Focus) :
      Calls scope (evaluate (.path steps) focus) (walk steps [focus.node])
  | rootPath (steps : List Step) (focus : Focus) :
      Calls scope (evaluate (.rootPath steps) focus) (walk steps [.tree root])
  | filterBase (base : Expr) (predicates : List Expr) (focus : Focus) :
      Calls scope (evaluate (.filter base predicates) focus) (evaluate base focus)
  | filter {base : Expr} (predicates : List Expr) {focus : Focus} {found : List Node}
      (evaluated : base.eval scope focus = .ok (.nodes found)) :
      Calls scope (evaluate (.filter base predicates) focus) (select predicates found)
  | pathBase (base : Expr) (steps : List Step) (focus : Focus) :
      Calls scope (evaluate (.pathFrom base steps) focus) (evaluate base focus)
  | pathFrom {base : Expr} (steps : List Step) {focus : Focus} {found : List Node}
      (evaluated : base.eval scope focus = .ok (.nodes found)) :
      Calls scope (evaluate (.pathFrom base steps) focus) (walk steps found)
  | unionLeft (left right : Expr) (focus : Focus) :
      Calls scope (evaluate (.union left right) focus) (evaluate left focus)
  | unionRight (left right : Expr) (focus : Focus) :
      Calls scope (evaluate (.union left right) focus) (evaluate right focus)
  | predicate (predicate : Expr) (rest : List Expr) (before after : List Node) (node : Node) :
      Calls scope (select (predicate :: rest) (before ++ node :: after))
        (evaluate predicate ⟨node, before.length + 1, (before ++ node :: after).length⟩)
  | nextPredicate {predicate : Expr} (rest : List Expr) {nodes kept : List Node}
      (done : keep (predicate.eval scope) nodes = .ok kept) :
      Calls scope (select (predicate :: rest) nodes) (select rest kept)
  | step (axis : Axis) (test : NodeTest) (predicates : List Expr) (rest : List Step)
      {nodes : List Node} {node : Node} (member : node ∈ nodes) :
      Calls scope (walk (.to axis test predicates :: rest) nodes)
        (select predicates (candidates scope.doc axis test node))
  | nextStep {step : Step} (rest : List Step) {nodes found : List Node}
      (taken : step.take scope nodes = .ok found) :
      Calls scope (walk (step :: rest) nodes) (walk rest found)

/-- The nodes that a task starts from. -/
def Task.starts : Task → List Node
  | evaluate _ focus => [focus.node]
  | select _ nodes | walk _ nodes => nodes

/-- Every task starts from nodes of the document if the one that calls it does. -/
theorem Task.Calls.present (linked : doc.WellLinked)
    (bound : ∀ entry ∈ values, entry.2.IsOrdered doc) {task task' : Task}
    (calls : Task.Calls (.of doc values) task task')
    (present : ∀ node ∈ task.starts, node.IsPresent doc) :
    ∀ node ∈ task'.starts, node.IsPresent doc := by
  cases calls with
  | left | right | operand | argument | path | filterBase | pathBase | unionLeft | unionRight =>
    exact present
  | rootPath steps focus =>
    intro node member
    exact List.mem_singleton.mp member ▸ isPresent_root linked
  | filter predicates evaluated | pathFrom steps evaluated =>
    exact InOrder.present (isOrdered_eval linked bound _ (present _ (by simp [starts])) evaluated)
  | predicate predicate rest before after node =>
    intro other member
    exact present other (by simp [starts, List.mem_singleton.mp member])
  | nextPredicate rest done =>
    exact fun node member => present node ((keepFrom_sublist done).mem member)
  | step axis test predicates rest member =>
    intro node listed
    have ordered := inOrder_axis linked axis (present _ member)
    have inside := List.mem_of_mem_filter listed
    apply ordered.present node
    split
    · exact List.mem_reverse.mpr inside
    · exact inside
  | nextStep rest taken => exact (inOrder_take linked _ present taken).present

theorem Task.present_of_called (linked : doc.WellLinked)
    (bound : ∀ entry ∈ values, entry.2.IsOrdered doc) {task task' : Task}
    (called : Relation.ReflTransGen (Task.Calls (.of doc values)) task task')
    (present : ∀ node ∈ task.starts, node.IsPresent doc) :
    ∀ node ∈ task'.starts, node.IsPresent doc := by
  induction called with
  | refl => exact present
  | tail _ calls ih => exact calls.present linked bound ih

/-- Every list of nodes that an expression yields in the course of a query, at the top or inside,
is in document order without repeats. -/
theorem inOrder_of_evaluated (linked : doc.WellLinked)
    (bound : ∀ entry ∈ values, entry.2.IsOrdered doc) {node : NodeId}
    (attached : doc.isAttached node = true) {query : Query} {expr : Expr} {focus : Focus}
    (called : Relation.ReflTransGen (Task.Calls (.of doc values))
      (.evaluate query.expr ⟨.tree node, 1, 1⟩) (.evaluate expr focus))
    (evaluated : expr.eval (.of doc values) focus = .ok (.nodes found)) :
    InOrder doc found ∧ found.Nodup := by
  have present := Task.present_of_called linked bound called fun other member =>
    List.mem_singleton.mp member ▸ attached
  have ordered : InOrder doc found :=
    isOrdered_eval linked bound expr (present _ (by simp [Task.starts])) evaluated
  exact ⟨ordered, ordered.nodup⟩

/-- A document with one element, which has two attributes. -/
def sampleDocument : Document :=
  Document.empty.grow root
    (.element ⟨none, "a"⟩ none [.plain "x" "1", .plain "y" "2"])

/-- The attributes that the predicate of `*[@* | .]` yields together with the element, for the
element in focus. -/
theorem inOrder_of_evaluated_sample :
    InOrder sampleDocument [.tree ⟨2, 0⟩, .attr ⟨2, 0⟩ 0, .attr ⟨2, 0⟩ 1] ∧
      [Node.tree ⟨2, 0⟩, .attr ⟨2, 0⟩ 0, .attr ⟨2, 0⟩ 1].Nodup := by
  have linked : sampleDocument.WellLinked :=
    (extended_grow wellLinked_empty wellLinked_empty.root_live _).linked
  have called : Relation.ReflTransGen (Task.Calls (.of sampleDocument []))
      (.evaluate (.path [.to .child .anyName
        [.union (.path [.to .attributes .anyName []]) (.path [.to .self .anyNode []])]])
          ⟨.tree root, 1, 1⟩)
      (.evaluate (.union (.path [.to .attributes .anyName []]) (.path [.to .self .anyNode []]))
        ⟨.tree ⟨2, 0⟩, 1, 1⟩) :=
    ((Relation.ReflTransGen.refl.tail (.path _ _)).tail
      (.step .child .anyName _ [] (show Node.tree root ∈ _ by decide))).tail
        (.predicate _ [] [] [] (.tree ⟨2, 0⟩))
  have evaluated : Expr.eval (.of sampleDocument [])
      (.union (.path [.to .attributes .anyName []]) (.path [.to .self .anyNode []]))
      ⟨.tree ⟨2, 0⟩, 1, 1⟩ =
        .ok (.nodes [.tree ⟨2, 0⟩, .attr ⟨2, 0⟩ 0, .attr ⟨2, 0⟩ 1]) := by cbv
  have attached : sampleDocument.isAttached root = true := by decide
  let query : Query := ⟨"*[@* | .]", .path [.to .child .anyName
    [.union (.path [.to .attributes .anyName []]) (.path [.to .self .anyNode []])]]⟩
  exact @inOrder_of_evaluated sampleDocument [] _ linked (by simp) root attached query _ _ called
    evaluated

end Markup.XPath
