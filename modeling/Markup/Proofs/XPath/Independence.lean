import Markup.Proofs.Store.Runs
import Markup.Proofs.XPath.Values

/-!
# Queries do not depend on the slots

A query is evaluated alike in two documents that hold the same tree: it fails with the same fault,
or it yields the same boolean, number or text, or the same nodes under their other names. How the
nodes are numbered, what is detached and what was removed does not matter.
-/

namespace Markup.XPath

open Document

variable {doc doc' : Document} {rename : NodeId → NodeId} {nodes nodes' : List Node}
  {value value' : Value}

/-! ## Evaluation -/

/-- Two evaluations that end alike: in the same fault, or in results that correspond. -/
inductive Alike {α β : Type} (related : α → β → Prop) :
    Except Fault α → Except Fault β → Prop
  | fault (fault : Fault) : Alike related (.error fault) (.error fault)
  | result {a : α} {b : β} (corresponds : related a b) : Alike related (.ok a) (.ok b)

theorem Alike.bind {α β γ δ : Type} {related : α → β → Prop} {related' : γ → δ → Prop}
    {first : Except Fault α} {first' : Except Fault β} {next : α → Except Fault γ}
    {next' : β → Except Fault δ} (alike : Alike related first first')
    (later : ∀ a b, related a b → Alike related' (next a) (next' b)) :
    Alike related' (first >>= next) (first' >>= next') := by
  cases alike with
  | fault fault => exact .fault fault
  | result corresponds => exact later _ _ corresponds

theorem Alike.eq_map {α β : Type} {related : α → β → Prop} {change : α → β}
    {first : Except Fault α} {second : Except Fault β} (alike : Alike related first second)
    (image : ∀ a b, related a b → b = change a) : second = first.map change := by
  cases alike with
  | fault fault => rfl
  | result corresponds => exact congrArg _ (image _ _ corresponds)

/-- Nodes of the tree and the same nodes under their other names. -/
def NodesMatch (doc : Document) (rename : NodeId → NodeId) (nodes nodes' : List Node) : Prop :=
  (∀ node ∈ nodes, node.IsOwned doc) ∧ nodes' = nodes.map (Node.image rename)

/-- A value and the same value with its nodes under their other names. -/
def ValuesMatch (doc : Document) (rename : NodeId → NodeId) (value value' : Value) : Prop :=
  value.IsOwned doc ∧ value' = value.image rename

/-- A focus with its node under another name. -/
def Focus.image (rename : NodeId → NodeId) (focus : Focus) : Focus :=
  { focus with node := focus.node.image rename }

/-- The values of variables with their nodes under other names. -/
def imageValues (rename : NodeId → NodeId) (values : List (String × Value)) :
    List (String × Value) :=
  values.map fun (name, value) => (name, value.image rename)

theorem matched_boolean {left right : Bool} (same : right = left) :
    ValuesMatch doc rename (.boolean left) (.boolean right) := ⟨trivial, congrArg _ same⟩

theorem matched_number {left right : Float} (same : right = left) :
    ValuesMatch doc rename (.number left) (.number right) := ⟨trivial, congrArg _ same⟩

theorem matched_nodes (matched : NodesMatch doc rename nodes nodes') :
    ValuesMatch doc rename (.nodes nodes) (.nodes nodes') := ⟨matched.1, congrArg _ matched.2⟩

theorem ValuesMatch.toBoolean (matched : ValuesMatch doc rename value value') :
    value'.toBoolean = value.toBoolean := matched.2 ▸ toBoolean_image value

section Evaluation

variable (iso : Isomorphism doc doc' rename)

theorem asNodes_alike (matched : ValuesMatch doc rename value value') :
    Alike (NodesMatch doc rename) value.asNodes value'.asNodes := by
  obtain ⟨owned, rfl⟩ := matched
  cases value with
  | nodes found => exact .result ⟨owned, rfl⟩
  | _ => exact .fault _

/-- Of the nodes that a predicate leaves, each has the position that it had. -/
theorem keepFrom_alike {holds holds' : Focus → Except Fault Value}
    (alike : ∀ focus, focus.node.IsOwned doc →
      Alike (ValuesMatch doc rename) (holds focus) (holds' (focus.image rename)))
    (size position : Nat) (owned : ∀ node ∈ nodes, node.IsOwned doc) :
    Alike (NodesMatch doc rename) (keepFrom holds size position nodes)
      (keepFrom holds' size position (nodes.map (Node.image rename))) := by
  induction nodes generalizing position with
  | nil => exact .result ⟨owned, rfl⟩
  | cons node rest ih =>
    obtain ⟨first, others⟩ := List.forall_mem_cons.mp owned
    refine (alike ⟨node, position, size⟩ first).bind fun value value' ⟨_, image⟩ =>
      (ih (position + 1) others).bind fun kept kept' ⟨owned, image'⟩ => ?_
    subst image image'
    rw [selects_image]
    by_cases selected : value.selects position = true
    · simp only [selected, if_true]
      exact .result ⟨List.forall_mem_cons.mpr ⟨first, owned⟩, rfl⟩
    · simp only [selected]
      exact .result ⟨owned, rfl⟩

theorem keep_alike {holds holds' : Focus → Except Fault Value}
    (alike : ∀ focus, focus.node.IsOwned doc →
      Alike (ValuesMatch doc rename) (holds focus) (holds' (focus.image rename)))
    (matched : NodesMatch doc rename nodes nodes') :
    Alike (NodesMatch doc rename) (keep holds nodes) (keep holds' nodes') := by
  obtain ⟨owned, rfl⟩ := matched
  rw [keep, keep, List.length_map]
  exact keepFrom_alike alike _ _ owned

include iso

theorem toNumber_match (matched : ValuesMatch doc rename value value') :
    value'.toNumber doc' = value.toNumber doc := matched.2 ▸ toNumber_image iso matched.1

theorem apply_alike (function : Function) {focus : Focus} (owned : focus.node.IsOwned doc)
    {arguments arguments' : List Value} (given : ∀ value ∈ arguments, value.IsOwned doc)
    (image : arguments' = arguments.map (Value.image rename)) :
    Alike (ValuesMatch doc rename) (function.apply doc focus arguments)
      (function.apply doc' (focus.image rename) arguments') := by
  rw [image, Focus.image, apply_image iso function owned given]
  cases applied : function.apply doc focus arguments with
  | error fault => exact .fault fault
  | ok value => exact .result ⟨(isOrdered_apply iso.linked applied).isOwned, rfl⟩

/-- The value of an operator is a boolean or a number, for which its operands are read alike. -/
theorem binary_alike {scope scope' : Scope} (docs : scope.doc = doc) (docs' : scope'.doc = doc')
    (op : Operator) {left right : Expr} {focus focus' : Focus}
    (first : Alike (ValuesMatch doc rename) (left.eval scope focus) (left.eval scope' focus'))
    (second : Alike (ValuesMatch doc rename) (right.eval scope focus) (right.eval scope' focus')) :
    Alike (ValuesMatch doc rename) ((Expr.binary op left right).eval scope focus)
      ((Expr.binary op left right).eval scope' focus') := by
  subst docs docs'
  cases op with
  | or =>
    rw [Expr.eval, Expr.eval]
    refine first.bind fun x x' matched => ?_
    rw [matched.toBoolean]
    split
    · exact .result (matched_boolean rfl)
    · exact second.bind fun y y' matched' => .result (matched_boolean matched'.toBoolean)
  | and =>
    rw [Expr.eval, Expr.eval]
    refine first.bind fun x x' matched => ?_
    rw [matched.toBoolean]
    split
    · exact second.bind fun y y' matched' => .result (matched_boolean matched'.toBoolean)
    · exact .result (matched_boolean rfl)
  | equal | notEqual =>
    rw [Expr.eval, Expr.eval]
    exact first.bind fun x x' matched => second.bind fun y y' matched' =>
      .result (matched_boolean
        (matched.2 ▸ matched'.2 ▸ agree_image iso _ matched.1 matched'.1))
  | relation relation =>
    rw [Expr.eval, Expr.eval]
    exact first.bind fun x x' matched => second.bind fun y y' matched' =>
      .result (matched_boolean
        (matched.2 ▸ matched'.2 ▸ related_image iso relation matched.1 matched'.1))
  | arithmetic operation =>
    rw [Expr.eval, Expr.eval]
    exact first.bind fun x x' matched => second.bind fun y y' matched' =>
      .result (matched_number (congr (congrArg _ (toNumber_match iso matched))
        (toNumber_match iso matched')))

theorem candidates_match (axis : Axis) (test : NodeTest) {node : Node}
    (owned : node.IsOwned doc) :
    NodesMatch doc rename (candidates doc axis test node)
      (candidates doc' axis test (node.image rename)) := by
  have inside := isOwned_of_mem_nodes iso.linked axis owned
  refine ⟨fun found member => inside found (List.mem_of_mem_filter member), ?_⟩
  rw [candidates, nodes_image iso axis owned, List.filter_map, candidates]
  congr 1
  exact List.filter_congr fun found member => accepts_image iso test axis (inside found member)

theorem arrange_match (matched : NodesMatch doc rename nodes nodes') :
    NodesMatch doc rename ((Ranks.ofDocument doc).arrange nodes)
      ((Ranks.ofDocument doc').arrange nodes') := by
  obtain ⟨owned, rfl⟩ := matched
  refine ⟨fun node member => owned node ?_, arrange_image iso owned⟩
  exact List.mem_mergeSort.mp (withoutRepeats_subset _ member)

omit iso in
theorem append_match {found found' : List Node} (first : NodesMatch doc rename nodes nodes')
    (second : NodesMatch doc rename found found') :
    NodesMatch doc rename (nodes ++ found) (nodes' ++ found') := by
  refine ⟨fun node member => ?_, by rw [first.2, second.2, List.map_append]⟩
  exact (List.mem_append.mp member).elim (first.1 node) (second.1 node)

omit iso in
theorem flatten_match {found found' : List (List Node)}
    (matched : List.Forall₂ (NodesMatch doc rename) found found') :
    NodesMatch doc rename found.flatten found'.flatten := by
  induction matched with
  | nil => exact ⟨nofun, rfl⟩
  | cons first _ ih => exact append_match first ih

theorem collect_match (axis : Axis) {found found' : List (List Node)}
    (matched : List.Forall₂ (NodesMatch doc rename) found found') :
    NodesMatch doc rename (collect (Ranks.ofDocument doc) axis found)
      (collect (Ranks.ofDocument doc') axis found') := by
  cases matched with
  | nil => exact ⟨nofun, rfl⟩
  | cons first rest =>
    cases rest with
    | nil =>
      obtain ⟨owned, rfl⟩ := first
      simp only [collect]
      split
      · exact ⟨fun node member => owned node (List.mem_reverse.mp member), List.map_reverse.symm⟩
      · exact ⟨owned, rfl⟩
    | cons second rest =>
      exact arrange_match iso (flatten_match (.cons first (.cons second rest)))

omit iso in
theorem mapM_alike {α β : Type} {related : α → β → Prop} {task : Node → Except Fault α}
    {task' : Node → Except Fault β}
    (alike : ∀ node, node.IsOwned doc → Alike related (task node) (task' (node.image rename)))
    (owned : ∀ node ∈ nodes, node.IsOwned doc) :
    Alike (List.Forall₂ related) (nodes.mapM task)
      ((nodes.map (Node.image rename)).mapM task') := by
  induction nodes with
  | nil => exact .result .nil
  | cons node rest ih =>
    obtain ⟨first, others⟩ := List.forall_mem_cons.mp owned
    rw [List.map_cons, List.mapM_cons, List.mapM_cons]
    exact (alike node first).bind fun _ _ found => (ih others).bind fun _ _ later =>
      .result (.cons found later)

omit iso in
theorem lookup_alike {values : List (String × Value)}
    (bound : ∀ entry ∈ values, entry.2.IsOwned doc) (name : String) :
    Alike (ValuesMatch doc rename) ((Scope.of doc values).lookup name)
      ((Scope.of doc' (imageValues rename values)).lookup name) := by
  have found : (imageValues rename values).lookup name =
      (values.lookup name).map (Value.image rename) := by
    clear bound
    induction values with
    | nil => rfl
    | cons entry rest ih =>
      rw [imageValues, List.map_cons, List.lookup_cons, List.lookup_cons, ← imageValues, ih]
      split <;> rfl
  rw [Scope.lookup, Scope.lookup]
  simp only [Scope.of, found]
  cases named : values.lookup name with
  | none => exact .fault _
  | some value =>
    obtain ⟨before, after, split, -⟩ := List.lookup_eq_some_iff.mp named
    exact .result ⟨bound (name, value) (by simp [split]), rfl⟩

end Evaluation

mutual

theorem eval_alike {values : List (String × Value)}
    (iso : Isomorphism doc doc' rename)
    (bound : ∀ entry ∈ values, entry.2.IsOwned doc) :
    (expr : Expr) → {focus : Focus} → focus.node.IsOwned doc →
      Alike (ValuesMatch doc rename) (expr.eval (.of doc values) focus)
        (expr.eval (.of doc' (imageValues rename values)) (focus.image rename))
  | .number _, _, _ | .literal _, _, _ => by
    rw [Expr.eval, Expr.eval]
    exact .result ⟨trivial, rfl⟩
  | .reference name, _, _ => by
    rw [Expr.eval, Expr.eval]
    exact lookup_alike bound _
  | .binary op left right, focus, owned =>
    binary_alike iso rfl rfl op (eval_alike iso bound left owned) (eval_alike iso bound right owned)
  | .negative operand, focus, owned => by
    rw [Expr.eval, Expr.eval]
    exact (eval_alike iso bound operand owned).bind fun _ _ matched =>
      .result (matched_number (congrArg _ (toNumber_match iso matched)))
  | .call function arguments, focus, owned => by
    rw [Expr.eval, Expr.eval]
    exact (evalAll_alike iso bound arguments owned).bind fun _ _ ⟨given, image⟩ =>
      apply_alike iso function owned given image
  | .path steps, focus, owned => by
    rw [Expr.eval, Expr.eval]
    exact (follow_alike iso bound steps ⟨List.forall_mem_singleton.mpr owned, rfl⟩).bind
      fun _ _ reached => .result (matched_nodes reached)
  | .rootPath steps, focus, _ => by
    rw [Expr.eval, Expr.eval]
    have start : NodesMatch doc rename [.tree root] [.tree root] :=
      ⟨List.forall_mem_singleton.mpr iso.linked.isAttached_root, by
        rw [List.map_singleton, Node.image, iso.rename_root]⟩
    exact (follow_alike iso bound steps start).bind fun _ _ reached => .result (matched_nodes reached)
  | .filter base predicates, focus, owned => by
    rw [Expr.eval, Expr.eval]
    exact (eval_alike iso bound base owned).bind fun _ _ given => (asNodes_alike given).bind
      fun _ _ found => (keepAll_alike iso bound predicates found).bind
        fun _ _ kept => .result (matched_nodes kept)
  | .pathFrom base steps, focus, owned => by
    rw [Expr.eval, Expr.eval]
    exact (eval_alike iso bound base owned).bind fun _ _ given => (asNodes_alike given).bind
      fun _ _ found => (follow_alike iso bound steps found).bind
        fun _ _ reached => .result (matched_nodes reached)
  | .union left right, focus, owned => by
    rw [Expr.eval, Expr.eval]
    refine (eval_alike iso bound left owned).bind fun _ _ given => (asNodes_alike given).bind
      fun _ _ first => (eval_alike iso bound right owned).bind fun _ _ given' =>
        (asNodes_alike given').bind fun _ _ second => .result (matched_nodes ?_)
    exact arrange_match iso (append_match first second)

theorem evalAll_alike {values : List (String × Value)}
    (iso : Isomorphism doc doc' rename)
    (bound : ∀ entry ∈ values, entry.2.IsOwned doc) :
    (exprs : List Expr) → {focus : Focus} → focus.node.IsOwned doc →
      Alike (fun given given' => (∀ value ∈ given, value.IsOwned doc) ∧
          given' = given.map (Value.image rename)) (evalAll (.of doc values) exprs focus)
        (evalAll (.of doc' (imageValues rename values)) exprs (focus.image rename))
  | [], _, _ => by
    rw [evalAll, evalAll]
    exact .result ⟨nofun, rfl⟩
  | expr :: rest, focus, owned => by
    rw [evalAll, evalAll]
    refine (eval_alike iso bound expr owned).bind fun _ _ ⟨first, image⟩ =>
      (evalAll_alike iso bound rest owned).bind fun _ _ ⟨later, images⟩ => .result ⟨?_, ?_⟩
    · exact List.forall_mem_cons.mpr ⟨first, later⟩
    · rw [image, images, List.map_cons]

theorem keepAll_alike {values : List (String × Value)}
    (iso : Isomorphism doc doc' rename)
    (bound : ∀ entry ∈ values, entry.2.IsOwned doc) :
    (predicates : List Expr) → {nodes nodes' : List Node} → NodesMatch doc rename nodes nodes' →
      Alike (NodesMatch doc rename) (keepAll (.of doc values) predicates nodes)
        (keepAll (.of doc' (imageValues rename values)) predicates nodes')
  | [], _, _, matched => by
    rw [keepAll, keepAll]
    exact .result matched
  | predicate :: rest, _, _, matched => by
    rw [keepAll, keepAll]
    exact (keep_alike (fun focus owned => eval_alike iso bound predicate owned) matched).bind
      fun _ _ kept => keepAll_alike iso bound rest kept

theorem take_alike {values : List (String × Value)}
    (iso : Isomorphism doc doc' rename)
    (bound : ∀ entry ∈ values, entry.2.IsOwned doc) :
    (step : Step) → {nodes nodes' : List Node} → NodesMatch doc rename nodes nodes' →
      Alike (NodesMatch doc rename) (step.take (.of doc values) nodes)
        (step.take (.of doc' (imageValues rename values)) nodes')
  | .to axis test predicates, _, _, ⟨owned, image⟩ => by
    subst image
    rw [Step.take, Step.take]
    refine (mapM_alike (fun node ownedN => ?_) owned).bind fun _ _ found =>
      .result (collect_match iso axis found)
    exact keepAll_alike iso bound predicates (candidates_match iso axis test ownedN)

theorem follow_alike {values : List (String × Value)}
    (iso : Isomorphism doc doc' rename)
    (bound : ∀ entry ∈ values, entry.2.IsOwned doc) :
    (steps : List Step) → {nodes nodes' : List Node} → NodesMatch doc rename nodes nodes' →
      Alike (NodesMatch doc rename) (follow (.of doc values) steps nodes)
        (follow (.of doc' (imageValues rename values)) steps nodes')
  | [], _, _, matched => by
    rw [follow, follow]
    exact .result matched
  | step :: rest, _, _, matched => by
    rw [follow, follow]
    exact (take_alike iso bound step matched).bind fun _ _ reached =>
      follow_alike iso bound rest reached

end

/-- A query at a node of one tree and at the corresponding node of an isomorphic one, with variables
that correspond, ends alike: with the same fault, the same boolean, number or text, or the
corresponding nodes in the same order. -/
theorem evaluate_image (iso : Isomorphism doc doc' rename) {values : List (String × Value)}
    (bound : ∀ entry ∈ values, entry.2.IsOwned doc) {node : NodeId}
    (attached : doc.isAttached node = true) (query : Query) :
    query.evaluate (.of doc' (imageValues rename values)) (rename node) =
      (query.evaluate (.of doc values) node).map (Value.image rename) := by
  let focus : Focus := ⟨.tree node, 1, 1⟩
  have owned : focus.node.IsOwned doc := attached
  exact (eval_alike iso bound query.expr owned).eq_map fun _ _ matched => matched.2

/-- An element in an element, created in document order. -/
def orderedSample : Document :=
  (Document.empty.grow root (.plainElement "a")).grow ⟨2, 0⟩ (.plainElement "b")

/-- The same tree, of which the inner element was created first and the outer one took over the slot
of a text that was removed. -/
def reusedSample : Document :=
  [.create (.plainElement "b"), .create (.text "t"), .appendChild root ⟨3, 0⟩, .remove ⟨3, 0⟩,
    .create (.plainElement "a"), .appendChild root ⟨3, 1⟩, .appendChild ⟨3, 1⟩ ⟨2, 0⟩].foldl
      Operation.run Document.empty

/-- The query `$b | *` at the document node, with `b` standing for the inner element. -/
theorem evaluate_image_reused :
    (Query.mk "$b | *" (.union (.reference ⟨none, "b"⟩) (.path [.to .child .anyName []]))).evaluate
      (.of reusedSample [("b", .nodes [.tree ⟨2, 0⟩])]) root =
        .ok (.nodes [.tree ⟨3, 1⟩, .tree ⟨2, 0⟩]) := by
  let rename (id : NodeId) : NodeId :=
    if id = ⟨2, 0⟩ then ⟨3, 1⟩ else if id = ⟨3, 0⟩ then ⟨2, 0⟩ else id
  have linked : orderedSample.WellLinked := by
    have outer := (extended_grow wellLinked_empty wellLinked_empty.root_live (.plainElement "a"))
    exact (extended_grow outer.linked ((outer.live_iff _).mpr (.inl rfl)) _).linked
  have linked' : reusedSample.WellLinked := by
    have made := Reachable.step (.create (.plainElement "b")) .empty (by decide)
    have made := Reachable.step (.create (.text "t")) made (by decide)
    have made := Reachable.step (.appendChild root ⟨3, 0⟩) made (by decide)
    have made := Reachable.step (.remove ⟨3, 0⟩) made (by decide)
    have made := Reachable.step (.create (.plainElement "a")) made (by decide)
    have made := Reachable.step (.appendChild root ⟨3, 1⟩) made (by decide)
    exact (Reachable.step (.appendChild ⟨3, 1⟩ ⟨2, 0⟩) made (by decide)).wellLinked
  have iso : Isomorphism orderedSample reusedSample rename :=
    .of_order linked linked' (by decide) (by decide)
  have evaluated : (Query.mk "$b | *" (.union (.reference ⟨none, "b"⟩)
      (.path [.to .child .anyName []]))).evaluate
      (.of orderedSample [("b", .nodes [.tree ⟨3, 0⟩])]) root =
        .ok (.nodes [.tree ⟨2, 0⟩, .tree ⟨3, 0⟩]) := by
    cbv
  have bound : ∀ entry ∈ [("b", Value.nodes [.tree ⟨3, 0⟩])], entry.2.IsOwned orderedSample := by
    have inside : Node.IsOwned orderedSample (.tree ⟨3, 0⟩) :=
      show orderedSample.isAttached ⟨3, 0⟩ = true by decide
    exact List.forall_mem_singleton.mpr (List.forall_mem_singleton.mpr inside)
  have attached : orderedSample.isAttached root = true := by decide
  have image := evaluate_image iso bound attached
    ⟨"$b | *", .union (.reference ⟨none, "b"⟩) (.path [.to .child .anyName []])⟩
  rwa [evaluated] at image

end Markup.XPath
