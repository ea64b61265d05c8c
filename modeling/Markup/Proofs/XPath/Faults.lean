import Markup.Proofs.XPath.Accepted
import Markup.Proofs.XPath.Checked
import Markup.Proofs.XPath.Evaluate

/-!
# What evaluation fails on

The parser counts the arguments of each call. So an expression that was read fails only on variables
without values and on values that are not nodes, and no call takes what is out of range.
-/

namespace Markup.XPath

variable {α β : Type} {scope : Scope} {bindings : Bindings} {values : List (String × Value)}

/-! ## Numbers of arguments -/

mutual

/-- Whether each call in an expression has a number of arguments that the function takes. -/
def Expr.CallsFit : Expr → Prop
  | .number _ | .literal _ | .reference _ => True
  | .binary _ left right | .union left right => left.CallsFit ∧ right.CallsFit
  | .negative operand => operand.CallsFit
  | .call function arguments =>
    function.arity.admits arguments.length = true ∧ CallsFitIn arguments
  | .path steps | .rootPath steps => CallsFitAlong steps
  | .filter base predicates => base.CallsFit ∧ CallsFitIn predicates
  | .pathFrom base steps => base.CallsFit ∧ CallsFitAlong steps

def CallsFitIn : List Expr → Prop
  | [] => True
  | first :: rest => first.CallsFit ∧ CallsFitIn rest

def Step.CallsFit : Step → Prop
  | .to _ _ predicates => CallsFitIn predicates

def CallsFitAlong : List Step → Prop
  | [] => True
  | first :: rest => first.CallsFit ∧ CallsFitAlong rest

end

theorem CallsFitIn.of_mem {exprs : List Expr} {expr : Expr} (fit : CallsFitIn exprs)
    (member : expr ∈ exprs) : expr.CallsFit := by
  induction exprs with
  | nil => cases member
  | cons first rest ih =>
    rcases List.mem_cons.mp member with rfl | later
    · exact fit.1
    · exact ih fit.2 later

theorem CallsFitAlong.append {steps more : List Step} (fit : CallsFitAlong steps)
    (fit' : CallsFitAlong more) : CallsFitAlong (steps ++ more) := by
  induction steps with
  | nil => exact fit'
  | cons first rest ih => exact ⟨fit.1, ih fit.2⟩

/-- Whether the calls fit in what a phrase stands for. -/
def Phrase.CallsFit : Phrase → Prop
  | .layer _ tree | .signed tree | .union tree | .path tree | .location tree | .filtered tree
  | .primary tree => tree.CallsFit
  | .relative steps => CallsFitAlong steps
  | .step next => next.CallsFit
  | .axis _ | .test _ => True
  | .predicates given | .arguments given | .others given => CallsFitIn given

theorem Phrase.callsFit_tighter {tree : Expr} {on : Layer} :
    (Phrase.tighter tree on).CallsFit ↔ tree.CallsFit := by
  cases on <;> rfl

/-- The grammar has no calls with other numbers of arguments. -/
theorem Derives.callsFit {phrase : Phrase} {ts : List Token}
    (derived : Derives bindings phrase ts) : phrase.CallsFit := by
  induction derived with
  | join _ _ _ first second => exact ⟨first, Phrase.callsFit_tighter.mp second⟩
  | operand _ only => exact Phrase.callsFit_tighter.mp only
  | unite _ _ first second | pathFrom _ _ first second | filter _ _ _ first second
  | predicate _ _ first second | argument _ _ first second | other _ _ first second =>
    exact ⟨first, second⟩
  | anywhereFrom _ _ start follows => exact ⟨start, trivial, follows⟩
  | anywhere _ follows => exact ⟨trivial, follows⟩
  | firstStep _ only => exact ⟨only, trivial⟩
  | nextStep _ _ before last => exact before.append ⟨last, trivial⟩
  | anywhereStep _ _ before last => exact before.append ⟨trivial, last, trivial⟩
  | step _ _ _ _ _ keeps => exact keeps
  | call _ _ fits gets => exact ⟨fits, gets⟩
  | negative _ inner | parentheses _ inner => exact inner
  | unsigned _ only | single _ only | location _ only | filtered _ only | relative _ only
  | plain _ only | fromRoot _ only => exact only
  | _ => trivial

/-- In an expression that was read, the calls fit. -/
theorem callsFit_of_ofText {text : String} {tree : Expr}
    (read : Expr.ofText bindings text = .ok tree) : tree.CallsFit := by
  obtain ⟨found, lexed, -⟩ := bind_eq_ok.mp read
  rw [ofText_eq lexed] at read
  split at read
  · cases read
  · obtain ⟨⟨_, rest⟩, done, read⟩ := bind_eq_ok.mp read
    obtain ⟨past, -, derived⟩ := Parser.reads_expression bindings maxDepth _ rfl done
    split at read
    · cases read
      exact derived.callsFit
    · cases read

/-! ## Faults -/

/-- The faults that only the values of variables and the types of values bring about. -/
inductive Fault.IsDynamic (values : List (String × Value)) : Fault → Prop where
  /-- A variable has no value. -/
  | unbound {name : String} (missing : values.lookup name = none) :
      IsDynamic values (.undefinedVariable name)
  /-- A value of another type stands where nodes are needed. -/
  | mistyped {found : ValueType} (other : found ≠ .nodes) :
      IsDynamic values (.nodesExpected found)

/-- Whether an evaluation can fail only on variables and types. -/
def Tame (values : List (String × Value)) (done : Except Fault α) : Prop :=
  ∀ fault, done = .error fault → fault.IsDynamic values

namespace Tame

theorem ok (a : α) : Tame values (.ok a) := nofun

theorem error {fault : Fault} (dynamic : fault.IsDynamic values) :
    Tame values (.error fault : Except Fault α) := by
  rintro _ ⟨⟩
  exact dynamic

theorem bind {first : Except Fault α} {next : α → Except Fault β} (tame : Tame values first)
    (later : ∀ a, first = .ok a → Tame values (next a)) : Tame values (first >>= next) := by
  cases first with
  | error fault => exact .error (tame fault rfl)
  | ok a => exact later a rfl

end Tame

theorem tame_asNodes (value : Value) : Tame values value.asNodes := by
  cases value with
  | nodes found => exact .ok found
  | _ => exact .error (.mistyped nofun)

theorem tame_apply {doc : Document} {focus : Focus} {function : Function} {given : List Value}
    (fits : function.arity.admits given.length = true) :
    Tame values (function.apply doc focus given) := by
  cases function with
  | last | position | truth | falsehood =>
    obtain rfl := nil_of_admits fits
    exact .ok _
  | count | sum =>
    obtain ⟨value, rfl⟩ := one_of_admits fits
    exact (tame_asNodes value).bind fun _ _ => .ok _
  | id =>
    obtain ⟨value, rfl⟩ := one_of_admits fits
    cases value <;> exact .ok _
  | boolean | negation | lang | floor | ceiling | round =>
    obtain ⟨value, rfl⟩ := one_of_admits fits
    exact .ok _
  | localName | namespaceUri | name =>
    obtain rfl | ⟨value, rfl⟩ := optional_of_admits fits
    · exact .ok _
    · exact (tame_asNodes value).bind fun _ _ => .ok _
  | string | stringLength | normalizeSpace | number =>
    obtain rfl | ⟨value, rfl⟩ := optional_of_admits fits <;> exact .ok _
  | startsWith | contains | substringBefore | substringAfter =>
    obtain ⟨value, part, rfl⟩ := two_of_admits fits
    exact .ok _
  | substring =>
    obtain ⟨value, start, rfl⟩ | ⟨value, start, length, rfl⟩ := two_or_three_of_admits fits <;>
      exact .ok _
  | translate =>
    obtain ⟨value, source, target, rfl⟩ := three_of_admits fits
    exact .ok _
  | concat => exact .ok _

theorem tame_keepFrom {holds : Focus → Except Fault Value} {size position : Nat} {nodes : List Node}
    (tame : ∀ focus, Tame values (holds focus)) :
    Tame values (keepFrom holds size position nodes) := by
  induction nodes generalizing position with
  | nil => exact .ok _
  | cons node rest ih => exact (tame _).bind fun _ _ => ih.bind fun _ _ => .ok _

theorem tame_mapM {act : α → Except Fault β} {list : List α} (tame : ∀ a, Tame values (act a)) :
    Tame values (list.mapM act) := by
  induction list with
  | nil => exact .ok _
  | cons first rest ih =>
    rw [List.mapM_cons]
    exact (tame first).bind fun _ _ => ih.bind fun _ _ => .ok _

theorem tame_lookup (name : String) : Tame scope.values (scope.lookup name) := by
  rw [Scope.lookup]
  split
  · exact .ok _
  · next missing => exact .error (.unbound missing)

theorem tame_binary (op : Operator) {left right : Expr} {focus : Focus}
    (first : Tame values (left.eval scope focus)) (second : Tame values (right.eval scope focus)) :
    Tame values ((Expr.binary op left right).eval scope focus) := by
  cases op with
  | or | and =>
    rw [Expr.eval]
    refine first.bind fun x _ => ?_
    split
    all_goals first | exact .ok _ | exact second.bind fun _ _ => .ok _
  | equal | notEqual | relation _ | arithmetic _ =>
    rw [Expr.eval]
    exact first.bind fun _ _ => second.bind fun _ _ => .ok _

theorem length_of_evalAll {exprs : List Expr} {focus : Focus} {given : List Value}
    (evaluated : evalAll scope exprs focus = .ok given) : given.length = exprs.length := by
  induction exprs generalizing given with
  | nil =>
    rw [evalAll] at evaluated
    cases evaluated
    rfl
  | cons first rest ih =>
    rw [evalAll] at evaluated
    obtain ⟨value, -, evaluated⟩ := bind_eq_ok.mp evaluated
    obtain ⟨others, later, evaluated⟩ := bind_eq_ok.mp evaluated
    cases evaluated
    exact congrArg (· + 1) (ih later)

mutual

/-- Where the calls fit, evaluation fails only on variables and types. -/
theorem tame_eval (scope : Scope) : (expr : Expr) → expr.CallsFit → (focus : Focus) →
    Tame scope.values (expr.eval scope focus)
  | .number _, _, _ | .literal _, _, _ => by
    rw [Expr.eval]
    exact .ok _
  | .reference name, _, _ => by
    rw [Expr.eval]
    exact tame_lookup _
  | .binary op left right, ⟨first, second⟩, focus =>
    tame_binary op (tame_eval scope left first focus) (tame_eval scope right second focus)
  | .negative operand, fit, focus => by
    rw [Expr.eval]
    exact (tame_eval scope operand fit focus).bind fun _ _ => .ok _
  | .call function arguments, ⟨fits, fit⟩, focus => by
    rw [Expr.eval]
    -- The parser has counted the arguments; the function looks at their values.
    refine (tame_evalAll scope arguments fit focus).bind fun given evaluated => tame_apply ?_
    rwa [length_of_evalAll evaluated]
  | .path steps, fit, focus => by
    rw [Expr.eval]
    exact (tame_follow scope steps fit _).bind fun _ _ => .ok _
  | .rootPath steps, fit, focus => by
    rw [Expr.eval]
    exact (tame_follow scope steps fit _).bind fun _ _ => .ok _
  | .filter base predicates, ⟨first, fit⟩, focus => by
    rw [Expr.eval]
    exact (tame_eval scope base first focus).bind fun given _ => (tame_asNodes given).bind
      fun found _ => (tame_keepAll scope predicates fit found).bind fun _ _ => .ok _
  | .pathFrom base steps, ⟨first, fit⟩, focus => by
    rw [Expr.eval]
    exact (tame_eval scope base first focus).bind fun given _ => (tame_asNodes given).bind
      fun found _ => (tame_follow scope steps fit found).bind fun _ _ => .ok _
  | .union left right, ⟨first, second⟩, focus => by
    rw [Expr.eval]
    exact (tame_eval scope left first focus).bind fun one _ => (tame_asNodes one).bind
      fun _ _ => (tame_eval scope right second focus).bind fun other _ =>
        (tame_asNodes other).bind fun _ _ => .ok _

theorem tame_evalAll (scope : Scope) : (exprs : List Expr) → CallsFitIn exprs → (focus : Focus) →
    Tame scope.values (evalAll scope exprs focus)
  | [], _, _ => by
    rw [evalAll]
    exact .ok _
  | first :: rest, ⟨fit, fits⟩, focus => by
    rw [evalAll]
    exact (tame_eval scope first fit focus).bind fun _ _ =>
      (tame_evalAll scope rest fits focus).bind fun _ _ => .ok _

theorem tame_keepAll (scope : Scope) : (predicates : List Expr) → CallsFitIn predicates →
    (nodes : List Node) → Tame scope.values (keepAll scope predicates nodes)
  | [], _, nodes => by
    rw [keepAll]
    exact .ok _
  | first :: rest, ⟨fit, fits⟩, nodes => by
    rw [keepAll]
    exact (tame_keepFrom fun focus => tame_eval scope first fit focus).bind fun kept _ =>
      tame_keepAll scope rest fits kept

theorem tame_take (scope : Scope) : (step : Step) → step.CallsFit → (nodes : List Node) →
    Tame scope.values (step.take scope nodes)
  | .to axis test predicates, fit, nodes => by
    rw [Step.take]
    exact (tame_mapM fun node => tame_keepAll scope predicates fit _).bind fun _ _ => .ok _

theorem tame_follow (scope : Scope) : (steps : List Step) → CallsFitAlong steps →
    (nodes : List Node) → Tame scope.values (follow scope steps nodes)
  | [], _, nodes => by
    rw [follow]
    exact .ok _
  | first :: rest, ⟨fit, fits⟩, nodes => by
    rw [follow]
    exact (tame_take scope first fit nodes).bind fun found _ => tame_follow scope rest fits found

end

end Markup.XPath
