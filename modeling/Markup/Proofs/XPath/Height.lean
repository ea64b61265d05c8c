import Mathlib.Order.Monotone.Basic
import Mathlib.Tactic.Ring
import Markup.Proofs.XPath.Derived

/-!
# How tall an expression that is read can be

The parser counts how deep it is: one level for each whole expression, each operator and each sign.
The levels of an expression are given back after it. What is read after an operator stands deeper
than what was read before it, but the operator goes above both. So the count limits the chains that
go to the right, while those that go to the left are taller by one for each operator on each level.
-/

namespace Markup.XPath

/-! ## Height -/

mutual

/-- The number of expressions on the longest way down, if the way to a left operand counts as
`left` of them. -/
def Expr.reach (left : Nat) : Expr → Nat
  | .number _ | .literal _ | .reference _ => 1
  | .binary _ one other | .union one other => max (left + one.reach left) (1 + other.reach left)
  | .negative operand => 1 + operand.reach left
  | .call _ arguments => 1 + reachAll left arguments
  | .path steps | .rootPath steps => 1 + reachSteps left steps
  | .filter base predicates => 1 + max (base.reach left) (reachAll left predicates)
  | .pathFrom base steps => 1 + max (base.reach left) (reachSteps left steps)

def reachAll (left : Nat) : List Expr → Nat
  | [] => 0
  | first :: rest => max (first.reach left) (reachAll left rest)

def Step.reach (left : Nat) : Step → Nat
  | .to _ _ predicates => reachAll left predicates

def reachSteps (left : Nat) : List Step → Nat
  | [] => 0
  | first :: rest => max (first.reach left) (reachSteps left rest)

end

/-- The number of expressions on the longest way down. -/
def Expr.height (tree : Expr) : Nat := tree.reach 1

mutual

/-- Whether no operator has a taller operand before it than after it. -/
def Expr.LeansRight : Expr → Prop
  | .number _ | .literal _ | .reference _ => True
  | .binary _ one other | .union one other =>
    one.height ≤ other.height ∧ one.LeansRight ∧ other.LeansRight
  | .negative operand => operand.LeansRight
  | .call _ arguments => LeanRight arguments
  | .path steps | .rootPath steps => StepsLeanRight steps
  | .filter base predicates => base.LeansRight ∧ LeanRight predicates
  | .pathFrom base steps => base.LeansRight ∧ StepsLeanRight steps

def LeanRight : List Expr → Prop
  | [] => True
  | first :: rest => first.LeansRight ∧ LeanRight rest

def Step.LeansRight : Step → Prop
  | .to _ _ predicates => LeanRight predicates

def StepsLeanRight : List Step → Prop
  | [] => True
  | first :: rest => first.LeansRight ∧ StepsLeanRight rest

end

theorem Expr.reach_pos (left : Nat) (tree : Expr) : 0 < tree.reach left := by
  cases tree <;> simp only [reach] <;> omega

mutual

/-- The way to a left operand is never needed where no left operand is taller. -/
theorem Expr.LeansRight.height_eq : ∀ {tree : Expr}, tree.LeansRight → tree.height = tree.reach 0
  | .number _, _ | .literal _, _ | .reference _, _ => rfl
  | .binary _ one other, ⟨shorter, first, second⟩ | .union one other, ⟨shorter, first, second⟩ => by
    have one := first.height_eq
    have other := second.height_eq
    simp only [Expr.height, Expr.reach] at *
    omega
  | .negative operand, leans => congrArg (1 + ·) (Expr.LeansRight.height_eq leans)
  | .call _ arguments, leans => congrArg (1 + ·) (reachAll_eq leans)
  | .path steps, leans | .rootPath steps, leans =>
    congrArg (1 + ·) (reachSteps_eq leans)
  | .filter base predicates, ⟨first, second⟩ =>
    congrArg (1 + ·) (congrArg₂ max first.height_eq (reachAll_eq second))
  | .pathFrom base steps, ⟨first, second⟩ =>
    congrArg (1 + ·) (congrArg₂ max first.height_eq (reachSteps_eq second))

theorem reachAll_eq : ∀ {trees : List Expr}, LeanRight trees → reachAll 1 trees = reachAll 0 trees
  | [], _ => rfl
  | _ :: _, ⟨first, rest⟩ => congrArg₂ max first.height_eq (reachAll_eq rest)

theorem Step.LeansRight.reach_eq : ∀ {step : Step}, step.LeansRight → step.reach 1 = step.reach 0
  | .to _ _ _, leans => reachAll_eq leans

theorem reachSteps_eq :
    ∀ {steps : List Step}, StepsLeanRight steps → reachSteps 1 steps = reachSteps 0 steps
  | [], _ => rfl
  | _ :: _, ⟨first, rest⟩ => congrArg₂ max first.reach_eq (reachSteps_eq rest)

end

/-! ## Limits -/

/-- The most that an expression reaches that has so many levels left. -/
def mostReach (left : Nat) : Nat → Nat
  | 0 => 0
  | room + 1 => 2 + min 1 room + mostReach left room + left * room

/-- The most that a single operand reaches: a call, filtered, with a path behind it, if there are
levels left for arguments and predicates. -/
def mostOperand (left room : Nat) : Nat := 2 + min 1 room + mostReach left room

theorem mostOperand_succ (left room : Nat) :
    mostOperand left room < mostOperand left (room + 1) := by
  simp only [mostOperand, mostReach]
  omega

theorem mostOperand_mono (left : Nat) : Monotone (mostOperand left) :=
  monotone_nat_of_le_succ fun room => (mostOperand_succ left room).le

theorem mostOperand_lt (left : Nat) {depth middle : Nat} (le : depth ≤ middle)
    (room : middle < maxDepth) :
    mostOperand left (maxDepth - (middle + 1)) < mostOperand left (maxDepth - depth) :=
  (mostOperand_succ ..).trans_le (mostOperand_mono left (by omega))

/-- All levels but the last add what an operand and the operators after it do. -/
theorem two_mul_mostReach (left room : Nat) :
    2 * mostReach left (room + 1) = 4 + 6 * room + left * (room * (room + 1)) := by
  induction room with
  | zero => rfl
  | succ room ih =>
    have step : mostReach left (room + 2) = 3 + mostReach left (room + 1) + left * (room + 1) := by
      rw [mostReach.eq_2]
      omega
    rw [step, Nat.mul_add, Nat.mul_add, ih]
    ring

namespace Parser

variable {α β : Type} {parser : Parser α} {next : α → Parser β} {depth left : Nat}
  {bindings : Bindings} {nested : Parser Expr}

/-! ## Depths -/

/-- Where the parser succeeds from a given depth on, its value fits the depth that it leaves. -/
def Leaves (depth : Nat) (parser : Parser α) (fits : α → Nat → Prop) : Prop :=
  ∀ ⦃pending later : Pending⦄ ⦃a : α⦄, pending.depth = depth →
    parser.run pending = .ok (a, later) → fits a later.depth

/-- A parser that counts nothing, with a fact about its value. -/
def Stays (depth : Nat) (parser : Parser α) (fits : α → Prop) : Prop :=
  Leaves depth parser fun a finish => finish = depth ∧ fits a

namespace Leaves

variable {fits : α → Nat → Prop} {goal : β → Nat → Prop}

theorem pure {a : α} (fitting : fits a depth) : Leaves depth (pure a : Parser α) fits := by
  rintro pending _ _ rfl ⟨⟩
  exact fitting

theorem bind (first : Leaves depth parser fits)
    (second : ∀ a middle, fits a middle → Leaves middle (next a) goal) :
    Leaves depth (parser >>= next) goal := by
  intro pending later b starts done
  obtain ⟨a, middle, one, two⟩ := run_bind_eq_ok.mp done
  exact second a _ (first starts one) rfl two

theorem mono {fits' : α → Nat → Prop} (leaves : Leaves depth parser fits)
    (weaker : ∀ a finish, fits a finish → fits' a finish) : Leaves depth parser fits' :=
  fun _ _ _ starts done => weaker _ _ (leaves starts done)

theorem peek {next : Option Token → Parser β} (branch : ∀ found, Leaves depth (next found) goal) :
    Leaves depth (peek >>= next) goal :=
  fun _ _ _ starts done => branch _ starts done

theorem remaining {next : Nat → Parser β} (rest : ∀ rounds, Leaves depth (next rounds) goal) :
    Leaves depth (remaining >>= next) goal :=
  fun _ _ _ starts done => rest _ starts done

theorem throw {fault : Fault} : Leaves depth (throw fault : Parser α) fits := by
  rintro _ _ _ - ⟨⟩

theorem fail {problem : SyntaxProblem} : Leaves depth (fail problem : Parser α) fits := by
  rintro _ _ _ - ⟨⟩

theorem failExpecting {wanted : Wanted} :
    Leaves depth (failExpecting wanted : Parser α) fits := by
  rintro _ _ _ - ⟨⟩

theorem advance {next : Unit → Parser β} (rest : Leaves depth (next ()) goal) :
    Leaves depth (advance >>= next) goal := by
  intro pending later b starts done
  obtain ⟨_, middle, ⟨⟩, done⟩ := run_bind_eq_ok.mp done
  exact @rest { pending with tokens := pending.tokens.tail } later b starts done

/-- A parser that counts nothing goes before another. -/
theorem stays {fits : α → Prop} (first : Stays depth parser fits)
    (second : ∀ a, fits a → Leaves depth (next a) goal) : Leaves depth (parser >>= next) goal := by
  refine first.bind ?_
  rintro a _ ⟨rfl, fitting⟩
  exact second a fitting

theorem eat {symbol : Symbol} {next : Bool → Parser β}
    (rest : ∀ eaten, Leaves depth (next eaten) goal) : Leaves depth (eat symbol >>= next) goal := by
  have still : Stays depth (Parser.eat symbol) fun _ => True := by
    rw [eat_eq]
    refine .peek fun found => ?_
    split
    · exact .advance (.pure ⟨rfl, trivial⟩)
    · exact .pure ⟨rfl, trivial⟩
  exact .stays still fun eaten _ => rest eaten

theorem expect {symbol : Symbol} {next : Unit → Parser β} (rest : Leaves depth (next ()) goal) :
    Leaves depth (expect symbol >>= next) goal := by
  have still : Stays depth (Parser.expect symbol) fun _ => True := by
    refine .eat fun eaten => ?_
    cases eaten with
    | true => exact .pure ⟨rfl, trivial⟩
    | false => exact .failExpecting
  exact .stays still fun _ _ => rest

theorem sees {symbol : Symbol} {next : Bool → Parser β}
    (rest : ∀ seen, Leaves depth (next seen) goal) : Leaves depth (sees symbol >>= next) goal :=
  fun _ _ _ starts done => rest _ starts done

theorem require {nsPrefix : String} {next : String → Parser β}
    (rest : ∀ uri, Leaves depth (next uri) goal) :
    Leaves depth (require bindings nsPrefix >>= next) goal := by
  have still : Stays depth (Parser.require bindings nsPrefix) fun _ => True := by
    rintro pending later uri rfl done
    obtain ⟨found, -, done⟩ := bind_eq_ok.mp done
    cases done
    exact ⟨rfl, trivial⟩
  exact .stays still fun uri _ => rest uri

/-- There is room for the level that is gone down. -/
theorem descend {next : Unit → Parser β}
    (rest : depth < maxDepth → Leaves (depth + 1) (next ()) goal) :
    Leaves depth (descend >>= next) goal := by
  have deeper : Leaves depth Parser.descend fun _ finish =>
      finish = depth + 1 ∧ depth < maxDepth := by
    rintro pending later _ rfl done
    unfold Parser.descend at done
    obtain ⟨_, deeper, moved, done⟩ := run_bind_eq_ok.mp done
    obtain ⟨_, _, got, done⟩ := run_bind_eq_ok.mp done
    cases moved
    cases got
    split at done
    · cases done
    · cases done
      exact ⟨rfl, Nat.not_lt.mp ‹_›⟩
  refine deeper.bind ?_
  rintro _ _ ⟨rfl, room⟩
  exact rest room

end Leaves

/-! ## Operands

What is nested in an operand has the levels that are left below it, and gives them back. -/

/-- Whether a parser yields no expression that reaches further than the levels left allow. -/
def Nests (left depth : Nat) (nested : Parser Expr) : Prop :=
  Stays depth nested fun tree => tree.reach left ≤ mostReach left (maxDepth - depth)

section Operands

variable (inner : Nests left depth nested)

include inner

theorem stays_predicates (rounds : Nat) : Stays depth (predicates nested rounds) fun found =>
    reachAll left found ≤ mostReach left (maxDepth - depth) := by
  induction rounds with
  | zero => exact .pure ⟨rfl, Nat.zero_le _⟩
  | succ rounds ih =>
    refine .eat fun eaten => ?_
    cases eaten with
    | true =>
      exact .stays inner fun predicate first => .expect (.stays ih fun more rest =>
        .pure ⟨rfl, Nat.max_le.mpr ⟨first, rest⟩⟩)
    | false => exact .pure ⟨rfl, Nat.zero_le _⟩

theorem stays_allPredicates : Stays depth (allPredicates nested) fun found =>
    reachAll left found ≤ mostReach left (maxDepth - depth) :=
  .remaining (stays_predicates inner)

end Operands

theorem stays_resolve (pattern : NamePattern) :
    Stays depth (resolve bindings pattern) fun _ => True := by
  match pattern with
  | .any | .exactly ⟨none, localName⟩ => exact .pure ⟨rfl, trivial⟩
  | .anyOf nsPrefix | .exactly ⟨some nsPrefix, localName⟩ =>
    exact .require fun uri => .pure ⟨rfl, trivial⟩

theorem stays_typeTest (type : NodeType) : Stays depth (typeTest type) fun _ => True := by
  cases type with
  | instruction =>
    refine .peek fun found => ?_
    split
    · exact .advance (.pure ⟨rfl, trivial⟩)
    · exact .pure ⟨rfl, trivial⟩
  | _ => exact .pure ⟨rfl, trivial⟩

theorem stays_nodeTest : Stays depth (nodeTest bindings) fun _ => True := by
  refine .peek fun found => ?_
  split
  · exact .advance (.expect (.stays (stays_typeTest _) fun _ _ => .expect (.pure ⟨rfl, trivial⟩)))
  · exact .advance (stays_resolve _)
  · exact .failExpecting

theorem stays_axis : Stays depth axis fun _ => True := by
  refine .eat fun eaten => ?_
  split
  · exact .pure ⟨rfl, trivial⟩
  · refine .peek fun found => ?_
    split
    · split
      · exact .fail
      · exact .advance (.expect (.pure ⟨rfl, trivial⟩))
    · exact .pure ⟨rfl, trivial⟩

section Operands

variable (inner : Nests left depth nested)

include inner

theorem stays_step : Stays depth (step bindings nested) fun step =>
    step.reach left ≤ mostReach left (maxDepth - depth) := by
  refine .eat fun eaten => ?_
  split
  · exact .pure ⟨rfl, Nat.zero_le _⟩
  · refine .eat fun eaten => ?_
    split
    · exact .pure ⟨rfl, Nat.zero_le _⟩
    · exact .stays stays_axis fun axis _ => .stays stays_nodeTest fun test _ =>
        .stays (stays_allPredicates inner) fun found fits => .pure ⟨rfl, fits⟩

theorem stays_moreSteps (rounds : Nat) : Stays depth (moreSteps bindings nested rounds) fun found =>
    reachSteps left found ≤ mostReach left (maxDepth - depth) := by
  induction rounds with
  | zero => exact .pure ⟨rfl, Nat.zero_le _⟩
  | succ rounds ih =>
    refine .eat fun eaten => ?_
    split
    · refine .stays (stays_step inner) fun step first => .stays ih fun more rest => .pure ⟨rfl, ?_⟩
      exact Nat.max_le.mpr ⟨Nat.zero_le _, Nat.max_le.mpr ⟨first, rest⟩⟩
    · refine .eat fun eaten => ?_
      split
      · exact .stays (stays_step inner) fun step first => .stays ih fun more rest =>
          .pure ⟨rfl, Nat.max_le.mpr ⟨first, rest⟩⟩
      · exact .pure ⟨rfl, Nat.zero_le _⟩

theorem stays_steps : Stays depth (steps bindings nested) fun found =>
    reachSteps left found ≤ mostReach left (maxDepth - depth) :=
  .stays (stays_step inner) fun _ first => .remaining fun rounds =>
    .stays (stays_moreSteps inner rounds) fun _ rest => .pure ⟨rfl, Nat.max_le.mpr ⟨first, rest⟩⟩

theorem stays_moreArguments (rounds : Nat) :
    Stays depth (moreArguments nested rounds) fun found =>
      reachAll left found ≤ mostReach left (maxDepth - depth) := by
  induction rounds with
  | zero => exact .pure ⟨rfl, Nat.zero_le _⟩
  | succ rounds ih =>
    refine .eat fun eaten => ?_
    split
    · exact .stays inner fun argument first => .stays ih fun more rest =>
        .pure ⟨rfl, Nat.max_le.mpr ⟨first, rest⟩⟩
    · exact .pure ⟨rfl, Nat.zero_le _⟩

theorem stays_arguments : Stays depth (arguments nested) fun found =>
    reachAll left found ≤ mostReach left (maxDepth - depth) := by
  refine .sees fun closes => ?_
  split
  · exact .pure ⟨rfl, Nat.zero_le _⟩
  · exact .stays inner fun argument first => .remaining fun rounds =>
      .stays (stays_moreArguments inner rounds) fun more rest =>
        .pure ⟨rfl, Nat.max_le.mpr ⟨first, rest⟩⟩

theorem stays_call (name : String) : Stays depth (call nested name) fun tree =>
    tree.reach left ≤ 1 + mostReach left (maxDepth - depth) := by
  unfold call
  split
  · exact .throw
  · refine .expect (.stays (stays_arguments inner) fun given fits => .expect ?_)
    split
    · exact .pure ⟨rfl, Nat.add_le_add_left fits 1⟩
    · exact .throw

theorem stays_primary : Stays depth (primary bindings nested) fun tree =>
    tree.reach left ≤ 1 + mostReach left (maxDepth - depth) := by
  refine .peek fun found => ?_
  split
  · refine .advance ?_
    split
    · exact .require fun _ => .pure ⟨rfl, Nat.le_add_right ..⟩
    · exact .pure ⟨rfl, Nat.le_add_right ..⟩
  · exact .advance (.pure ⟨rfl, Nat.le_add_right ..⟩)
  · exact .advance (.pure ⟨rfl, Nat.le_add_right ..⟩)
  · exact .advance (.stays inner fun tree fits =>
      .expect (.pure ⟨rfl, fits.trans (Nat.le_add_left ..)⟩))
  · exact .advance (stays_call inner _)
  · exact .failExpecting

/-- Predicates are only read where there are levels left. -/
theorem stays_filtered : Stays depth (filtered bindings nested) fun tree =>
    tree.reach left + 1 ≤ mostOperand left (maxDepth - depth) := by
  refine .stays (stays_primary inner) fun base fits => .stays (stays_allPredicates inner)
    fun given keeps => ?_
  split
  · refine .pure ⟨rfl, ?_⟩
    simp only [mostOperand]
    omega
  · rename_i nonempty
    refine .pure ⟨rfl, ?_⟩
    cases given with
    | nil => exact absurd rfl nonempty
    | cons first rest =>
      have room : 0 < mostReach left (maxDepth - depth) :=
        (first.reach_pos left).trans_le ((Nat.le_max_left _ (reachAll left rest)).trans keeps)
      have : 0 < maxDepth - depth := by
        refine Nat.pos_of_ne_zero fun none => ?_
        rw [none] at room
        cases room
      simp only [mostOperand, Expr.reach]
      omega

theorem stays_locationPath : Stays depth (locationPath bindings nested) fun tree =>
    tree.reach left ≤ mostOperand left (maxDepth - depth) := by
  have fits {reached : Nat} (fits : reached ≤ mostReach left (maxDepth - depth)) :
      1 + reached ≤ mostOperand left (maxDepth - depth) := by
    simp only [mostOperand]
    omega
  refine .eat fun eaten => ?_
  split
  · refine .peek fun found => ?_
    split
    · exact .stays (stays_steps inner) fun steps most => .pure ⟨rfl, fits most⟩
    · exact .pure ⟨rfl, fits (Nat.zero_le _)⟩
  · refine .eat fun eaten => ?_
    split
    · exact .stays (stays_steps inner) fun steps most =>
        .pure ⟨rfl, fits (Nat.max_le.mpr ⟨Nat.zero_le _, most⟩)⟩
    · exact .stays (stays_steps inner) fun steps most => .pure ⟨rfl, fits most⟩

theorem stays_operand : Stays depth (operand bindings nested) fun tree =>
    tree.reach left ≤ mostOperand left (maxDepth - depth) := by
  refine .peek fun found => ?_
  split
  · exact stays_locationPath inner
  · refine .stays (stays_filtered inner) fun base most => ?_
    have fits {steps : List Step}
        (goes : reachSteps left steps ≤ mostReach left (maxDepth - depth)) :
        (Expr.pathFrom base steps).reach left ≤ mostOperand left (maxDepth - depth) := by
      simp only [mostOperand, Expr.reach] at *
      omega
    refine .eat fun eaten => ?_
    split
    · exact .stays (stays_steps inner) fun steps goes =>
        .pure ⟨rfl, fits (Nat.max_le.mpr ⟨Nat.zero_le _, goes⟩)⟩
    · refine .eat fun eaten => ?_
      split
      · exact .stays (stays_steps inner) fun steps goes => .pure ⟨rfl, fits goes⟩
      · exact .pure ⟨rfl, (Nat.le_succ _).trans most⟩

end Operands

/-! ## Operators -/

/-- What an expression without surroundings reaches that is read from one depth to another. -/
structure Within (left depth : Nat) (tree : Expr) (finish : Nat) : Prop where
  le : depth ≤ finish
  le_max : finish ≤ maxDepth
  reach_le : tree.reach left ≤ mostOperand left (maxDepth - depth) + left * (finish - depth)

/-- What goes after an operator reaches no further above the operator than what goes before it may
without it. -/
theorem Within.join {tree one other : Expr} {middle finish : Nat}
    (first : Within left depth one middle) (room : middle < maxDepth)
    (second : Within left (middle + 1) other finish)
    (joined : tree.reach left = max (left + one.reach left) (1 + other.reach left)) :
    Within left depth tree finish := by
  obtain ⟨le, -, one⟩ := first
  obtain ⟨le', le_max, other⟩ := second
  refine ⟨by omega, le_max, ?_⟩
  have before : left * (middle - depth) + left ≤ left * (finish - depth) := by
    rw [← Nat.mul_succ]
    exact Nat.mul_le_mul_left left (by omega)
  have after : left * (finish - (middle + 1)) ≤ left * (finish - depth) :=
    Nat.mul_le_mul_left left (by omega)
  have shallower := mostOperand_lt left le room
  omega

/-- A parser whose values stay within bounds wherever it starts. -/
def Bounded (left : Nat) (parser : Parser Expr) : Prop :=
  ∀ depth ≤ maxDepth, Leaves depth parser (Within left depth)

section Operators

variable {one : Parser Expr} (bounded : Bounded left one)

include bounded

theorem leaves_moreUnions (rounds : Nat) {before : Expr} {middle : Nat}
    (first : Within left depth before middle) :
    Leaves middle (moreUnions one rounds before) (Within left depth) := by
  induction rounds generalizing before middle with
  | zero => exact .pure first
  | succ rounds ih =>
    refine .eat fun eaten => ?_
    split
    · exact .descend fun room => (bounded _ room).bind fun after finish second =>
        ih (first.join room second rfl)
    · exact .pure first

theorem bounded_union : Bounded left (union one) := fun depth le =>
  (bounded depth le).bind fun _ _ first => .remaining fun rounds =>
    leaves_moreUnions bounded rounds first

theorem bounded_signed (rounds : Nat) : Bounded left (signed one rounds) := by
  induction rounds with
  | zero => exact bounded
  | succ rounds ih =>
    intro depth le
    refine .eat fun eaten => ?_
    split
    · refine .descend fun room => (ih (depth + 1) room).bind fun tree finish ⟨le, le_max, most⟩ =>
        .pure ?_
      refine ⟨by omega, le_max, ?_⟩
      have after : left * (finish - (depth + 1)) ≤ left * (finish - depth) :=
        Nat.mul_le_mul_left left (by omega)
      have shallower := mostOperand_lt left (Nat.le_refl depth) room
      simp only [Expr.reach]
      omega
    · exact bounded depth le

theorem bounded_allSigned : Bounded left (allSigned one) :=
  fun depth le => .remaining fun rounds => bounded_signed bounded rounds depth le

theorem leaves_moreOperators (level rounds : Nat) {before : Expr} {middle : Nat}
    (first : Within left depth before middle) :
    Leaves middle (moreOperators level one rounds before) (Within left depth) := by
  induction rounds generalizing before middle with
  | zero => exact .pure first
  | succ rounds ih =>
    refine .peek fun found => ?_
    split
    · split
      · exact .advance (.descend fun room => (bounded _ room).bind fun after finish second =>
          ih (first.join room second rfl))
      · exact .pure first
    · exact .pure first

theorem bounded_joined (level : Nat) : Bounded left (joined level one) := fun depth le =>
  (bounded depth le).bind fun _ _ first => .remaining fun rounds =>
    leaves_moreOperators bounded level rounds first

theorem bounded_layers (levels : List Nat) : Bounded left (levels.foldr joined one) := by
  induction levels with
  | nil => exact bounded
  | cons level levels ih => exact bounded_joined ih level

end Operators

/-- An expression reaches no further than the levels left allow, and gives them back. -/
theorem nests_expression (left : Nat) (bindings : Bindings) (room depth : Nat) :
    Nests left depth (expression bindings room) := by
  induction room generalizing depth with
  | zero =>
    rintro pending later tree - done
    cases done
  | succ room ih =>
    have layers : Bounded left (Operator.levels.foldr joined
        (allSigned (union (operand bindings (expression bindings room))))) := by
      refine bounded_layers (bounded_allSigned (bounded_union fun depth le => ?_)) _
      refine (stays_operand (ih depth)).mono ?_
      rintro tree _ ⟨rfl, most⟩
      exact ⟨Nat.le_refl _, le, by omega⟩
    have whole : Leaves depth (descend >>= fun _ => Operator.levels.foldr joined
        (allSigned (union (operand bindings (expression bindings room))))) fun tree _ =>
          tree.reach left ≤ mostReach left (maxDepth - depth) := by
      refine .descend fun more =>
        (layers (depth + 1) more).mono fun tree finish ⟨_, le_max, most⟩ => ?_
      have below : maxDepth - depth = maxDepth - (depth + 1) + 1 := by omega
      have after : left * (finish - (depth + 1)) ≤ left * (maxDepth - (depth + 1)) :=
        Nat.mul_le_mul_left left (by omega)
      rw [below, mostReach]
      rw [mostOperand] at most
      omega
    rintro pending later tree rfl done
    obtain ⟨_, _, got, done⟩ := run_bind_eq_ok.mp done
    cases got
    obtain ⟨_, deeper, descended, done⟩ := run_bind_eq_ok.mp done
    obtain ⟨tree', middle, read, done⟩ := run_bind_eq_ok.mp done
    cases done
    exact ⟨rfl, whole rfl (run_bind_eq_ok.mpr ⟨_, _, descended, read⟩)⟩

end Parser

end Markup.XPath
