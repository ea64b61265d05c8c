import Markup.Proofs.Xml.Atoms
import Markup.Proofs.Xml.Tally

/-!
# Blank texts in trees

Blank texts can be left out of a tree before the texts that stand beside each other are joined, or
after. The two come to the same exactly if no blank text stands beside one that is not blank.
-/

namespace Markup

namespace Tree

/-- Whether a node is a text of nothing but blanks of ASCII. -/
def isBlank (tree : Tree) : Bool :=
  match tree.kind with
  | .text content => content.toList.all Text.isAsciiBlank
  | _ => false

mutual

/-- A tree without the nodes below it that are dropped. -/
def without (drops : Tree → Bool) : Tree → Tree
  | .node kind children => .node kind (withoutAll drops children)

/-- Trees without those of them, and of the nodes below them, that are dropped. -/
def withoutAll (drops : Tree → Bool) : List Tree → List Tree
  | [] => []
  | tree :: rest =>
    if drops tree then withoutAll drops rest else without drops tree :: withoutAll drops rest

end

/-- Two trees that are not a blank text and one that is not blank. -/
def SameBlankness (left right : Tree) : Prop :=
  Xml.isText left = true → Xml.isText right = true → left.isBlank = right.isBlank

mutual

/-- Whether no blank text in a tree stands beside one that is not blank. -/
def Unmixed : Tree → Prop
  | .node _ children => UnmixedAll children ∧ children.IsChain SameBlankness

/-- Whether no blank text below some trees stands beside one that is not blank. -/
def UnmixedAll : List Tree → Prop
  | [] => True
  | tree :: rest => Unmixed tree ∧ UnmixedAll rest

end

mutual

/-- Whether each text in a tree has characters, and nothing below it. -/
def Solid : Tree → Prop
  | .node (.text content) children => content.toList ≠ [] ∧ children = []
  | .node _ children => SolidAll children

/-- Whether each text in some trees has characters, and nothing below it. -/
def SolidAll : List Tree → Prop
  | [] => True
  | tree :: rest => Solid tree ∧ SolidAll rest

end

section

variable {drops : Tree → Bool} {tree : Tree} {trees others : List Tree}

@[simp] theorem kind_joined : (joined tree).kind = tree.kind := by cases tree; rfl

@[simp] theorem kind_without : (tree.without drops).kind = tree.kind := by cases tree; rfl

@[simp] theorem isBlank_joined : (joined tree).isBlank = tree.isBlank := by
  rw [isBlank, isBlank, kind_joined]

@[simp] theorem isBlank_text {content : String} {children : List Tree} :
    (node (.text content) children).isBlank = content.toList.all Text.isAsciiBlank := rfl

theorem isBlank_text_append {earlier content : String} (same :
    earlier.toList.all Text.isAsciiBlank = content.toList.all Text.isAsciiBlank) :
    (leaf (.text (earlier ++ content))).isBlank = content.toList.all Text.isAsciiBlank := by
  rw [leaf, isBlank_text, String.toList_append, List.all_append, same, Bool.and_self]

theorem unmixedAll_iff : UnmixedAll trees ↔ ∀ tree ∈ trees, Unmixed tree := by
  induction trees with
  | nil => simp [UnmixedAll]
  | cons tree rest ih => rw [UnmixedAll, ih, List.forall_mem_cons]

theorem solidAll_iff : SolidAll trees ↔ ∀ tree ∈ trees, Solid tree := by
  induction trees with
  | nil => simp [SolidAll]
  | cons tree rest ih => rw [SolidAll, ih, List.forall_mem_cons]

/-- What is below a node in which texts are solid is solid. -/
theorem Solid.below {kind : NodeKind} {children : List Tree} (solid : Solid (node kind children)) :
    SolidAll children := by
  cases kind with
  | text => exact solid.2 ▸ trivial
  | _ => exact solid

theorem withoutAll_append :
    withoutAll drops (trees ++ others) = withoutAll drops trees ++ withoutAll drops others := by
  induction trees with
  | nil => rfl
  | cons tree rest ih =>
    rw [List.cons_append, withoutAll, withoutAll, ih]
    split <;> rfl

theorem withoutAll_reverse : withoutAll drops trees.reverse = (withoutAll drops trees).reverse := by
  induction trees with
  | nil => rfl
  | cons tree rest ih =>
    rw [List.reverse_cons, withoutAll_append, ih, withoutAll]
    split
    · rename_i dropped
      simp [withoutAll, dropped]
    · rename_i kept
      simp [withoutAll, kept]

theorem exists_of_mem_withoutAll {found : Tree} (mem : found ∈ withoutAll drops trees) :
    ∃ tree ∈ trees, drops tree = false ∧ found = tree.without drops := by
  induction trees with
  | nil => cases mem
  | cons tree rest ih =>
    rw [withoutAll] at mem
    split at mem
    · obtain ⟨other, listed, kept⟩ := ih mem
      exact ⟨other, List.mem_cons_of_mem _ listed, kept⟩
    · rename_i kept
      rcases List.mem_cons.mp mem with rfl | mem
      · exact ⟨tree, List.mem_cons_self, Bool.not_eq_true _ ▸ kept, rfl⟩
      · obtain ⟨other, listed, kept⟩ := ih mem
        exact ⟨other, List.mem_cons_of_mem _ listed, kept⟩

/-- Where nodes are left out, texts stay as they are. -/
theorem Solid.without (solid : Solid tree) : Solid (tree.without drops) := by
  induction tree using Tree.induction with
  | node kind children ih =>
    have inside : SolidAll (withoutAll drops children) := by
      refine solidAll_iff.mpr fun found mem => ?_
      obtain ⟨child, listed, -, rfl⟩ := exists_of_mem_withoutAll mem
      exact ih child listed (solidAll_iff.mp solid.below child listed)
    cases kind with
    | text =>
      obtain ⟨filled, rfl⟩ := solid
      exact ⟨filled, rfl⟩
    | _ => exact inside

/-- Nothing is left out where nothing is dropped. -/
theorem without_false (tree : Tree) : tree.without (fun _ => false) = tree := by
  induction tree using Tree.induction with
  | node kind children ih =>
    rw [without]
    congr 1
    induction children with
    | nil => rfl
    | cons child rest again =>
      rw [withoutAll, if_neg Bool.false_ne_true, ih child List.mem_cons_self,
        again fun other mem => ih other (List.mem_cons_of_mem child mem)]

theorem withoutAll_false (trees : List Tree) : withoutAll (fun _ => false) trees = trees := by
  induction trees with
  | nil => rfl
  | cons tree rest ih => rw [withoutAll, if_neg Bool.false_ne_true, without_false, ih]

end

end Tree

namespace Xml

open Markup.Tree

variable {drops : Tree → Bool} {tree : Tree} {trees before : List Tree}

@[simp] theorem isText_joined : isText (joined tree) = isText tree := by
  rw [isText, isText, kind_joined]

@[simp] theorem isText_without : isText (tree.without drops) = isText tree := by
  rw [isText, isText, kind_without]

theorem exists_of_isText (text : isText tree = true) :
    ∃ content children, tree = .node (.text content) children := by
  obtain ⟨kind, children⟩ := tree
  cases kind with
  | text content => exact ⟨content, children, rfl⟩
  | _ => cases text

/-- A text in a tree in which texts have nothing below them. -/
theorem exists_leaf_of_isText (solid : Solid tree) (text : isText tree = true) :
    ∃ content, tree = .leaf (.text content) := by
  obtain ⟨content, children, rfl⟩ := exists_of_isText text
  obtain ⟨-, rfl⟩ := solid
  exact ⟨content, rfl⟩

theorem isText_of_isBlank (blank : tree.isBlank = true) : isText tree = true := by
  obtain ⟨kind, children⟩ := tree
  cases kind with
  | text => rfl
  | _ => cases blank

/-! ## Texts joined twice -/

/-- What is put after others stands beside them, unless it is a text after a text. -/
theorem putAfter_eq (before : List Tree) (tree : Tree) :
    (putAfter before tree = tree :: before ∧ ∀ last ∈ before.head?, Apart last tree) ∨
    ∃ earlier content left right rest, before = .node (.text earlier) left :: rest ∧
      tree = .node (.text content) right ∧
      putAfter before tree = .leaf (.text (earlier ++ content)) :: rest := by
  by_cases text : isText tree = true
  · obtain ⟨content, right, rfl⟩ := exists_of_isText text
    match before with
    | [] => exact .inl ⟨rfl, nofun⟩
    | .node (.text earlier) left :: rest =>
      exact .inr ⟨earlier, content, left, right, rest, rfl, rfl, rfl⟩
    | .node .document _ :: _ | .node (.element ..) _ :: _ | .node (.cdata _) _ :: _
    | .node (.comment _) _ :: _ | .node (.instruction ..) _ :: _ | .node (.doctype ..) _ :: _ =>
      refine .inl ⟨rfl, fun last same => ?_⟩
      cases same
      exact .inl rfl
  · have solid : isText tree = false := Bool.not_eq_true _ ▸ text
    exact .inl ⟨putAfter_of_not_isText solid, fun _ _ => .inr solid⟩

theorem putAfter_of_apart (apart : ∀ last ∈ before.head?, Apart last tree) :
    putAfter before tree = tree :: before := by
  rcases putAfter_eq before tree with ⟨same, -⟩ | ⟨earlier, content, left, right, rest, rfl, rfl, -⟩
  · exact same
  · rcases apart _ rfl with left | right
    · cases left
    · cases right

/-- Two texts one after the other are put there as one. -/
theorem putAfter_putAfter_text (before : List Tree) {earlier content : String}
    {left right : List Tree} :
    putAfter (putAfter before (.node (.text earlier) left)) (.node (.text content) right) =
      putAfter before (.leaf (.text (earlier ++ content))) := by
  rcases putAfter_eq before (.node (.text earlier) left) with ⟨put, apart⟩ |
    ⟨first, second, _, _, rest, rfl, same, put⟩
  · rw [put, putAfter_of_apart fun last mem => .inl ((apart last mem).resolve_right nofun)]
    rfl
  · cases same
    rw [put]
    exact congrArg (fun content => Tree.leaf (.text content) :: rest) String.append_assoc

/-- Trees that are joined already are put after others one by one. -/
theorem joinedOnto_joinedOnto_of_fixed {acc : List Tree} (fixed : ∀ tree ∈ acc, joined tree = tree)
    (again : ∀ tree ∈ trees, joined (joined tree) = joined tree) :
    joinedOnto before (joinedOnto acc trees).reverse =
      joinedOnto (joinedOnto before acc.reverse) trees := by
  induction trees generalizing acc with
  | nil => rfl
  | cons tree rest ih =>
    have twice : joined (joined tree) = joined tree := again tree List.mem_cons_self
    have others : ∀ tree ∈ rest, joined (joined tree) = joined tree := fun other mem =>
      again other (List.mem_cons_of_mem tree mem)
    rw [joinedOnto, joinedOnto]
    rcases putAfter_eq acc (joined tree) with ⟨put, -⟩ |
      ⟨earlier, content, left, right, kept, rfl, same, put⟩
    · rw [put, ih (List.forall_mem_cons.mpr ⟨twice, fixed⟩) others, List.reverse_cons,
        joinedOnto_append, joinedOnto, joinedOnto, twice]
    · have text : joined (.leaf (.text (earlier ++ content))) =
          .leaf (.text (earlier ++ content)) := rfl
      rw [put, ih (List.forall_mem_cons.mpr ⟨text, (List.forall_mem_cons.mp fixed).2⟩) others,
        List.reverse_cons, List.reverse_cons, joinedOnto_append, joinedOnto_append, same,
        joinedOnto, joinedOnto, joinedOnto, joinedOnto, text, joined, putAfter_putAfter_text]

theorem joined_joined (tree : Tree) : joined (joined tree) = joined tree := by
  induction tree using Tree.induction with
  | node kind children ih =>
    rw [joined, joined, joinedOnto_joinedOnto_of_fixed (List.forall_mem_nil _) ih]
    rfl

/-- Joining trees before they are put after others makes no difference. -/
theorem joinedOnto_joinedOnto (before trees : List Tree) :
    joinedOnto before (joinedOnto [] trees).reverse = joinedOnto before trees :=
  joinedOnto_joinedOnto_of_fixed (List.forall_mem_nil _) fun tree _ => joined_joined tree

/-- What holds of joined trees, and of two texts as one, holds of what is put after others. -/
theorem forall_mem_joinedOnto {motive : Tree → Prop}
    (merge : ∀ earlier content left right, motive (.node (.text earlier) left) →
      motive (.node (.text content) right) → motive (.leaf (.text (earlier ++ content))))
    (acc : ∀ tree ∈ before, motive tree) (each : ∀ tree ∈ trees, motive (joined tree)) :
    ∀ tree ∈ joinedOnto before trees, motive tree := by
  induction trees generalizing before with
  | nil => exact acc
  | cons tree rest ih =>
    obtain ⟨here, others⟩ := List.forall_mem_cons.mp each
    rw [joinedOnto]
    refine ih ?_ others
    rcases putAfter_eq before (joined tree) with ⟨put, -⟩ |
      ⟨earlier, content, left, right, kept, rfl, same, put⟩
    · rw [put]
      exact List.forall_mem_cons.mpr ⟨here, acc⟩
    · obtain ⟨last, acc⟩ := List.forall_mem_cons.mp acc
      rw [put]
      exact List.forall_mem_cons.mpr ⟨merge _ _ _ _ last (same ▸ here), acc⟩

/-! ## Blank texts left out before and after -/

/-- A blank text goes away with what is put after others, and nothing else does. -/
theorem withoutAll_putAfter (alike : ∀ last ∈ before.head?, SameBlankness last tree) :
    withoutAll isBlank (putAfter before tree) =
      if tree.isBlank then withoutAll isBlank before
      else putAfter (withoutAll isBlank before) (tree.without isBlank) := by
  rcases putAfter_eq before tree with ⟨put, apart⟩ |
    ⟨earlier, content, left, right, rest, rfl, rfl, put⟩
  · rw [put, withoutAll]
    congr 1
    refine (putAfter_of_apart fun last mem => ?_).symm
    match before with
    | first :: rest =>
      rcases apart first rfl with solid | solid
      · have kept : first.isBlank = false := by
          rw [← Bool.not_eq_true]
          intro blank
          rw [isText_of_isBlank blank] at solid
          cases solid
        rw [withoutAll, if_neg (by simp [kept])] at mem
        cases mem
        exact .inl (isText_without.trans solid)
      · exact .inr (isText_without.trans solid)
  · have same : earlier.toList.all Text.isAsciiBlank = content.toList.all Text.isAsciiBlank :=
      alike _ rfl rfl rfl
    rw [put, withoutAll, withoutAll, isBlank_text_append same, isBlank_text, isBlank_text, same]
    split <;> rfl

/-- A text that is put into another is blank there if it is blank, where it does not differ from the
other in that. -/
theorem sameBlankness_putAfter_iff (alike : ∀ last ∈ before.head?, SameBlankness last tree)
    {next : Tree} :
    (∀ last ∈ (putAfter before tree).head?, SameBlankness last next) ↔ SameBlankness tree next := by
  have front : ∃ last rest, putAfter before tree = last :: rest ∧ isText last = isText tree ∧
      last.isBlank = tree.isBlank := by
    rcases putAfter_eq before tree with ⟨put, -⟩ |
      ⟨earlier, content, left, right, rest, rfl, rfl, put⟩
    · exact ⟨tree, before, put, rfl, rfl⟩
    · exact ⟨_, rest, put, rfl, isBlank_text_append (alike _ rfl rfl rfl)⟩
  obtain ⟨last, rest, put, text, blank⟩ := front
  simp [put, SameBlankness, text, blank]

theorem sameBlankness_joined_right {left right : Tree} :
    SameBlankness left (joined right) ↔ SameBlankness left right := by
  rw [SameBlankness, SameBlankness, isText_joined, isBlank_joined]

theorem sameBlankness_joined_left {left right : Tree} :
    SameBlankness (joined left) right ↔ SameBlankness left right := by
  rw [SameBlankness, SameBlankness, isText_joined, isBlank_joined]

/-- Blank texts are left out of trees before they are joined as after. -/
theorem withoutAll_joinedOnto
    (each : ∀ tree ∈ trees, (joined tree).without isBlank = joined (tree.without isBlank))
    (chain : trees.IsChain SameBlankness)
    (alike : ∀ last ∈ before.head?, ∀ first ∈ trees.head?, SameBlankness last first) :
    withoutAll isBlank (joinedOnto before trees) =
      joinedOnto (withoutAll isBlank before) (withoutAll isBlank trees) := by
  induction trees generalizing before with
  | nil => rfl
  | cons tree rest ih =>
    obtain ⟨next, chain⟩ := List.isChain_cons.mp chain
    have here : ∀ last ∈ before.head?, SameBlankness last (joined tree) := fun last mem =>
      sameBlankness_joined_right.mpr (alike last mem tree rfl)
    have between : ∀ last ∈ (putAfter before (joined tree)).head?, ∀ first ∈ rest.head?,
        SameBlankness last first := fun last mem first mem' =>
      have beside := sameBlankness_joined_left.mpr (next first mem')
      (sameBlankness_putAfter_iff here).mpr beside last mem
    rw [joinedOnto, ih (fun other mem => each other (List.mem_cons_of_mem tree mem)) chain between,
      withoutAll_putAfter here, isBlank_joined, each tree List.mem_cons_self, withoutAll]
    split <;> rfl

/-- Where no blank text stands beside one that is not blank, blank texts are left out before texts
are joined as after. -/
theorem without_joined (unmixed : Unmixed tree) :
    (joined tree).without isBlank = joined (tree.without isBlank) := by
  induction tree using Tree.induction with
  | node kind children ih =>
    have each := unmixedAll_iff.mp unmixed.1
    have inside : withoutAll isBlank (joinedOnto [] children) =
        joinedOnto [] (withoutAll isBlank children) :=
      withoutAll_joinedOnto (fun child mem => ih child mem (each child mem)) unmixed.2 nofun
    rw [joined, without, without, joined, withoutAll_reverse, inside]

/-! ## What is lost where they are left out before -/

theorem tallyAll_eq_sum {weight : Char → Nat} :
    tallyAll weight trees = (trees.map (tally weight)).sum := by
  induction trees with
  | nil => rfl
  | cons tree rest ih => rw [tallyAll, ih, List.map_cons, List.sum_cons]

theorem tallyAll_reverse {weight : Char → Nat} :
    tallyAll weight trees.reverse = tallyAll weight trees := by
  rw [tallyAll_eq_sum, tallyAll_eq_sum, List.map_reverse, List.sum_reverse]

theorem tallyAll_putAfter {weight : Char → Nat} :
    tallyAll weight (putAfter before tree) = tallyAll weight before + tree.tally weight := by
  rcases putAfter_eq before tree with ⟨put, -⟩ |
    ⟨earlier, content, left, right, rest, rfl, rfl, put⟩
  · rw [put, tallyAll, Nat.add_comm]
  · rw [put, tallyAll, tallyAll, Tree.leaf, tally, tally, tally, String.toList_append,
      Text.tally_append]
    omega

theorem tallyAll_joinedOnto {weight : Char → Nat}
    (each : ∀ tree ∈ trees, (joined tree).tally weight = tree.tally weight) :
    tallyAll weight (joinedOnto before trees) = tallyAll weight before + tallyAll weight trees := by
  induction trees generalizing before with
  | nil => rfl
  | cons tree rest ih =>
    rw [joinedOnto, ih fun other mem => each other (List.mem_cons_of_mem tree mem),
      tallyAll_putAfter, each tree List.mem_cons_self, tallyAll]
    omega

/-- No text is lost where texts are joined. -/
theorem tally_joined {weight : Char → Nat} (tree : Tree) :
    (joined tree).tally weight = tree.tally weight := by
  induction tree using Tree.induction with
  | node kind children ih =>
    cases kind with
    | text => rfl
    | _ =>
      rw [joined, tally, tally, tallyAll_reverse, tallyAll_joinedOnto ih]
      · exact Nat.zero_add _
      all_goals simp

/-- How much text some trees hold besides blank texts. -/
def ink (trees : List Tree) : Nat := tallyAll (fun _ => 1) (withoutAll isBlank trees)

theorem ink_cons (tree : Tree) (trees : List Tree) :
    ink (tree :: trees) = ink [tree] + ink trees := by
  rw [ink, ink, ink, withoutAll, withoutAll, withoutAll]
  split
  · exact (Nat.zero_add _).symm
  · rw [tallyAll, tallyAll, tallyAll]
    rfl

theorem ink_text {content : String} {children : List Tree} :
    ink [.node (.text content) children] =
      if content.toList.all Text.isAsciiBlank then 0 else content.toList.length := by
  rw [ink, withoutAll, withoutAll, isBlank_text]
  split
  · rfl
  · simp [tallyAll, tally, Text.tally, without]

/-- The text of a node is not empty if the node is a text. -/
def Filled (tree : Tree) : Prop := ∀ content, tree.kind = .text content → content.toList ≠ []

/-- Where texts are joined, blank text is kept that stands beside text that is not blank. -/
theorem ink_putAfter (filled : Filled tree) (before_filled : ∀ last ∈ before.head?, Filled last) :
    ink before + ink [tree] ≤ ink (putAfter before tree) ∧
      (ink (putAfter before tree) = ink before + ink [tree] →
        ∀ last ∈ before.head?, SameBlankness last tree) := by
  rcases putAfter_eq before tree with ⟨put, apart⟩ |
    ⟨earlier, content, left, right, rest, rfl, rfl, put⟩
  · rw [put, ink_cons tree before, Nat.add_comm (ink [tree])]
    refine ⟨Nat.le_refl _, fun _ last mem left right => ?_⟩
    rcases apart last mem with solid | solid <;> simp [solid] at left right
  · have some_earlier := List.length_pos_iff.mpr (before_filled _ rfl earlier rfl)
    have some_content := List.length_pos_iff.mpr (filled content rfl)
    rw [put, ink_cons (.leaf _) rest, ink_cons (.node (.text earlier) left) rest, Tree.leaf,
      ink_text, ink_text, ink_text, String.toList_append, List.all_append, List.length_append]
    refine ⟨?_, fun same last mem _ _ => ?_⟩
    · cases earlier.toList.all Text.isAsciiBlank <;> cases content.toList.all Text.isAsciiBlank <;>
        simp <;> omega
    · cases mem
      rw [isBlank_text, isBlank_text]
      cases blank : earlier.toList.all Text.isAsciiBlank <;>
        cases blank' : content.toList.all Text.isAsciiBlank <;>
        simp only [blank, blank', Bool.and_false, Bool.and_true, Bool.false_eq_true, ↓reduceIte]
          at same ⊢ <;>
        omega

theorem filled_of_putAfter (filled : Filled tree)
    (before_filled : ∀ last ∈ before.head?, Filled last) :
    ∀ last ∈ (putAfter before tree).head?, Filled last := by
  intro last mem
  rcases putAfter_eq before tree with ⟨put, -⟩ |
    ⟨earlier, content, left, right, rest, rfl, rfl, put⟩
  · rw [put] at mem
    cases mem
    exact filled
  · rw [put] at mem
    cases mem
    rintro _ ⟨⟩
    simp [filled content rfl]

/-- Where no text is lost, no blank text stands beside one that is not blank. -/
theorem ink_joinedOnto
    (each : ∀ tree ∈ trees, Filled tree ∧ ink [tree] ≤ ink [joined tree] ∧
      (ink [joined tree] = ink [tree] → Unmixed tree))
    (filled : ∀ last ∈ before.head?, Filled last) :
    ink before + ink trees ≤ ink (joinedOnto before trees) ∧
      (ink (joinedOnto before trees) = ink before + ink trees →
        UnmixedAll trees ∧ trees.IsChain SameBlankness ∧
          ∀ last ∈ before.head?, ∀ first ∈ trees.head?, SameBlankness last first) := by
  induction trees generalizing before with
  | nil => exact ⟨Nat.le_refl _, fun _ => ⟨trivial, .nil, nofun⟩⟩
  | cons tree rest ih =>
    obtain ⟨solid, more, unmixed⟩ := each tree List.mem_cons_self
    have solid' : Filled (joined tree) := fun content known => solid content (kind_joined ▸ known)
    obtain ⟨put, alike⟩ := ink_putAfter solid' filled
    obtain ⟨others, unmixedAll⟩ := ih (fun other mem => each other (List.mem_cons_of_mem tree mem))
      (filled_of_putAfter solid' filled)
    have split := ink_cons tree rest
    rw [joinedOnto]
    refine ⟨by omega, fun same => ?_⟩
    have here := alike (by omega)
    obtain ⟨within, chain, next⟩ := unmixedAll (by omega)
    refine ⟨⟨unmixed (by omega), within⟩, List.isChain_cons.mpr ⟨fun first mem => ?_, chain⟩,
      fun last mem first same => ?_⟩
    · exact sameBlankness_joined_left.mp
        ((sameBlankness_putAfter_iff here).mp fun last listed => next last listed first mem)
    · cases same
      exact sameBlankness_joined_right.mp (here last mem)

theorem unmixed_of_ink (solid : Solid tree) : Filled tree ∧ ink [tree] ≤ ink [joined tree] ∧
    (ink [joined tree] = ink [tree] → Unmixed tree) := by
  induction tree using Tree.induction with
  | node kind children ih =>
    by_cases text : isText (.node kind children) = true
    · cases kind with
      | text content =>
        obtain ⟨filled, rfl⟩ := solid
        refine ⟨?_, Nat.le_refl _, fun _ => ⟨trivial, .nil⟩⟩
        rintro _ ⟨⟩
        exact filled
      | _ => cases text
    · have within : SolidAll children := by
        cases kind with
        | text => exact absurd rfl text
        | _ => exact solid
      have ink_node (children : List Tree) : ink [.node kind children] = ink children := by
        cases kind with
        | text => exact absurd rfl text
        | _ => rfl
      have none_before : ∀ last ∈ ([] : List Tree).head?, Filled last := nofun
      obtain ⟨more, unmixed⟩ := ink_joinedOnto
        (fun child mem => ih child mem (solidAll_iff.mp solid.below child mem)) none_before
      have same : ink (joinedOnto [] children).reverse = ink (joinedOnto [] children) := by
        rw [ink, ink, withoutAll_reverse, tallyAll_reverse]
      have nothing : ink [] = 0 := rfl
      rw [joined, ink_node, ink_node, same]
      refine ⟨?_, by omega, fun equal => ?_⟩
      · rintro content rfl
        exact absurd rfl text
      · obtain ⟨unmixedAll, chain, -⟩ := unmixed (by omega)
        exact ⟨unmixedAll, chain⟩

/-- Blank texts are left out of a tree before its texts are joined as after exactly if no blank text
stands beside one that is not blank. -/
theorem without_joined_iff (solid : Solid tree) (kept : tree.isBlank = false) :
    (joined tree).without isBlank = joined (tree.without isBlank) ↔ Unmixed tree := by
  refine ⟨fun same => (unmixed_of_ink solid).2.2 ?_, without_joined⟩
  have ink_eq {tree : Tree} (kept : tree.isBlank = false) :
      ink [tree] = (tree.without isBlank).tally fun _ => 1 := by
    rw [ink, withoutAll, if_neg (by simp [kept])]
    rfl
  rw [ink_eq (isBlank_joined.trans kept), ink_eq kept, same, tally_joined]

end Xml
end Markup
