import Markup.Proofs.Xml.Events
import Markup.Proofs.Xml.Parsed

/-!
# Trees whose texts are taken apart

Character data is added to the text before it or starts a text of its own, and either way the
characters are the same. With every text taken apart into single characters, what is built from
events no longer tells copied nodes from written ones. Nothing is lost by this: a tree in normal
form is put together again from its parts.
-/

namespace Markup

namespace Tree

/-- A node after others, latest first; text goes into the text before it. -/
def putAfter (before : List Tree) : Tree → List Tree
  | .node (.text content) children =>
    match before with
    | .node (.text earlier) _ :: rest => .leaf (.text (earlier ++ content)) :: rest
    | _ => .node (.text content) children :: before
  | tree => tree :: before

mutual

/-- A tree in which no text stands beside another. -/
def joined : Tree → Tree
  | .node kind children => .node kind (joinedOnto [] children).reverse

/-- Trees after others, latest first, with each text in the text before it. -/
def joinedOnto (before : List Tree) : List Tree → List Tree
  | [] => before
  | tree :: rest => joinedOnto (putAfter before (joined tree)) rest

end

/-- Each character as a text of its own. -/
def singles (text : List Char) : List Tree := text.map fun c => .leaf (.text (String.singleton c))

mutual

/-- A tree with every text in it taken apart. -/
def atoms : Tree → List Tree
  | .node (.text content) _ => singles content.toList
  | .node kind children => [.node kind (atomsAll children)]

/-- Trees with every text in them taken apart. -/
def atomsAll : List Tree → List Tree
  | [] => []
  | tree :: rest => atoms tree ++ atomsAll rest

end

theorem joinedOnto_append (before first second : List Tree) :
    joinedOnto before (first ++ second) = joinedOnto (joinedOnto before first) second := by
  induction first generalizing before with
  | nil => rfl
  | cons tree rest ih => exact ih _

theorem atomsAll_append (first second : List Tree) :
    atomsAll (first ++ second) = atomsAll first ++ atomsAll second := by
  induction first with
  | nil => rfl
  | cons tree rest ih => rw [List.cons_append, atomsAll, ih, atomsAll, List.append_assoc]

theorem singles_append (first second : List Char) :
    singles (first ++ second) = singles first ++ singles second := List.map_append

/-- Text is put together from its characters. -/
theorem joinedOnto_singles (before : List Tree) (earlier : String) (text : List Char) :
    joinedOnto (.leaf (.text earlier) :: before) (singles text) =
      .leaf (.text (earlier ++ String.ofList text)) :: before := by
  induction text generalizing earlier with
  | nil => simp [singles, joinedOnto]
  | cons c text ih =>
    have step : joinedOnto (.leaf (.text earlier) :: before) (singles (c :: text)) =
        joinedOnto (.leaf (.text (earlier ++ String.singleton c)) :: before) (singles text) := rfl
    rw [step, ih, String.append_assoc]
    congr 4
    exact String.toList_injective (by simp)

end Tree

namespace Xml

open Markup.Tree

theorem putAfter_of_not_isText {before : List Tree} {tree : Tree} (solid : isText tree = false) :
    putAfter before tree = tree :: before := by
  obtain ⟨kind, children⟩ := tree
  cases kind with
  | text => cases solid
  | _ => rfl

theorem atoms_of_not_isText {kind : NodeKind} {children : List Tree}
    (solid : isText (.node kind children) = false) :
    (Tree.node kind children).atoms = [.node kind (atomsAll children)] := by
  cases kind with
  | text => cases solid
  | _ => rfl

/-- A node that is no text is put together again from what is below it. -/
theorem joinedOnto_atoms_of_not_isText {before : List Tree} {kind : NodeKind} {children : List Tree}
    (solid : isText (.node kind children) = false)
    (again : (joinedOnto [] (atomsAll children)).reverse = children) :
    joinedOnto before (Tree.node kind children).atoms = .node kind children :: before := by
  rw [atoms_of_not_isText solid, joinedOnto, joinedOnto, joined, again,
    putAfter_of_not_isText solid]

/-- Text that does not follow text is put together from its characters. -/
theorem joinedOnto_singles_of_apart {before : List Tree} {content : String}
    (apart : ∀ last ∈ before.head?, isText last = false) (solid : content.toList ≠ []) :
    joinedOnto before (singles content.toList) = .leaf (.text content) :: before := by
  obtain ⟨c, text, spelled⟩ := List.exists_cons_of_ne_nil solid
  have first : putAfter before (.leaf (.text (String.singleton c))) =
      .leaf (.text (String.singleton c)) :: before := by
    match before with
    | [] => rfl
    | .node (.text _) _ :: _ => cases apart _ rfl
    | .node .document _ :: _ | .node (.element ..) _ :: _ | .node (.cdata _) _ :: _
    | .node (.comment _) _ :: _ | .node (.instruction ..) _ :: _ | .node (.doctype ..) _ :: _ => rfl
  have step : joinedOnto before (singles (c :: text)) =
      joinedOnto (putAfter before (.leaf (.text (String.singleton c)))) (singles text) := rfl
  rw [spelled, step, first, joinedOnto_singles]
  congr 3
  exact String.toList_injective (by simp [spelled])

/-- Trees of which no two adjacent ones are texts are put together again if each of them is. -/
theorem joinedOnto_atomsAll {trees before : List Tree}
    (each : ∀ tree ∈ trees, ∀ before : List Tree, (∀ last ∈ before.head?, Apart last tree) →
      joinedOnto before tree.atoms = tree :: before)
    (chain : trees.IsChain Apart)
    (apart : ∀ last ∈ before.head?, ∀ first ∈ trees.head?, Apart last first) :
    joinedOnto before (atomsAll trees) = trees.reverse ++ before := by
  induction trees generalizing before with
  | nil => rfl
  | cons tree rest ih =>
    obtain ⟨next, chain⟩ := List.isChain_cons.mp chain
    have here := each tree List.mem_cons_self before fun last mem => apart last mem tree rfl
    have others : joinedOnto (tree :: before) (atomsAll rest) = rest.reverse ++ tree :: before :=
      ih (fun other mem => each other (List.mem_cons_of_mem tree mem)) chain
        fun last mem first mem' => by
          cases mem
          exact next first mem'
    rw [atomsAll, joinedOnto_append, here, others]
    simp

/-- A tree in normal form is put together again from its atoms. -/
theorem joinedOnto_atoms {tree : Tree} (canonical : Canonical tree) {before : List Tree}
    (apart : ∀ last ∈ before.head?, Apart last tree) :
    joinedOnto before tree.atoms = tree :: before := by
  induction tree using Tree.induction generalizing before with
  | node kind children ih =>
    by_cases solid : isText (.node kind children) = false
    · refine joinedOnto_atoms_of_not_isText solid ?_
      by_cases element : kind.isElement = true
      · obtain ⟨within, chain⟩ : CanonicalAll children ∧ children.IsChain Apart := by
          cases kind with
          | element => exact canonical
          | _ => cases element
        have again : joinedOnto [] (atomsAll children) = children.reverse ++ [] :=
          joinedOnto_atomsAll (fun child mem before apart =>
            ih child mem (canonicalAll_iff.mp within child mem) apart) chain (by simp)
        rw [again, List.append_nil, List.reverse_reverse]
      · rw [canonical.childless (Bool.not_eq_true _ ▸ element)]
        rfl
    · cases kind with
      | text content =>
        obtain ⟨filled, rfl⟩ := canonical
        exact joinedOnto_singles_of_apart (fun last mem => (apart last mem).resolve_right solid)
          filled
      | _ => exact absurd rfl solid

/-- Trees in normal form are told apart by their atoms. -/
theorem eq_of_atoms_eq {first second : Tree} (canonical : Canonical first)
    (canonical' : Canonical second) (same : first.atoms = second.atoms) : first = second := by
  have again : joinedOnto [] first.atoms = [first] := joinedOnto_atoms canonical nofun
  have again' : joinedOnto [] second.atoms = [second] := joinedOnto_atoms canonical' nofun
  rw [same, again'] at again
  exact (List.cons.inj again.symm).1

/-! ## Building from atoms -/

/-- What is built so far, with texts taken apart: the nodes at the level reached, in order, and the
tags of the elements that are open, innermost first, with the nodes before each. -/
structure Grown where
  here : List Tree
  path : List (StartTag × List Tree)

namespace Grown

/-- Nothing built yet. -/
def empty : Grown := ⟨[], []⟩

/-- More nodes at the level reached. -/
def add (grown : Grown) (trees : List Tree) : Grown := ⟨grown.here ++ trees, grown.path⟩

/-- Close the innermost element. -/
def close (grown : Grown) : Grown :=
  match grown.path with
  | [] => grown
  | (tag, before) :: path => ⟨before ++ [.node tag.kind grown.here], path⟩

/-- What is built at the level of `outer`, given what is built inside it. -/
def under (outer : Grown) (here : List Tree) : List (StartTag × List Tree) → Grown
  | [] => outer.add here
  | (tag, before) :: path =>
    ⟨here, (tag, (outer.under before path).here) :: (outer.under before path).path⟩

theorem under_append (outer : Grown) (here more : List Tree) (path : List (StartTag × List Tree)) :
    outer.under (here ++ more) path = (outer.under here path).add more := by
  cases path with
  | nil => simp [under, add]
  | cons => rfl

end Grown

mutual

/-- Go on building from atoms after an event. -/
def Event.grown (g : Grown) : Event → Grown
  | .text content => g.add (singles content)
  | .leaf kind => g.add (Tree.leaf kind).atoms
  | .start tag => ⟨[], (tag, g.here) :: g.path⟩
  | .stop => g.close
  | .copied inside => g.add (grownAll .empty inside).here

/-- Go on building from atoms after some events. -/
def grownAll (g : Grown) : List Event → Grown
  | [] => g
  | event :: rest => grownAll (event.grown g) rest

end

theorem grownAll_append (g : Grown) (events others : List Event) :
    grownAll g (events ++ others) = grownAll (grownAll g events) others := by
  induction events generalizing g with
  | nil => rfl
  | cons event rest ih => exact ih _

/-- Drafts with their texts taken apart; the drafts are given latest first. -/
def Draft.atoms (drafts : List Draft) : List Tree := atomsAll (Draft.toTrees drafts.reverse)

/-- What is built, with texts taken apart. -/
def Growth.grown (g : Growth) : Grown :=
  ⟨Draft.atoms g.here ++ singles g.pending.chars.reverse,
    g.path.map fun element => (element.tag, Draft.atoms element.before)⟩

namespace Draft

variable {draft : Draft} {before copies : List Draft}

theorem toTrees_append (first second : List Draft) :
    toTrees (first ++ second) = toTrees first ++ toTrees second := by
  rw [toTrees_eq_map, toTrees_eq_map, toTrees_eq_map, List.map_append]

@[simp] theorem atoms_nil : atoms [] = [] := rfl

theorem atoms_cons : atoms (draft :: before) = atoms before ++ draft.toTree.atoms := by
  rw [atoms, List.reverse_cons, toTrees_append, atomsAll_append, toTrees, toTrees, atomsAll,
    atomsAll, List.append_nil]
  rfl

/-- Character data is the same characters, whether it goes into the text before it or not. -/
theorem atoms_addText (content : String) :
    atoms (addText false content before) = atoms before ++ singles content.toList := by
  unfold addText
  split
  · rename_i nothing
    obtain rfl : content = "" := by simpa using nothing
    exact (List.append_nil _).symm
  · split
    · rw [atoms_cons, atoms_cons, List.append_assoc]
      show _ = _ ++ (singles _ ++ singles _)
      rw [← singles_append, ← String.toList_append]
      rfl
    · rw [atoms_cons]
      rfl

theorem atoms_addCopies :
    atoms (addCopies false before copies) = atoms before ++ atomsAll (toTrees copies) := by
  fun_induction addCopies false before copies with
  | case1 => exact (List.append_nil _).symm
  | case2 before content children rest ih =>
    rw [ih, atoms_addText, List.append_assoc]
    rfl
  | case3 before draft rest other ih =>
    rw [ih, atoms_cons, List.append_assoc]
    rfl

end Draft

variable {options : ParseOptions} {g : Growth}

theorem atoms_flush (g : Growth) (keeps : options.noBlanks = false) :
    Draft.atoms (g.flush options) = g.grown.here := by
  rw [Growth.flush, Pending.flush, keeps, Draft.atoms_addText, String.toList_ofList]
  rfl

theorem atomsAll_result (g : Growth) (keeps : options.noBlanks = false) :
    atomsAll (Draft.toTrees (g.result options)) = g.grown.here :=
  atoms_flush g keeps

theorem grown_of_flushed {before : List Draft} {path : List OpenElement} :
    (Growth.mk before path .empty).grown =
      ⟨Draft.atoms before, path.map fun element => (element.tag, Draft.atoms element.before)⟩ := by
  rw [Growth.grown]
  congr 1
  exact List.append_nil _

theorem grown_close (keeps : options.noBlanks = false) :
    (g.close options).grown = g.grown.close := by
  obtain ⟨here, path, pending⟩ := g
  cases path with
  | nil => rfl
  | cons element path =>
    have flushed := atoms_flush ⟨here, element :: path, pending⟩ keeps
    have closed : (Growth.mk here (element :: path) pending).close options =
      ⟨element.close ((Growth.mk here (element :: path) pending).flush options), path, .empty⟩ :=
        rfl
    have solid (children : List Tree) : (Tree.node element.tag.kind children).atoms =
        [.node element.tag.kind (atomsAll children)] := rfl
    rw [closed, grown_of_flushed, OpenElement.close, Draft.atoms_cons, Draft.toTree, solid,
      ← Draft.atoms, flushed]
    rfl

mutual

/-- Building from atoms follows building. -/
theorem grown_grow (keeps : options.noBlanks = false) (g : Growth) :
    (event : Event) → (event.grow options g).grown = event.grown g.grown
  | .text content => by
    rw [Event.grow, Event.grown, Growth.grown, Growth.grown, Pending.chars_add, List.reverse_append,
      List.reverse_reverse, singles_append, Grown.add, List.append_assoc]
  | .leaf kind => by
    rw [Event.grow, grown_of_flushed, Draft.atoms_cons, atoms_flush g keeps]
    rfl
  | .start tag => by
    rw [Event.grow, grown_of_flushed, List.map_cons, atoms_flush g keeps]
    rfl
  | .stop => grown_close keeps
  | .copied inside => by
    have within : atomsAll (Draft.toTrees ((growAll options .empty inside).result options)) =
        (grownAll .empty inside).here := by
      rw [atomsAll_result _ keeps, grown_growAll keeps .empty inside]
      rfl
    rw [Event.grow, grown_of_flushed, keeps, Draft.atoms_addCopies, atoms_flush g keeps, within]
    rfl

theorem grown_growAll (keeps : options.noBlanks = false) (g : Growth) :
    (events : List Event) → (growAll options g events).grown = grownAll g.grown events
  | [] => rfl
  | event :: rest => by
    rw [growAll, grown_growAll keeps _ rest, grown_grow keeps g event, grownAll]

end

/-! ## Events in the midst of others -/

/-- What a run builds inside of open elements it builds there, whatever is outside of them. -/
theorem grownAll_under {cx : Context} {base : Level} {s t : Spot} {events : List Event}
    (run : Run cx base s events t) (outer g : Grown) (tags : g.path.map Prod.fst = s.tags) :
    grownAll (outer.under g.here g.path) events =
        outer.under (grownAll g events).here (grownAll g events).path ∧
      (grownAll g events).path.map Prod.fst = t.tags := by
  induction run generalizing g with
  | nil => exact ⟨rfl, tags⟩
  | @advance cx base s middle t event events first _ ih =>
    have step : event.grown (outer.under g.here g.path) =
          outer.under (event.grown g).here (event.grown g).path ∧
        (event.grown g).path.map Prod.fst = middle.tags := by
      cases first with
      | reference | plain | sectionEnd | character | leaf =>
        exact ⟨(outer.under_append ..).symm, tags⟩
      | start => exact ⟨rfl, congrArg (List.cons _) tags⟩
      | stop | cut =>
        obtain ⟨here, path⟩ := g
        cases path with
        | nil => cases tags
        | cons element path =>
          exact ⟨(outer.under_append ..).symm, (List.cons.inj tags).2⟩
    rw [grownAll, step.1]
    exact ih _ step.2
  | copied _ _ _ _ _ _ _ ih =>
    have step (inside : List Event) : Event.grown (outer.under g.here g.path) (.copied inside) =
        outer.under (Event.grown g (.copied inside)).here (Event.grown g (.copied inside)).path :=
      (outer.under_append ..).symm
    rw [grownAll, step]
    exact ih _ tags

/-- Events in replacement text build the same in the place of the reference. -/
theorem grownAll_inside {cx : Context} {base : Level} {r last : Reader} {inside : List Event}
    (run : Run cx base ⟨r, []⟩ inside ⟨last, []⟩) (g : Grown) :
    grownAll g inside = Event.grown g (.copied inside) := by
  obtain ⟨built, closed⟩ := grownAll_under run g .empty rfl
  have start : g.under Grown.empty.here Grown.empty.path = g := by
    show g.add [] = g
    rw [Grown.add, List.append_nil]
  rw [start, List.map_eq_nil_iff.mp closed] at built
  exact built

end Xml
end Markup
