import Markup.Proofs.Xml.Normal

/-!
# The elements of a tree

What is left of a tree if everything but its elements is left out. Reading back what was written
may join text and cut sections apart, but it keeps every element in its place.
-/

namespace Markup

namespace Tree

mutual

/-- The elements of a tree in their nesting, without anything between them. -/
def elements : Tree → List Tree
  | node (.element name uri attributes) children =>
    [node (.element name uri attributes) (elementsAll children)]
  | node _ _ => []

/-- The elements of several trees. -/
def elementsAll : List Tree → List Tree
  | [] => []
  | tree :: rest => elements tree ++ elementsAll rest

end

theorem elementsAll_append (left right : List Tree) :
    elementsAll (left ++ right) = elementsAll left ++ elementsAll right := by
  induction left with
  | nil => rfl
  | cons tree rest ih => rw [List.cons_append, elementsAll, elementsAll, ih, List.append_assoc]

end Tree

namespace Xml

open Markup.Tree

variable {options : ParseOptions} {progress : Progress}

/-- Text that is added adds no element. -/
theorem elementsAll_addText (noBlanks : Bool) (content : String) (before : List Draft) :
    elementsAll (Draft.toTrees (Draft.addText noBlanks content before).reverse) =
      elementsAll (Draft.toTrees before.reverse) := by
  unfold Draft.addText
  split
  · rfl
  · split
    · simp [toTrees_eq_map, elementsAll_append, elementsAll, elements, Draft.toTree]
    · simp [toTrees_eq_map, elementsAll_append, elementsAll, elements, Draft.toTree, Draft.toTrees]

namespace Progress

theorem elementsAll_shown : elementsAll (progress.shown options) =
    elementsAll (Draft.toTrees progress.here.reverse) := elementsAll_addText ..

theorem elementsAll_add (text : List Char) :
    elementsAll ((progress.add text).shown options) = elementsAll (progress.shown options) := by
  rw [elementsAll_shown, elementsAll_shown]
  rfl

theorem elementsAll_push (draft : Draft) :
    elementsAll ((progress.push options draft).shown options) =
      elementsAll (progress.shown options) ++ draft.toTree.elements := by
  rw [shown_push, elementsAll_append]
  simp [elementsAll]

/-- However text is cut into sections, none of them is an element. -/
theorem elementsAll_sections (parts : List (List Char)) :
    elementsAll ((parts.foldl (fun progress part =>
      progress.push options (.written (.cdata (String.ofList (lineEnds part))) []))
        progress).shown options) = elementsAll (progress.shown options) := by
  induction parts generalizing progress with
  | nil => rfl
  | cons part rest ih =>
    rw [List.foldl_cons, ih, elementsAll_push, Draft.toTree, elements, List.append_nil]
    nofun

mutual

/-- The elements of a tree go after those that were read. -/
theorem elementsAll_absorb (progress : Progress) (tree : Tree) :
    elementsAll ((progress.absorb options tree).shown options) =
      elementsAll (progress.shown options) ++ tree.elements := by
  obtain ⟨kind, children⟩ := tree
  cases kind with
  | document => simp [absorb, elements]
  | doctype => simp [absorb, elements]
  | text content => simp [absorb, elements, elementsAll_add]
  | cdata content => simp [absorb, elements, elementsAll_sections, elementsAll_push, Draft.toTree]
  | comment content => simp [absorb, elements, elementsAll_push, Draft.toTree]
  | instruction target data => simp [absorb, elements, elementsAll_push, Draft.toTree]
  | element name uri attributes =>
    have inside := elementsAll_absorbAll start children
    rw [shown_start, shown] at inside
    rw [absorb, elementsAll_push, Draft.toTree, elements, elements, inside]
    rfl

theorem elementsAll_absorbAll (progress : Progress) (trees : List Tree) :
    elementsAll ((progress.absorbAll options trees).shown options) =
      elementsAll (progress.shown options) ++ elementsAll trees := by
  cases trees with
  | nil => simp [absorbAll, elementsAll]
  | cons tree rest =>
    rw [absorbAll, elementsAll_absorbAll _ rest, elementsAll_absorb progress tree, elementsAll,
      List.append_assoc]

end

end Progress

/-- Reading back keeps the elements of an element, with their names, namespaces and attributes. -/
theorem elements_readBack {tree : Tree} (isElement : tree.kind.isElement = true) :
    (readBack options tree).elements = tree.elements := by
  obtain ⟨kind, children⟩ := tree
  cases kind with
  | element name uri attributes =>
    have inside : elementsAll ((Progress.start.absorbAll options children).shown options) = _ :=
      Progress.elementsAll_absorbAll .start children
    rw [Progress.shown_start, Progress.shown] at inside
    rw [readBack, Tree.kind, Tree.children, elements, elements, inside]
    rfl
  | _ => cases isElement

end Xml
end Markup
