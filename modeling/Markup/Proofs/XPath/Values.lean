import Markup.Proofs.XPath.Evaluate
import Markup.Proofs.XPath.Transport

/-!
# Values under other names

Two documents hold the same tree, and a value of the one is taken to the other by renaming its
nodes. What is read off a value, how values compare and what functions make of them is the same for
both.
-/

namespace Markup.XPath

open Document

variable {doc doc' : Document} {rename : NodeId → NodeId} {nodes nodes' : List Node}
  {value value' : Value}

/-! ## Values -/

/-- A value with its nodes under other names. -/
def Value.image (rename : NodeId → NodeId) : Value → Value
  | .nodes found => .nodes (found.map (Node.image rename))
  | other => other

@[simp] theorem image_boolean (b : Bool) : (Value.boolean b).image rename = .boolean b := rfl

@[simp] theorem image_number (x : Float) : (Value.number x).image rename = .number x := rfl

@[simp] theorem image_string (text : String) : (Value.string text).image rename = .string text :=
  rfl

@[simp] theorem image_nodes :
    (Value.nodes nodes).image rename = .nodes (nodes.map (Node.image rename)) := rfl

/-- Whether all nodes of a value are nodes of the tree or belong to one. -/
def Value.IsOwned (doc : Document) : Value → Prop
  | .nodes found => ∀ node ∈ found, node.IsOwned doc
  | _ => True

theorem Value.IsOrdered.isOwned (ordered : value.IsOrdered doc) : value.IsOwned doc := by
  cases value with
  | nodes found => exact fun node member => isOwned_of_isPresent (ordered.present node member)
  | _ => trivial

theorem toBoolean_image (value : Value) : (value.image rename).toBoolean = value.toBoolean := by
  cases value with
  | nodes found => simp [Value.image, Value.toBoolean]
  | _ => rfl

theorem selects_image (value : Value) (position : Nat) :
    (value.image rename).selects position = value.selects position := by
  cases value with
  | nodes found => exact toBoolean_image (.nodes found)
  | _ => rfl

section Isomorphic

variable (iso : Isomorphism doc doc' rename)
include iso

theorem texts_image (owned : ∀ node ∈ nodes, node.IsOwned doc) :
    (nodes.map (Node.image rename)).map (·.text doc') = nodes.map (·.text doc) := by
  rw [List.map_map]
  exact List.map_congr_left fun node member => text_image iso (owned node member)

theorem numbers_image (owned : ∀ node ∈ nodes, node.IsOwned doc) :
    (nodes.map (Node.image rename)).map (fun node => numberOf (node.text doc')) =
      nodes.map fun node => numberOf (node.text doc) := by
  rw [List.map_map]
  refine List.map_congr_left fun node member => ?_
  rw [Function.comp, text_image iso (owned node member)]

theorem toText_image (owned : value.IsOwned doc) :
    (value.image rename).toText doc' = value.toText doc := by
  cases value with
  | nodes found =>
    cases found with
    | nil => rfl
    | cons first rest => exact text_image iso (owned first List.mem_cons_self)
  | _ => rfl

theorem toNumber_image (owned : value.IsOwned doc) :
    (value.image rename).toNumber doc' = value.toNumber doc := by
  cases value with
  | nodes found =>
    cases found with
    | nil => rfl
    | cons first rest => exact congrArg numberOf (text_image iso (owned first List.mem_cons_self))
  | _ => rfl

theorem agree_image (negated : Bool) (owned : value.IsOwned doc) (owned' : value'.IsOwned doc) :
    (value.image rename).agree doc' negated (value'.image rename) =
      value.agree doc negated value' := by
  cases value with
  | nodes found =>
    have texts := texts_image iso owned
    have numbers := numbers_image iso owned
    cases value' with
    | nodes found' =>
      have texts' := texts_image iso owned'
      simp only [Value.image, Value.agree, Value.texts, texts, texts']
    | _ =>
      simp only [Value.image, Value.agree, Value.texts, Value.numbers, texts, numbers,
        List.isEmpty_map]
  | _ =>
    cases value' with
    | nodes found' =>
      have texts' := texts_image iso owned'
      have numbers' := numbers_image iso owned'
      simp only [Value.image, Value.agree, Value.texts, Value.numbers, texts', numbers',
        List.isEmpty_map]
    | _ => rfl

theorem related_image (relation : Relation) (owned : value.IsOwned doc)
    (owned' : value'.IsOwned doc) :
    (value.image rename).related doc' relation (value'.image rename) =
      value.related doc relation value' := by
  cases value with
  | nodes found =>
    have numbers := numbers_image iso owned
    cases value' with
    | nodes found' =>
      have numbers' := numbers_image iso owned'
      simp only [Value.image, Value.related, Value.numbers, numbers, numbers']
    | boolean _ => simp only [Value.image, Value.related, List.isEmpty_map]
    | _ => simp only [Value.image, Value.related, Value.numbers, numbers, Value.toNumber]
  | _ =>
    cases value' with
    | nodes found' =>
      have numbers' := numbers_image iso owned'
      simp only [Value.image, Value.related, Value.numbers, numbers', Value.toNumber,
        List.isEmpty_map]
    | _ => rfl

/-! ## Functions -/

/-- A function reads the texts and numbers of its arguments and the names and texts of nodes; only
`id` yields nodes. -/
theorem apply_image (function : Function) {focus : Focus} (owned : focus.node.IsOwned doc)
    {arguments : List Value} (given : ∀ value ∈ arguments, value.IsOwned doc) :
    function.apply doc' ⟨focus.node.image rename, focus.position, focus.size⟩
        (arguments.map (Value.image rename)) =
      (function.apply doc focus arguments).map (Value.image rename) := by
  have text : ∀ {value}, value ∈ arguments →
      (value.image rename).toText doc' = value.toText doc := fun member =>
    toText_image iso (given _ member)
  have number : ∀ {value}, value ∈ arguments →
      (value.image rename).toNumber doc' = value.toNumber doc := fun member =>
    toNumber_image iso (given _ member)
  cases function with
  | last | position | truth | falsehood =>
    cases arguments with
    | nil => rfl
    | cons first rest => simp [Function.apply, Except.map]
  | concat =>
    have texts : (arguments.map (Value.image rename)).map (·.toText doc') =
        arguments.map (·.toText doc) := by
      rw [List.map_map]
      exact List.map_congr_left fun value member => text member
    simp only [Function.apply, texts, Except.map, image_string]
  | localName | namespaceUri | name =>
    rcases arguments with _ | ⟨first, _ | ⟨second, rest⟩⟩
    · simp [Function.apply, Except.map, localName_image iso owned,
        uri_image iso owned, name_image iso owned]
    · cases first with
      | nodes found =>
        cases found with
        | nil => rfl
        | cons node others =>
          have owned := given (.nodes (node :: others)) List.mem_cons_self node List.mem_cons_self
          simp [Function.apply, Except.map, Value.asNodes, bind, Except.bind, pure,
            Except.pure, localName_image iso owned, uri_image iso owned, name_image iso owned]
      | _ => rfl
    · simp [Function.apply, Except.map]
  | string | stringLength | normalizeSpace | number =>
    rcases arguments with _ | ⟨first, _ | ⟨second, rest⟩⟩
    · simp [Function.apply, Except.map, sizeValue, textValue, text_image iso owned]
    · simp [Function.apply, Except.map, sizeValue, textValue, text, number]
    · simp [Function.apply, Except.map]
  | boolean | negation | lang | floor | ceiling | round =>
    rcases arguments with _ | ⟨first, _ | ⟨second, rest⟩⟩
    · rfl
    · simp [Function.apply, Except.map, toBoolean_image, text, number, owner_image,
        isInLanguage_image iso owned]
    · simp [Function.apply, Except.map]
  | id =>
    rcases arguments with _ | ⟨first, _ | ⟨second, rest⟩⟩
    · rfl
    · have owned := given first List.mem_cons_self
      cases first with
      | nodes found =>
        have texts := texts_image iso owned
        simp only [List.map_cons, List.map_nil, image_nodes, Function.apply, texts, Except.map,
          identified_image iso]
      | _ => simp [Function.apply, Except.map, Value.toText, identified_image iso]
    · simp [Function.apply, Except.map]
  | count | sum =>
    rcases arguments with _ | ⟨first, _ | ⟨second, rest⟩⟩
    · rfl
    · have owned := given first List.mem_cons_self
      cases first with
      | nodes found =>
        have numbers := numbers_image iso owned
        simp only [List.map_cons, List.map_nil, image_nodes, Function.apply, Value.asNodes, bind,
          Except.bind, pure, Except.pure, Except.map, numbers, List.length_map, sizeValue,
          image_number]
      | _ => rfl
    · simp [Function.apply, Except.map]
  | startsWith | contains | substringBefore | substringAfter =>
    rcases arguments with _ | ⟨first, _ | ⟨second, _ | ⟨third, rest⟩⟩⟩
    · rfl
    · rfl
    · simp [Function.apply, Except.map, textValue, text]
    · simp [Function.apply, Except.map]
  | substring =>
    rcases arguments with _ | ⟨first, _ | ⟨second, _ | ⟨third, _ | ⟨fourth, rest⟩⟩⟩⟩
    · rfl
    · rfl
    · simp [Function.apply, Except.map, textValue, text, number]
    · simp [Function.apply, Except.map, textValue, text, number]
    · simp [Function.apply, Except.map]
  | translate =>
    rcases arguments with _ | ⟨first, _ | ⟨second, _ | ⟨third, _ | ⟨fourth, rest⟩⟩⟩⟩
    · rfl
    · rfl
    · rfl
    · simp [Function.apply, Except.map, textValue, text]
    · simp [Function.apply, Except.map]

end Isomorphic

end Markup.XPath
