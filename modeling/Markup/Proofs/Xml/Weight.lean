import Mathlib
import Markup.Proofs.Xml.Replacement

/-!
# What steps add to a document

The bytes that a parse puts into text, comments, instructions and attribute values are read
somewhere, either in the text of the document or in the replacement text of an entity that was
expanded. Every step keeps the balance: what is held anew was read, or paid for by expansions.
-/

namespace Markup

/-- The bytes of the values of attributes. -/
def valueSize (attributes : List Attribute) : Nat :=
  (attributes.map fun attr => Text.byteLength attr.value.toList).sum

theorem valueSize_cons (attr : Attribute) (attributes : List Attribute) :
    valueSize (attr :: attributes) =
      Text.byteLength attr.value.toList + valueSize attributes := by
  rw [valueSize, List.map_cons, List.sum_cons, ← valueSize]

/-- The bytes that a node itself holds: its content and the values of its attributes. -/
def NodeKind.byteSize (kind : NodeKind) : Nat :=
  (kind.content?.map fun content => Text.byteLength content.toList).getD 0 +
    valueSize kind.attributes

namespace Xml

open Reaching (reached)

/-- From one reader to a later one, each byte that is held anew was read, or it was brought by one
of the expansions between, of which none was beyond the limit. -/
structure Accrues (limit bound : Nat) (r : Reader) (before : Nat) (next : Reader) (after : Nat) :
    Prop where
  within : r.log.expansions ≤ limit → next.log.expansions ≤ limit
  balance : after + next.remaining + r.log.expansions * bound ≤
    before + r.remaining + next.log.expansions * bound

namespace Accrues

variable {limit bound before during after : Nat} {r middle next : Reader}

theorem trans (first : Accrues limit bound r before middle during)
    (second : Accrues limit bound middle during next after) :
    Accrues limit bound r before next after where
  within room := second.within (first.within room)
  balance := by
    have := first.balance
    have := second.balance
    omega

/-- What is held besides is held on. -/
theorem frame (besides : Nat) (accrues : Accrues limit bound r before next after) :
    Accrues limit bound r (before + besides) next (after + besides) where
  within := accrues.within
  balance := by
    have := accrues.balance
    omega

theorem add (before : Nat) {held : Nat} (accrues : Accrues limit bound r 0 next held) :
    Accrues limit bound r before next (held + before) := by
  have framed := accrues.frame before
  rwa [Nat.zero_add] at framed

theorem mono {fewer more : Nat} (accrues : Accrues limit bound r before next after)
    (le : before ≤ more) (le' : fewer ≤ after) : Accrues limit bound r more next fewer where
  within := accrues.within
  balance := by
    have := accrues.balance
    omega

theorem quiet (same : next.log.expansions = r.log.expansions)
    (taken : after + next.remaining ≤ before + r.remaining) :
    Accrues limit bound r before next after where
  within room := same ▸ room
  balance := by
    rw [same]
    omega

theorem refl : Accrues limit bound r before r before := .quiet rfl (Nat.le_refl _)

/-- What is only skipped does not count. -/
theorem further (same : middle.log.expansions = r.log.expansions)
    (left : middle.remaining ≤ r.remaining) (rest : Accrues limit bound middle before next after) :
    Accrues limit bound r before next after :=
  (quiet same (Nat.add_le_add_left left before)).trans rest

theorem past {α : Type} [Reaching α] {step : Except ParseFailure α} {least : α → Nat} {a : α}
    (takes : Takes r step least) (found : step = .ok a)
    (rest : Accrues limit bound (reached a) before next after) :
    Accrues limit bound r before next after :=
  rest.further (takes.same found) (Nat.le_trans (Nat.le_add_left ..) (takes.taken found))

theorem pastBlanks (rest : Accrues limit bound r.skipBlanks before next after) :
    Accrues limit bound r before next after :=
  rest.further (show r.skipBlanks.log.expansions = _ from rfl) r.remaining_skipBlanks_le

/-- A step that expands nothing holds what it took. -/
theorem taken {α : Type} [Reaching α] {step : Except ParseFailure α} {least : α → Nat} {a : α}
    (takes : Takes r step least) (found : step = .ok a) {held : Nat} (few : held ≤ least a) :
    Accrues limit bound r before (reached a) (held + before) := by
  have taken := takes.taken found
  exact .quiet (takes.same found) (by omega)

end Accrues

namespace Reader

variable {r next middle inner : Reader} {options : ParseOptions} {cx : Context} {bound : Nat}
  {before during : Nat} {entity replacement : String}

/-- Replacement text is read at the price of one expansion. -/
theorem accrues_within (table : cx.entities.Within bound)
    (read : r.reference cx = .ok (.entity entity replacement, middle))
    (inside : Accrues cx.options.maxExpansions bound (middle.enter replacement) before inner
      during) :
    Accrues cx.options.maxExpansions bound r before (middle.resume inner) during := by
  obtain ⟨counted, room, -, left⟩ := of_reference_entity read
  have short : Text.byteLength replacement.toList ≤ bound := table _ (mem_of_reference read)
  have balance := inside.balance
  have entered : (middle.enter replacement).log.expansions = r.log.expansions + 1 := counted
  have whole : (middle.enter replacement).remaining = Text.byteLength replacement.toList := rfl
  have resumed : (middle.resume inner).remaining = middle.remaining := rfl
  have kept : (middle.resume inner).log.expansions = inner.log.expansions := rfl
  refine ⟨fun _ => inside.within (by omega), ?_⟩
  rw [entered, Nat.succ_mul, whole] at balance
  rw [resumed, kept]
  omega

/-- Replacement text without markup is taken over at the price of one expansion. -/
theorem accrues_plain (table : cx.entities.Within bound)
    (read : r.reference cx = .ok (.entity entity replacement, middle)) :
    Accrues cx.options.maxExpansions bound r before middle
      (Text.byteLength replacement.toList + before) := by
  obtain ⟨counted, room, -, left⟩ := of_reference_entity read
  have short : Text.byteLength replacement.toList ≤ bound := table _ (mem_of_reference read)
  refine ⟨fun _ => by omega, ?_⟩
  rw [counted, Nat.succ_mul]
  omega

theorem accrues_text {content : List Char} (read : r.reference cx = .ok (.text content, middle)) :
    Accrues cx.options.maxExpansions bound r before middle (Text.byteLength content + before) := by
  obtain ⟨same, -, taken⟩ := of_reference_text read
  exact .quiet same (by omega)

theorem accrues_char {c : Char} (read : r.char cx.options = .ok (c, middle)) :
    Accrues cx.options.maxExpansions bound r before middle (c.utf8Size + before) := by
  have taken := (takes_char ..).taken read
  simp only [reached_reader, reached_pair] at taken
  exact .quiet ((takes_char ..).same read) (by omega)

theorem utf8Size_attributeChar_le (c : Char) : (attributeChar c).utf8Size ≤ c.utf8Size := by
  unfold attributeChar
  split
  · exact c.utf8Size_pos
  · exact Nat.le_refl _

theorem accrues_attributeText {quote : Option Char} {value found : List Char}
    (table : cx.entities.Within bound) (h : attributeText cx quote r value = .ok (found, next)) :
    Accrues cx.options.maxExpansions bound r (Text.byteLength value) next
      (Text.byteLength found) := by
  fun_induction attributeText cx quote r value generalizing found next with
  | case1 | case4 | case7 => exact absurd h not_fail
  | case2 => cases h; exact .quiet rfl (Nat.le_refl _)
  | case3 => cases h; exact .quiet rfl (Nat.add_le_add_left (remaining_skip_le ..) _)
  | case5 | case8 | case10 => cases h
  | case6 =>
    rename_i read ih
    refine (accrues_text read).trans ?_
    have rest := ih table h
    rwa [Text.byteLength_append, byteLength_reverse] at rest
  | case9 =>
    rename_i read _ _ _ inside within ih
    exact (accrues_within table read (within table inside)).trans (ih table h)
  | case11 =>
    rename_i c _ read ih
    refine (accrues_char read).trans ((ih table h).mono ?_ (Nat.le_refl _))
    rw [Text.byteLength_cons]
    exact Nat.add_le_add_right (utf8Size_attributeChar_le c) _

/-! ## Tags -/

theorem accrues_attr {attr : Attribute} (table : cx.entities.Within bound)
    (h : r.attr cx = .ok (attr, next)) :
    Accrues cx.options.maxExpansions bound r 0 next (Text.byteLength attr.value.toList) := by
  obtain ⟨⟨name, r₁⟩, named, h⟩ := bind_eq_ok.mp h
  obtain ⟨r₂, equals, h⟩ := bind_eq_ok.mp h
  obtain ⟨⟨value, r₃⟩, quoted, h⟩ := bind_eq_ok.mp h
  cases h
  obtain ⟨⟨quote, r₄⟩, opened, quoted⟩ := bind_eq_ok.mp quoted
  obtain ⟨⟨text, r₅⟩, read, quoted⟩ := bind_eq_ok.mp quoted
  cases quoted
  dsimp only
  rw [String.toList_ofList, byteLength_reverse]
  exact .past (takes_name ..) named <| .pastBlanks <| .past (takes_expect ..) equals <|
    .pastBlanks <| .past (takes_openQuote ..) opened <| accrues_attributeText table read

theorem valueSize_of_keepAttribute {found kept : List Attribute} {attr : Attribute}
    (h : r.keepAttribute options found attr = .ok (kept, next)) :
    valueSize kept ≤ Text.byteLength attr.value.toList + valueSize found := by
  unfold keepAttribute at h
  split at h
  · obtain ⟨_, _, h⟩ := bind_eq_ok.mp h
    cases h
    exact Nat.le_add_left ..
  · cases h
    exact Nat.le_of_eq (valueSize_cons ..)

theorem accrues_attributes {found attributes : List Attribute} (table : cx.entities.Within bound)
    (h : Reader.attributes cx r found = .ok (attributes, next)) :
    Accrues cx.options.maxExpansions bound r (valueSize found) next (valueSize attributes) := by
  fun_induction Reader.attributes cx r found with
  | case1 => cases h; exact .quiet rfl (Nat.add_le_add_left (remaining_skipBlanks_le _) _)
  | case2 => exact absurd h not_fail
  | case3 | case4 => cases h
  | case5 r found _ _ attr middle read kept last keeps ih =>
    have first := (accrues_attr table read).add (valueSize found)
    refine .pastBlanks (first.trans (.past (passes_keepAttribute ..) keeps ?_))
    exact (ih h).mono (valueSize_of_keepAttribute keeps) (Nat.le_refl _)

theorem values_of_resolveAttributes {scope : Scope} {attributes full : List Attribute}
    (h : resolveAttributes options scope r attributes = .ok (full, next)) :
    full.map (·.value) = attributes.map (·.value) := by
  induction attributes generalizing r full with
  | nil => cases h; rfl
  | cons attr attributes ih =>
    obtain ⟨⟨first, r₁⟩, one, h⟩ := bind_eq_ok.mp h
    obtain ⟨⟨others, r₂⟩, more, h⟩ := bind_eq_ok.mp h
    cases h
    have same : first.value = attr.value := by
      unfold resolveAttribute at one
      split at one
      · obtain ⟨_, _, one⟩ := bind_eq_ok.mp one
        cases one
        rfl
      · cases one
        rfl
    rw [List.map_cons, List.map_cons, same, ih more]

theorem accrues_startTag {depth : Nat} {scope : Scope} {tag : StartTag}
    (table : cx.entities.Within bound) (h : r.startTag cx depth scope = .ok (tag, next)) :
    Accrues cx.options.maxExpansions bound r 0 next tag.kind.byteSize := by
  unfold startTag at h
  split at h
  · exact absurd h not_fail
  · obtain ⟨r₁, opened, h⟩ := bind_eq_ok.mp h
    obtain ⟨⟨written, r₂⟩, named, h⟩ := bind_eq_ok.mp h
    obtain ⟨⟨found, r₃⟩, listed, h⟩ := bind_eq_ok.mp h
    obtain ⟨⟨uri, r₄⟩, element, h⟩ := bind_eq_ok.mp h
    obtain ⟨⟨full, r₅⟩, resolved, h⟩ := bind_eq_ok.mp h
    obtain ⟨⟨closed, r₆⟩, ended, h⟩ := bind_eq_ok.mp h
    cases h
    have size : NodeKind.byteSize (.element (QName.ofText written) uri full) = valueSize found := by
      have values : full.map (·.value) = (found.map (·.value)).reverse := by
        rw [values_of_resolveAttributes resolved, List.map_reverse]
      have sum : valueSize full = valueSize found := by
        have lengths := congrArg (fun values => (values.map (Text.byteLength ·.toList)).sum) values
        simpa [valueSize, Function.comp_def] using lengths
      rw [NodeKind.byteSize, NodeKind.attributes, sum]
      exact Nat.zero_add _
    rw [StartTag.kind, size]
    refine .past (takes_expect ..) opened <| .past (takes_name ..) named <|
      (accrues_attributes table listed).trans ?_
    exact .past (passes_elementUri ..) element <| .past (passes_resolveAttributes ..) resolved <|
      .past (passes_tagEnd ..) ended .refl

end Reader
end Xml
end Markup
