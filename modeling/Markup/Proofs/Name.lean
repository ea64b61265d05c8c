import Mathlib.Data.List.TakeDrop
import Mathlib.Data.List.TakeWhile
import Markup.Name

/-!
# Names and their written form

A qualified name that was split off a text is written as that text. A name whose parts are plain
names is split again as it was.
-/

namespace Markup

/-- The characters of names may stand in documents. -/
theorem isDocumentChar_of_isNameChar {c : Char} (named : isNameChar c = true) :
    isDocumentChar c = true := by
  simp only [isNameChar, isNameStart, isDocumentChar, nameStartRanges, nameTailRanges,
    Text.inRanges, List.any_cons, List.any_nil, Bool.or_eq_true, Bool.and_eq_true,
    decide_eq_true_eq, Bool.false_eq_true, or_false] at named ⊢
  omega

theorem isNameChar_of_isNameStart {c : Char} (start : isNameStart c = true) :
    isNameChar c = true := by
  simp [isNameChar, start]

theorem ne_of_isNameStart {c : Char} (start : isNameStart c = true) (d : Char)
    (other : isNameStart d = false) : c ≠ d := by
  rintro rfl
  exact absurd start (by simp [other])

/-- A plain name begins as names do, goes on as they do, and has no colon. -/
theorem isPlainName_iff {text : String} : isPlainName text = true ↔
    text.toList.head?.any isNameStart = true ∧
      ∀ c ∈ text.toList, c ≠ ':' ∧ isNameChar c = true := by
  rw [isPlainName]
  cases text.toList with
  | nil => simp
  | cons first rest =>
    simp only [List.head?_cons, Option.any_some, List.forall_mem_cons, Bool.and_eq_true, bne_iff_ne,
      ne_eq, List.all_eq_true]
    constructor
    · rintro ⟨⟨solid, start⟩, more⟩
      exact ⟨start, ⟨solid, isNameChar_of_isNameStart start⟩, more⟩
    · rintro ⟨start, ⟨solid, -⟩, more⟩
      exact ⟨⟨solid, start⟩, more⟩

namespace QName

/-- The text of a qualified name is cut at its first colon. -/
theorem ofText_eq (text : String) :
    ofText text = match text.toList.dropWhile (· != ':') with
      | [] => ⟨none, text⟩
      | _ :: after => ⟨some (String.ofList (text.toList.takeWhile (· != ':'))),
          String.ofList after⟩ := by
  have whole := List.takeWhile_append_dropWhile (p := (· != ':')) (l := text.toList)
  rw [ofText, List.span_eq_takeWhile_dropWhile]
  cases rest : text.toList.dropWhile (· != ':') with
  | nil =>
    rw [rest, List.append_nil] at whole
    simp [whole]
  | cons c after => rfl

theorem toText_ofText (text : String) : (ofText text).toText = text := by
  have whole := List.takeWhile_append_dropWhile (p := (· != ':')) (l := text.toList)
  rw [ofText_eq]
  cases rest : text.toList.dropWhile (· != ':') with
  | nil => rfl
  | cons c after =>
    have colon : c = ':' := by
      have stops := List.head_dropWhile_not (· != ':') (l := text.toList) (by simp [rest])
      simpa [rest] using stops
    rw [rest, colon] at whole
    rw [← String.toList_inj]
    simpa [toText] using whole

theorem isWellFormed_iff {name : QName} : name.isWellFormed = true ↔
    (∀ nsPrefix ∈ name.nsPrefix, isPlainName nsPrefix = true) ∧
      isPlainName name.localName = true := by
  simp [isWellFormed, Option.all_eq_true]

/-- A name whose parts are plain is split again as it was. -/
theorem ofText_toText {name : QName} (formed : name.isWellFormed = true) :
    ofText name.toText = name := by
  obtain ⟨before, after⟩ := isWellFormed_iff.mp formed
  obtain ⟨_ | nsPrefix, localName⟩ := name
  · have whole : localName.toList.dropWhile (· != ':') = [] := by
      rw [List.dropWhile_eq_nil_iff]
      intro c listed
      simpa using ((isPlainName_iff.mp after).2 c listed).1
    simp [ofText_eq, toText, whole]
  · have solid : ∀ c ∈ nsPrefix.toList, (c != ':') = true := by
      intro c listed
      simpa using ((isPlainName_iff.mp (before nsPrefix rfl)).2 c listed).1
    have spelled : (toText ⟨some nsPrefix, localName⟩).toList =
        nsPrefix.toList ++ ':' :: localName.toList := by
      simp [toText]
    rw [ofText_eq, spelled, List.dropWhile_append_of_pos solid, List.takeWhile_append_of_pos solid]
    simp

/-- A name whose parts are plain is spelled like a name. -/
theorem spelled_of_isWellFormed {name : QName} (formed : name.isWellFormed = true) :
    name.toText.toList.head?.any isNameStart = true ∧
      ∀ c ∈ name.toText.toList, isNameChar c = true := by
  obtain ⟨before, after⟩ := isWellFormed_iff.mp formed
  obtain ⟨start, chars⟩ := isPlainName_iff.mp after
  obtain ⟨_ | nsPrefix, localName⟩ := name
  · exact ⟨start, fun c listed => (chars c listed).2⟩
  · obtain ⟨start', chars'⟩ := isPlainName_iff.mp (before nsPrefix rfl)
    have colon : isNameChar ':' = true := by decide
    cases spelled : nsPrefix.toList with
    | nil => simp [spelled] at start'
    | cons first rest =>
      rw [spelled] at start' chars'
      simp only [toText, String.toList_append, spelled, List.cons_append, List.head?_cons,
        Option.any_some]
      refine ⟨by simpa using start', ?_⟩
      intro c listed
      rw [← List.cons_append, ← List.cons_append, List.mem_append, List.mem_append] at listed
      rcases listed with (listed | listed) | listed
      · exact (chars' c listed).2
      · obtain rfl : c = ':' := by simpa using listed
        exact colon
      · exact (chars c listed).2

end QName
end Markup
