import Markup.Proofs.Name
import Markup.Proofs.Outcome
import Markup.Xml.Content

/-!
# What single steps of the strict parser read

Each step of a reader is described from both sides: what it yields on a text that is spelled as the
step expects it, and how the text was spelled where the step succeeded. Only the text still to be
read decides about success, so that the place reached and the log are left open.
-/

namespace Markup

namespace Xml

/-- A text that is read as a name within the limit on names. -/
structure IsName (options : ParseOptions) (text : String) : Prop where
  start : text.toList.head?.any isNameStart = true
  chars : ∀ c ∈ text.toList, isNameChar c = true
  short : Text.byteLength text.toList ≤ options.maxNameLength

theorem IsName.exists_cons {options : ParseOptions} {text : String} (named : IsName options text) :
    ∃ c rest, text.toList = c :: rest ∧ isNameStart c = true := by
  have start := named.start
  cases spelled : text.toList with
  | nil => simp [spelled] at start
  | cons c rest => exact ⟨c, rest, rfl, by simpa [spelled] using start⟩

/-- No name begins with a blank. -/
theorem solid_of_isNameStart {c : Char} (start : isNameStart c = true) :
    Text.isMarkupBlank c = false := by
  have other := ne_of_isNameStart start
  simp [Text.isMarkupBlank, other ' ' (by decide), other '\t' (by decide),
    other '\r' (by decide), other '\n' (by decide)]

/-- Characters that a document may hold. -/
def IsLegal (text : List Char) : Prop := ∀ c ∈ text, isDocumentChar c = true

@[simp] theorem isLegal_nil : IsLegal [] := nofun

@[simp] theorem isLegal_cons {c : Char} {text : List Char} :
    IsLegal (c :: text) ↔ isDocumentChar c = true ∧ IsLegal text :=
  List.forall_mem_cons

@[simp] theorem isLegal_append {left right : List Char} :
    IsLegal (left ++ right) ↔ IsLegal left ∧ IsLegal right :=
  List.forall_mem_append

@[simp] theorem isLegal_reverse {text : List Char} : IsLegal text.reverse ↔ IsLegal text := by
  simp [IsLegal]

theorem IsName.isLegal {options : ParseOptions} {text : String} (named : IsName options text) :
    IsLegal text.toList :=
  fun c listed => isDocumentChar_of_isNameChar (named.chars c listed)

namespace Reader

variable {r next : Reader} {options : ParseOptions} {text tail : List Char} {c : Char}

theorem rest_skip_length (spelled : r.rest = text ++ tail) : (r.skip text.length).rest = tail := by
  rw [rest_skip, spelled, List.drop_left]

theorem startsWith_iff {word : String} : r.startsWith word = true ↔ word.toList <+: r.rest := by
  rw [startsWith, List.isPrefixOf_iff_prefix]

theorem startsWith_eq_false {word : String} {a : Char} {letters : List Char}
    (begins : word.toList = a :: letters) (spelled : r.rest = c :: tail) (other : a ≠ c) :
    r.startsWith word = false := by
  rw [startsWith, begins, spelled]
  simp [List.isPrefixOf, other]

/-- A strict parser stops at every report of an error. -/
theorem report_ne_ok (strict : options.recover = false) {problem : Problem} :
    r.report options problem ≠ .ok next := by
  simp [report, strict, fail]

/-! ## Expected characters -/

theorem expect_eq_ok (spelled : r.rest = c :: tail) : r.expect c = .ok (r.skip 1) := by
  simp [expect, sees, spelled]

theorem exists_expectAll {word : List Char} (spelled : r.rest = word ++ tail) :
    ∃ next, r.expectAll word = .ok next ∧ next.rest = tail := by
  induction word generalizing r with
  | nil => exact ⟨r, rfl, spelled⟩
  | cons c word ih =>
    obtain ⟨next, read, rest⟩ := ih (show (r.skip 1).rest = word ++ tail by simp [spelled])
    refine ⟨next, ?_, rest⟩
    rw [expectAll, expect_eq_ok spelled]
    exact read

theorem exists_expectWord {word : String} (spelled : r.rest = word.toList ++ tail) :
    ∃ next, r.expectWord word = .ok next ∧ next.rest = tail :=
  exists_expectAll spelled

/-! ## Blanks -/

theorem drop_length_takeWhile (member : Char → Bool) (text : List Char) :
    text.drop (text.takeWhile member).length = text.dropWhile member := by
  induction text with
  | nil => rfl
  | cons c rest ih =>
    by_cases within : member c = true
    · simpa [within] using ih
    · simp [within]

theorem skipBlanks_rest : r.skipBlanks.rest = r.rest.dropWhile Text.isMarkupBlank := by
  rw [skipBlanks, skipWhile, rest_skip, drop_length_takeWhile]

theorem rest_skipBlanks_cons (spelled : r.rest = c :: tail) (solid : Text.isMarkupBlank c = false) :
    r.skipBlanks.rest = r.rest := by
  rw [skipBlanks_rest, spelled, List.dropWhile_cons_of_neg (by simp [solid])]

/-- After blanks were passed over, none comes next. -/
theorem not_isMarkupBlank_skipBlanks (spelled : r.skipBlanks.rest = c :: tail) :
    Text.isMarkupBlank c = false := by
  rw [skipBlanks_rest] at spelled
  have solid := List.head_dropWhile_not Text.isMarkupBlank (l := r.rest) (by simp [spelled])
  simpa [spelled] using solid

/-! ## Characters and names -/

theorem char_eq_ok (spelled : r.rest = c :: tail) (legal : isDocumentChar c = true)
    (plain : c ≠ '\r') : r.char options = .ok (c, r.skip 1) := by
  unfold char
  split
  · simp_all
  · rename_i _ known
    exact absurd (List.cons.inj (spelled.symm.trans known)).1 plain
  · rename_i _ known
    exact absurd (List.cons.inj (spelled.symm.trans known)).1 plain
  · simp_all

/-- A character of content is legal, and a line end is read as a line feed. -/
theorem legal_of_char (strict : options.recover = false) (h : r.char options = .ok (c, next)) :
    isDocumentChar c = true ∧ c ≠ '\r' := by
  unfold char at h
  split at h
  · exact absurd h not_fail
  · cases h; decide
  · cases h; decide
  · rename_i first tail _ single spelled
    split at h
    · rename_i legal
      cases h
      refine ⟨legal, ?_⟩
      rintro rfl
      exact single rfl
    · obtain ⟨middle, reported, -⟩ := exists_of_bind_ok h
      exact absurd reported (report_ne_ok strict)

/-- A name is read as far as it goes. -/
theorem exists_name {name : String} (named : IsName options name)
    (spelled : r.rest = name.toList ++ tail) (ends : tail.head?.all (!isNameChar ·) = true) :
    ∃ next, r.name options = .ok (name, next) ∧ next.rest = tail := by
  obtain ⟨c, rest, letters, start⟩ := named.exists_cons
  have whole : r.rest.takeWhile isNameChar = name.toList := by
    rw [spelled, List.takeWhile_append_of_pos named.chars]
    cases tail with
    | nil => simp
    | cons d tail =>
      rw [List.takeWhile_cons_of_neg (by simpa using ends), List.append_nil]
  refine ⟨r.skip name.toList.length, ?_, rest_skip_length spelled⟩
  unfold Reader.name
  rw [whole]
  split
  · simp_all
  · rename_i first others known
    have same : first = c := by
      rw [spelled, letters] at known
      simp_all
    simp [same, start, Nat.not_lt.mpr named.short]

theorem isName_of_name {name : String} (h : r.name options = .ok (name, next)) :
    IsName options name ∧ r.rest = name.toList ++ next.rest := by
  unfold Reader.name at h
  split at h
  · exact absurd h not_fail
  · rename_i c rest spelled
    split at h
    · rename_i start
      dsimp only at h
      split at h
      · exact absurd h not_fail
      · rename_i short
        cases h
        refine ⟨⟨?_, ?_, ?_⟩, ?_⟩
        · rw [String.toList_ofList, spelled]
          rw [List.takeWhile_cons_of_pos (isNameChar_of_isNameStart start)]
          simpa using start
        · intro c listed
          rw [String.toList_ofList] at listed
          exact List.all_eq_true.mp (List.all_takeWhile ..) c listed
        · rw [String.toList_ofList]
          exact Nat.not_lt.mp short
        · rw [String.toList_ofList, rest_skip]
          rw [drop_length_takeWhile, List.takeWhile_append_dropWhile]
    · exact absurd h not_fail

end Reader
end Xml
end Markup
