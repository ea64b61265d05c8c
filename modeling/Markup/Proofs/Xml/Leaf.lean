import Markup.Proofs.Xml.Line

/-!
# Comments, CDATA sections and instructions

What each of the three can hold, what it is read as, and what the strict parser makes of the text
of one.
-/

namespace Markup.Xml

/-- What a comment can hold: no two hyphens in a row, and none at its end. -/
structure IsComment (text : List Char) : Prop where
  legal : IsLegal text
  clear : Clear "--".toList text

/-- What one CDATA section can hold: not its end. -/
structure IsSection (text : List Char) : Prop where
  legal : IsLegal text
  clear : Clear "]]>".toList text

/-- What an instruction can hold after its target and a blank. Nothing changes it later, so that its
line ends are those that were read. -/
structure IsData (text : List Char) : Prop where
  plain : '\r' ∉ text
  legal : IsLegal text
  clear : Clear "?>".toList text
  solid : text.head?.any (!Text.isMarkupBlank ·) = true

/-- The target of an instruction. -/
structure IsTarget (options : ParseOptions) (target : String) : Prop where
  named : IsName options target
  free : Text.equalsIgnoringCase target.toList ['x', 'm', 'l'] = false

theorem IsData.exists_cons {text : List Char} (within : IsData text) :
    ∃ c rest, text = c :: rest ∧ Text.isMarkupBlank c = false := by
  have solid := within.solid
  cases text with
  | nil => simp at solid
  | cons c rest => exact ⟨c, rest, rfl, by simpa using solid⟩

theorem IsComment.lineEnds {text : List Char} (within : IsComment text) :
    IsComment (lineEnds text) :=
  ⟨isLegal_lineEnds within.legal, within.clear.lineEnds (by decide)⟩

theorem IsSection.lineEnds {text : List Char} (within : IsSection text) :
    IsSection (lineEnds text) :=
  ⟨isLegal_lineEnds within.legal, within.clear.lineEnds (by decide)⟩

namespace Reader

variable {r next : Reader} {options : ParseOptions} {text tail before content : List Char}

/-! ## Comments -/

theorem commentText_cons {c : Char} (inside : ¬ "--".toList <+: r.rest)
    (read : r.char options = .ok (c, next)) :
    commentText options r before = commentText options next (c :: before) := by
  rw [commentText]
  split
  · rename_i empty
    simp [char, empty, fail] at read
  · rename_i spelled
    exact absurd (by simp [spelled]) inside
  · rename_i spelled
    exact absurd (by simp [spelled]) inside
  · split
    · rename_i failed
      rw [read] at failed
      cases failed
    · rename_i again
      rw [read] at again
      cases again
      rfl

/-- A comment is read up to the first two hyphens. -/
theorem exists_commentText (options : ParseOptions) (before : List Char) (within : IsComment text)
    (spelled : r.rest = text ++ "--".toList ++ '>' :: tail) :
    ∃ next, commentText options r before = .ok ((lineEnds text).reverse ++ before, next) ∧
      next.rest = tail := by
  induction count : text.length using Nat.strongRecOn generalizing text r before with
  | ind length ih =>
    by_cases nonempty : text = []
    · subst nonempty
      refine ⟨r.skip 3, ?_, by simp [spelled]⟩
      rw [commentText]
      split <;> simp_all [lineEnds]
    · have inside : ¬ "--".toList <+: r.rest := by
        rw [spelled]
        exact within.clear.not_prefix nonempty
      obtain ⟨c, later, next, read, rest, same, shorter, legal, clear⟩ :=
        exists_char (by decide) within.legal within.clear nonempty spelled
      obtain ⟨last, reads, ends⟩ :=
        ih later.length (count ▸ shorter) (c :: before) ⟨legal, clear⟩ rest rfl
      refine ⟨last, ?_, ends⟩
      rw [commentText_cons inside read, reads, same]
      simp

theorem spelled_of_commentText (strict : options.recover = false)
    (h : commentText options r before = .ok (content, next)) :
    ∃ text, content = (lineEnds text).reverse ++ before ∧ IsComment text ∧
      r.rest = text ++ "--".toList ++ '>' :: next.rest := by
  fun_induction commentText options r before with
  | case1 => exact absurd h not_fail
  | case2 r before rest spelled =>
    cases h
    exact ⟨[], rfl, ⟨isLegal_nil, trivial⟩, by simp [spelled]⟩
  | case3 => cases h
  | case4 r before _ _ _ middle reported => exact absurd reported (report_ne_ok strict)
  | case5 => cases h
  | case6 r before c middle read more ended hyphens ih =>
    obtain ⟨text, rfl, within, spelled⟩ := ih h
    have inside : ¬ "--".toList <+: r.rest := by
      rintro ⟨later, known⟩
      exact hyphens later known.symm
    obtain ⟨longer, same, legal, clear, spelled⟩ :=
      extends_of_char strict (by decide) read inside within.legal within.clear spelled
    exact ⟨longer, by simp [same], ⟨legal, clear⟩, spelled⟩

theorem exists_comment (options : ParseOptions) (within : IsComment text)
    (spelled : r.rest = "<!--".toList ++ text ++ "-->".toList ++ tail) :
    ∃ next, r.comment options = .ok (String.ofList (lineEnds text), next) ∧ next.rest = tail := by
  obtain ⟨first, opened, rest⟩ := exists_expectWord
    (show r.rest = "<!--".toList ++ (text ++ "--".toList ++ '>' :: tail) by simp [spelled])
  obtain ⟨last, read, ends⟩ := exists_commentText options [] within rest
  refine ⟨last, ?_, ends⟩
  simp [comment, opened, read, bind, Except.bind, pure, Except.pure]

theorem isComment_of_comment {content : String} (strict : options.recover = false)
    (h : r.comment options = .ok (content, next)) :
    IsComment content.toList ∧ '\r' ∉ content.toList := by
  obtain ⟨first, opened, h⟩ := bind_eq_ok.mp h
  obtain ⟨⟨found, last⟩, read, h⟩ := bind_eq_ok.mp h
  cases h
  obtain ⟨text, rfl, within, -⟩ := spelled_of_commentText strict read
  simp only [List.append_nil, List.reverse_reverse, String.toList_ofList]
  exact ⟨within.lineEnds, not_mem_lineEnds text⟩

/-! ## CDATA sections -/

theorem exists_cdataSection (options : ParseOptions) (within : IsSection text)
    (spelled : r.rest = "<![CDATA[".toList ++ text ++ "]]>".toList ++ tail) :
    ∃ next, r.cdataSection options = .ok (String.ofList (lineEnds text), next) ∧
      next.rest = tail := by
  obtain ⟨first, opened, rest⟩ := exists_expectWord
    (show r.rest = "<![CDATA[".toList ++ (text ++ "]]>".toList ++ tail) by simp [spelled])
  obtain ⟨last, read, ends⟩ :=
    exists_upTo options .cdataSection [] (by decide) within.legal within.clear rest
  refine ⟨last, ?_, ends⟩
  simp [cdataSection, opened, read, bind, Except.bind, pure, Except.pure]

theorem isSection_of_cdataSection {content : String} (strict : options.recover = false)
    (h : r.cdataSection options = .ok (content, next)) :
    IsSection content.toList ∧ '\r' ∉ content.toList := by
  obtain ⟨first, opened, h⟩ := bind_eq_ok.mp h
  obtain ⟨⟨found, last⟩, read, h⟩ := bind_eq_ok.mp h
  cases h
  obtain ⟨text, rfl, legal, clear, -⟩ := spelled_of_upTo strict (by decide) read
  simp only [List.append_nil, List.reverse_reverse, String.toList_ofList]
  exact ⟨IsSection.lineEnds ⟨legal, clear⟩, not_mem_lineEnds text⟩

/-! ## Instructions -/

theorem exists_instruction {target : String} (free : IsTarget options target)
    (spelled : r.rest = "<?".toList ++ target.toList ++ "?>".toList ++ tail) :
    ∃ next, r.instruction options = .ok ((target, none), next) ∧ next.rest = tail := by
  obtain ⟨first, opened, rest⟩ := exists_expectWord
    (show r.rest = "<?".toList ++ (target.toList ++ ("?>".toList ++ tail)) by simp [spelled])
  have ends : isNameChar '?' = false := by decide
  obtain ⟨second, named, rest⟩ := exists_name free.named rest (by simp [ends])
  obtain ⟨last, closed, ends⟩ := exists_expectWord rest
  have solid : second.seesBlank = false := by simp [seesBlank, rest]; decide
  refine ⟨last, ?_, ends⟩
  simp [instruction, opened, named, free.free, solid, closed, bind, Except.bind, pure, Except.pure]

theorem exists_instruction_data {target : String} (free : IsTarget options target)
    (within : IsData text)
    (spelled : r.rest = "<?".toList ++ target.toList ++ ' ' :: text ++ "?>".toList ++ tail) :
    ∃ next, r.instruction options = .ok ((target, some (String.ofList text)), next) ∧
      next.rest = tail := by
  obtain ⟨first, opened, rest⟩ := exists_expectWord
    (show r.rest = "<?".toList ++ (target.toList ++ (' ' :: text ++ "?>".toList ++ tail)) by
      simp [spelled])
  have ends : isNameChar ' ' = false := by decide
  obtain ⟨second, named, rest⟩ := exists_name free.named rest (by simp [ends])
  obtain ⟨c, others, rfl, solid⟩ := within.exists_cons
  have blank : second.seesBlank = true := by simp [seesBlank, rest]; decide
  have bare : second.skipBlanks.rest = c :: others ++ "?>".toList ++ tail := by
    rw [skipBlanks_rest, rest, List.cons_append, List.cons_append,
      List.dropWhile_cons_of_pos (by decide)]
    exact List.dropWhile_cons_of_neg (by simp [solid])
  obtain ⟨last, read, ends⟩ :=
    exists_upTo options .instruction [] (by decide) within.legal within.clear bare
  rw [lineEnds_eq_self within.plain] at read
  refine ⟨last, ?_, ends⟩
  simp [instruction, opened, named, free.free, blank, read, bind, Except.bind, pure, Except.pure]

theorem isTarget_of_instruction {target : String} {data : Option String}
    (strict : options.recover = false)
    (h : r.instruction options = .ok ((target, data), next)) :
    IsTarget options target ∧ ∀ text ∈ data, IsData text.toList := by
  obtain ⟨first, opened, h⟩ := bind_eq_ok.mp h
  obtain ⟨⟨name, second⟩, named, h⟩ := bind_eq_ok.mp h
  have isName := (isName_of_name named).1
  dsimp only at h
  split at h
  · exact absurd h not_fail
  · rename_i free
    split at h
    · obtain ⟨⟨found, last⟩, read, h⟩ := bind_eq_ok.mp h
      cases h
      refine ⟨⟨isName, by simpa using free⟩, fun text given => ?_⟩
      obtain ⟨raw, rfl, legal, clear, spelled⟩ := spelled_of_upTo strict (by decide) read
      simp only [List.append_nil, List.reverse_reverse, Option.ite_none_left_eq_some,
        Option.mem_def, Option.some.injEq] at given
      obtain ⟨more, rfl⟩ := given
      rw [String.toList_ofList]
      refine ⟨not_mem_lineEnds raw, isLegal_lineEnds legal, clear.lineEnds (by decide), ?_⟩
      -- The blanks after the target were passed over, so that the data begins with none.
      cases raw with
      | nil => simp [lineEnds] at more
      | cons c rest =>
        have solid : Text.isMarkupBlank c = false := not_isMarkupBlank_skipBlanks spelled
        have plain : c ≠ '\r' := by
          rintro rfl
          exact absurd solid (by decide)
        rw [lineEnds.eq_3 c rest (fun _ same => absurd same plain) plain]
        simpa using solid
    · obtain ⟨last, closed, h⟩ := bind_eq_ok.mp h
      cases h
      exact ⟨⟨isName, by simpa using free⟩, by simp⟩

end Reader
end Markup.Xml
