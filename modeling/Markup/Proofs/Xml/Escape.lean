import Markup.Proofs.Xml.Leaf
import Markup.Xml.Writer

/-!
# References and escapes

A character is written as itself or as a reference that is read as that character. The references
are to the five entities of every document, whose names a limit of four bytes admits, and to
characters by decimal number.
-/

namespace Markup.Xml

namespace Reader

variable {r next : Reader} {cx : Context} {options : ParseOptions} {text tail content : List Char}

/-! ## What references stand for -/

theorem legal_of_numeral {base : Nat} {digit : Char → Bool} {c : Char}
    (h : r.numeral base digit = .ok (c, next)) : isDocumentChar c = true := by
  unfold numeral at h
  dsimp only at h
  split at h
  · exact absurd h not_fail
  · split at h
    · exact absurd h not_fail
    · obtain ⟨ended, _, h⟩ := bind_eq_ok.mp h
      split at h
      · rename_i legal
        cases h
        exact legal
      · exact absurd h not_fail

theorem legal_of_charReference {c : Char} (h : r.charReference = .ok (c, next)) :
    isDocumentChar c = true := by
  obtain ⟨first, _, h⟩ := bind_eq_ok.mp h
  split at h
  · exact legal_of_numeral h
  · exact legal_of_numeral h

theorem isLegal_predefined {entity replacement : String}
    (known : predefined? entity = some replacement) : IsLegal replacement.toList := by
  unfold predefined? at known
  split at known <;> cases known <;> simp [IsLegal] <;> decide

theorem isLegal_of_resolve {entity : String} (h : r.resolve cx entity = .ok (.text content, next)) :
    IsLegal content := by
  unfold resolve at h
  split at h
  · rename_i known
    cases h
    exact isLegal_predefined known
  · split at h
    · split at h
      · exact absurd h not_fail
      · split at h
        · exact absurd h not_fail
        · cases h
    · split at h
      · exact absurd h not_fail
      · split at h
        · cases h
          exact isLegal_nil
        · exact absurd h not_fail

theorem isLegal_of_reference (h : r.reference cx = .ok (.text content, next)) :
    IsLegal content := by
  obtain ⟨first, _, h⟩ := bind_eq_ok.mp h
  split at h
  · obtain ⟨⟨c, last⟩, read, h⟩ := bind_eq_ok.mp h
    cases h
    exact isLegal_cons.mpr ⟨legal_of_charReference read, isLegal_nil⟩
  · obtain ⟨⟨entity, second⟩, _, h⟩ := bind_eq_ok.mp h
    obtain ⟨third, _, h⟩ := bind_eq_ok.mp h
    exact isLegal_of_resolve h

/-- The replacement text of an entity that a reference opens is declared. -/
theorem mem_of_reference {entity replacement : String}
    (h : r.reference cx = .ok (.entity entity replacement, next)) :
    (entity, replacement) ∈ cx.entities.internal := by
  obtain ⟨first, _, h⟩ := bind_eq_ok.mp h
  split at h
  · obtain ⟨⟨c, last⟩, _, h⟩ := bind_eq_ok.mp h
    cases h
  · obtain ⟨⟨name, second⟩, _, h⟩ := bind_eq_ok.mp h
    obtain ⟨third, _, h⟩ := bind_eq_ok.mp h
    unfold resolve at h
    dsimp only at h
    split at h
    · cases h
    · split at h
      · rename_i declared
        split at h
        · exact absurd h not_fail
        · split at h
          · exact absurd h not_fail
          · cases h
            obtain ⟨first, last, listed, -⟩ := List.lookup_eq_some_iff.mp declared
            simp [listed]
      · split at h
        · exact absurd h not_fail
        · split at h
          · cases h
          · exact absurd h not_fail

end Reader

/-! ## Escapes -/

/-- A written reference is read as one character, whatever comes after it. -/
structure RefersTo (cx : Context) (written : List Char) (c : Char) : Prop where
  marked : written.head? = some '&'
  read : ∀ {r : Reader} {tail : List Char}, r.rest = written ++ tail →
    ∃ next, r.reference cx = .ok (.text [c], next) ∧ next.rest = tail

variable {cx : Context} {c : Char}

theorem refersTo_entity {entity replacement : String}
    (known : predefined? entity = some replacement) (single : replacement.toList = [c])
    (named : IsName cx.options entity) : RefersTo cx ('&' :: entity.toList ++ [';']) c := by
  refine ⟨rfl, fun {r tail} spelled => ?_⟩
  obtain ⟨a, rest, letters, start⟩ := named.exists_cons
  have opened := Reader.expect_eq_ok
    (show r.rest = '&' :: (entity.toList ++ ';' :: tail) by simp [spelled])
  have ends : isNameChar ';' = false := by decide
  obtain ⟨second, read, rest⟩ := Reader.exists_name named
    (show (r.skip 1).rest = entity.toList ++ ';' :: tail by simp [spelled]) (by simp [ends])
  have closed := Reader.expect_eq_ok rest
  have plain : (r.skip 1).sees '#' = false := by
    have other : a ≠ '#' := by
      rintro rfl
      exact absurd start (by decide)
    simp [Reader.sees, spelled, letters, other]
  refine ⟨second.skip 1, ?_, by simp [rest]⟩
  simp [Reader.reference, opened, plain, read, closed, Reader.resolve, known, single, bind,
    Except.bind]

theorem refersTo_number {digits : List Char} (nonempty : digits ≠ [])
    (numeric : digits.all Char.isDigit = true) (small : Text.digitsValue 10 digits < Nat.pow 2 32)
    (value : Char.ofNat (Text.digitsValue 10 digits) = c) (legal : isDocumentChar c = true) :
    RefersTo cx ('&' :: '#' :: digits ++ [';']) c := by
  rw [List.all_eq_true] at numeric
  refine ⟨rfl, fun {r tail} spelled => ?_⟩
  have opened := Reader.expect_eq_ok
    (show r.rest = '&' :: ('#' :: (digits ++ ';' :: tail)) by simp [spelled])
  have marked := Reader.expect_eq_ok
    (show (r.skip 1).rest = '#' :: (digits ++ ';' :: tail) by simp [spelled])
  have number : ((r.skip 1).skip 1).rest = digits ++ ';' :: tail := by simp [spelled]
  have whole : ((r.skip 1).skip 1).rest.takeWhile Char.isDigit = digits := by
    rw [number, List.takeWhile_append_of_pos numeric]
    rw [List.takeWhile_cons_of_neg (by decide), List.append_nil]
  have closed := Reader.expect_eq_ok (Reader.rest_skip_length number)
  have decimal : ((r.skip 1).skip 1).sees 'x' = false := by
    obtain ⟨d, others, rfl⟩ := List.exists_cons_of_ne_nil nonempty
    have other : d ≠ 'x' := by
      rintro rfl
      exact absurd (numeric 'x' (by simp)) (by decide)
    rw [Reader.sees, number]
    simp [other]
  refine ⟨(((r.skip 1).skip 1).skip digits.length).skip 1, ?_, ?_⟩
  · have sees : (r.skip 1).sees '#' = true := by simp [Reader.sees, spelled]
    simp only [Reader.reference, opened, sees, Reader.charReference, marked, decimal,
      Reader.numeral, whole, bind, Except.bind]
    simp [nonempty, Nat.not_le.mpr small, closed, value, legal, pure, Except.pure]
  · rw [Reader.rest_skip, Reader.rest_skip_length number]
    rfl

/-- The limit on names admits the names of the entities that every document has. -/
theorem isName_predefined {options : ParseOptions} {entity replacement : String}
    (room : 4 ≤ options.maxNameLength) (known : predefined? entity = some replacement) :
    IsName options entity := by
  unfold predefined? at known
  split at known
  case h_6 => cases known
  all_goals exact ⟨by decide, List.all_eq_true.mp (by decide), Nat.le_trans (by decide) room⟩

/-- The control characters that a document may hold. -/
theorem control_of_legal (legal : isDocumentChar c = true) (control : c.toNat < 0x20) :
    c = '\t' ∨ c = '\n' ∨ c = '\r' := by
  simp only [isDocumentChar, Text.inRanges, List.any_cons, List.any_nil, Bool.or_eq_true,
    Bool.and_eq_true, decide_eq_true_eq, Bool.false_eq_true, or_false] at legal
  have point : c.toNat = 0x09 ∨ c.toNat = 0x0A ∨ c.toNat = 0x0D := by omega
  rw [← Char.ofNat_toNat c]
  rcases point with same | same | same <;> rw [same]
  · exact .inl rfl
  · exact .inr (.inl rfl)
  · exact .inr (.inr rfl)

theorem escapeTextChar_plain (legal : isDocumentChar c = true) (amp : c ≠ '&') (lt : c ≠ '<')
    (gt : c ≠ '>') (cr : c ≠ '\r') : escapeTextChar c = [c] := by
  simp only [escapeTextChar, beq_iff_eq, amp, lt, gt, cr, ↓reduceIte, Bool.or_eq_true]
  split
  · rfl
  · rename_i plain
    rw [if_neg]
    intro low
    rcases control_of_legal legal low with tab | feed | ret
    · exact plain (.inl tab)
    · exact plain (.inr feed)
    · exact cr ret

/-- A character of text is written as itself or as a reference to it. -/
theorem escapeTextChar_cases (room : 4 ≤ cx.options.maxNameLength)
    (legal : isDocumentChar c = true) :
    RefersTo cx (escapeTextChar c) c ∨
      escapeTextChar c = [c] ∧ c ≠ '&' ∧ c ≠ '<' ∧ c ≠ '>' ∧ c ≠ '\r' := by
  have entity : ∀ {name replacement : String}, predefined? name = some replacement →
      replacement.toList = [c] → RefersTo cx ('&' :: name.toList ++ [';']) c :=
    fun known single => refersTo_entity known single (isName_predefined room known)
  by_cases amp : c = '&'
  · subst amp
    exact .inl (entity (show predefined? "amp" = some "&" from rfl) rfl)
  by_cases lt : c = '<'
  · subst lt
    exact .inl (entity (show predefined? "lt" = some "<" from rfl) rfl)
  by_cases gt : c = '>'
  · subst gt
    exact .inl (entity (show predefined? "gt" = some ">" from rfl) rfl)
  by_cases cr : c = '\r'
  · subst cr
    exact .inl (refersTo_number (show ['1', '3'] ≠ [] by nofun) (by decide) (by decide) (by decide)
      legal)
  exact .inr ⟨escapeTextChar_plain legal amp lt gt cr, amp, lt, gt, cr⟩

/-- A character of an attribute value is written as itself or as a reference to it. -/
theorem escapeAttributeChar_cases (room : 4 ≤ cx.options.maxNameLength)
    (legal : isDocumentChar c = true) :
    RefersTo cx (escapeAttributeChar c) c ∨
      escapeAttributeChar c = [c] ∧ c ≠ '&' ∧ c ≠ '<' ∧ c ≠ '"' ∧ c ≠ '\r' ∧ c ≠ '\t' ∧
        c ≠ '\n' := by
  have entity : ∀ {name replacement : String}, predefined? name = some replacement →
      replacement.toList = [c] → RefersTo cx ('&' :: name.toList ++ [';']) c :=
    fun known single => refersTo_entity known single (isName_predefined room known)
  by_cases amp : c = '&'
  · subst amp
    exact .inl (entity (show predefined? "amp" = some "&" from rfl) rfl)
  by_cases lt : c = '<'
  · subst lt
    exact .inl (entity (show predefined? "lt" = some "<" from rfl) rfl)
  by_cases gt : c = '>'
  · subst gt
    exact .inl (entity (show predefined? "gt" = some ">" from rfl) rfl)
  by_cases quot : c = '"'
  · subst quot
    exact .inl (entity (show predefined? "quot" = some "\"" from rfl) rfl)
  by_cases tab : c = '\t'
  · subst tab
    exact .inl (refersTo_number (show ['9'] ≠ [] by nofun) (by decide) (by decide) (by decide) legal)
  by_cases feed : c = '\n'
  · subst feed
    exact .inl (refersTo_number (show ['1', '0'] ≠ [] by nofun) (by decide) (by decide) (by decide)
      legal)
  by_cases cr : c = '\r'
  · subst cr
    exact .inl (refersTo_number (show ['1', '3'] ≠ [] by nofun) (by decide) (by decide) (by decide)
      legal)
  refine .inr ⟨?_, amp, lt, quot, cr, tab, feed⟩
  have solid : ¬ c.toNat < 0x20 := by
    intro low
    rcases control_of_legal legal low with tab' | feed' | cr'
    · exact tab tab'
    · exact feed feed'
    · exact cr cr'
  simp [escapeAttributeChar, amp, lt, gt, quot, tab, feed, cr, solid]

/-- A character of text takes no more room than what is written for it. -/
theorem utf8Size_escapeTextChar (legal : isDocumentChar c = true) :
    c.utf8Size ≤ Text.byteLength (escapeTextChar c) := by
  by_cases special : c = '&' ∨ c = '<' ∨ c = '>' ∨ c = '\r'
  · rcases special with rfl | rfl | rfl | rfl <;> decide
  · simp only [not_or] at special
    obtain ⟨amp, lt, gt, cr⟩ := special
    simp [escapeTextChar_plain legal amp lt gt cr]

/-- No greater-than sign stands in written text. -/
theorem not_mem_escapeTextChar (legal : isDocumentChar c = true) : '>' ∉ escapeTextChar c := by
  by_cases special : c = '&' ∨ c = '<' ∨ c = '>' ∨ c = '\r'
  · rcases special with rfl | rfl | rfl | rfl <;> decide
  · simp only [not_or] at special
    obtain ⟨amp, lt, gt, cr⟩ := special
    simpa [escapeTextChar_plain legal amp lt gt cr] using Ne.symm gt

namespace Reader

variable {r next : Reader} {text tail value before : List Char}

/-! ## Attribute values -/

theorem attributeText_char (spelled : r.rest = c :: tail) (amp : c ≠ '&') (lt : c ≠ '<')
    (quot : c ≠ '"') (read : r.char cx.options = .ok (c, next)) :
    attributeText cx (some '"') r before =
      attributeText cx (some '"') next (attributeChar c :: before) := by
  rw [attributeText]
  split
  · simp_all
  · rename_i d rest known
    obtain ⟨rfl, -⟩ := List.cons.inj (spelled.symm.trans known)
    have other : ('"' == c) = false := by simpa using Ne.symm quot
    simp only [Option.some_beq_some, other, beq_iff_eq, amp, lt, ↓reduceIte, Bool.false_eq_true,
      Bool.and_eq_true, false_and]
    split
    · rename_i failed
      rw [read] at failed
      cases failed
    · rename_i again
      rw [read] at again
      cases again
      rfl

theorem attributeText_reference (spelled : r.rest = '&' :: tail)
    (read : r.reference cx = .ok (.text value, next)) :
    attributeText cx (some '"') r before =
      attributeText cx (some '"') next (value.reverse ++ before) := by
  rw [attributeText]
  split
  · simp_all
  · rename_i d rest known
    obtain ⟨rfl, -⟩ := List.cons.inj (spelled.symm.trans known)
    simp only [Option.some_beq_some, beq_iff_eq, Char.reduceEq, ↓reduceIte, Bool.and_eq_true,
      false_and]
    split
    · rename_i failed
      rw [read] at failed
      cases failed
    · rename_i again
      rw [read] at again
      cases again
      rfl
    · rename_i again
      rw [read] at again
      cases again

/-- An attribute value is read as it was before it was written. -/
theorem exists_attributeText (before : List Char) (room : 4 ≤ cx.options.maxNameLength)
    (legal : IsLegal value) (spelled : r.rest = value.flatMap escapeAttributeChar ++ '"' :: tail) :
    ∃ next, attributeText cx (some '"') r before = .ok (value.reverse ++ before, next) ∧
      next.rest = tail := by
  induction value generalizing r before with
  | nil =>
    refine ⟨r.skip 1, ?_, by simp [spelled]⟩
    rw [attributeText]
    split <;> simp_all
  | cons c value ih =>
    rw [isLegal_cons] at legal
    rw [List.flatMap_cons, List.append_assoc] at spelled
    rcases escapeAttributeChar_cases room legal.1 with refers | ⟨same, amp, lt, quot, cr, tab, feed⟩
    · obtain ⟨middle, read, rest⟩ := refers.read spelled
      obtain ⟨rest', marked⟩ := List.head?_eq_some_iff.mp refers.marked
      rw [marked] at spelled
      obtain ⟨last, reads, ends⟩ := ih ([c].reverse ++ before) legal.2 rest
      refine ⟨last, ?_, ends⟩
      rw [attributeText_reference spelled read, reads]
      simp
    · rw [same] at spelled
      have read : r.char cx.options = .ok (c, r.skip 1) := char_eq_ok spelled legal.1 cr
      obtain ⟨last, reads, ends⟩ := ih (attributeChar c :: before) legal.2
        (show (r.skip 1).rest = _ by simp [spelled])
      refine ⟨last, ?_, ends⟩
      rw [attributeText_char spelled amp lt quot read, reads]
      simp [attributeChar, tab, feed]

theorem exists_attributeValue (room : 4 ≤ cx.options.maxNameLength) {value : String}
    (legal : IsLegal value.toList)
    (spelled : r.rest = '"' :: (escapeAttribute value).toList ++ '"' :: tail) :
    ∃ next, r.attributeValue cx = .ok (value, next) ∧ next.rest = tail := by
  have opened : r.openQuote .attributeValue = .ok ('"', r.skip 1) := by
    unfold openQuote
    simp [spelled]
  rw [escapeAttribute, String.toList_ofList] at spelled
  obtain ⟨last, read, ends⟩ := exists_attributeText [] room legal
    (show (r.skip 1).rest = value.toList.flatMap escapeAttributeChar ++ '"' :: tail by
      simp [spelled])
  refine ⟨last, ?_, ends⟩
  simp [attributeValue, opened, read, bind, Except.bind, pure, Except.pure]

theorem isLegal_of_attributeText (strict : cx.options.recover = false) {quote : Option Char}
    (h : attributeText cx quote r before = .ok (value, next)) (legal : IsLegal before) :
    IsLegal value := by
  fun_induction attributeText cx quote r before generalizing value next with
  | case1 => exact absurd h not_fail
  | case2 => cases h; exact legal
  | case3 => cases h; exact legal
  | case4 => exact absurd h not_fail
  | case5 => cases h
  | case6 =>
    rename_i read ih
    apply ih strict h
    rw [isLegal_append, isLegal_reverse]
    exact ⟨isLegal_of_reference read, legal⟩
  | case7 => exact absurd h not_fail
  | case8 => cases h
  | case9 =>
    rename_i inner read within ih
    exact ih strict h (within strict read legal)
  | case10 => cases h
  | case11 =>
    rename_i read ih
    apply ih strict h
    have legalChar := (legal_of_char strict read).1
    rw [isLegal_cons]
    refine ⟨?_, legal⟩
    unfold attributeChar
    split
    · decide
    · exact legalChar

theorem isLegal_of_attributeValue (strict : cx.options.recover = false) {value : String}
    (h : r.attributeValue cx = .ok (value, next)) : IsLegal value.toList := by
  obtain ⟨⟨quote, first⟩, _, h⟩ := bind_eq_ok.mp h
  obtain ⟨⟨found, last⟩, read, h⟩ := bind_eq_ok.mp h
  cases h
  rw [String.toList_ofList, isLegal_reverse]
  exact isLegal_of_attributeText strict read isLegal_nil

end Reader
end Markup.Xml
