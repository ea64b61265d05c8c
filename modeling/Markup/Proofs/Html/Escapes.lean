import Markup.Proofs.Html.Progress
import Markup.Xml.Writer

/-!
# Escapes in lenient markup

Written text is escaped without regard to who reads it. A lenient reader takes every escape for the
character that it was written for, whatever comes next, since each of them ends with a semicolon. So
it reads text and attribute values as they were, up to the markup or the quote after them.
-/

namespace Markup.Html

open Xml (escapeTextChar escapeAttributeChar hexReference)

variable {c : Char} {written digits tail : List Char}

/-! ## References -/

/-- A written reference stands for a character, whatever comes after it. -/
structure StandsFor (written : List Char) (c : Char) : Prop where
  marked : written.head? = some '&'
  read : ∀ tail, Reference.ofText? (written ++ tail) = some ⟨c, written.length, true⟩

/-- A reference by hexadecimal number. The digits end where the semicolon stands. -/
theorem standsFor_hex (nonempty : digits ≠ []) (numeric : ∀ d ∈ digits, Text.isHexDigit d = true)
    (value : numberedCharacter (Text.digitsValue 16 digits) = c) :
    StandsFor ("&#x".toList ++ digits ++ [';']) c := by
  refine ⟨rfl, fun tail => ?_⟩
  have spelled : "&#x".toList ++ digits ++ [';'] ++ tail =
      '&' :: '#' :: 'x' :: (digits ++ ';' :: tail) := by simp
  have whole : (digits ++ ';' :: tail).takeWhile Text.isHexDigit = digits := by
    rw [List.takeWhile_append_of_pos numeric, List.takeWhile_cons_of_neg (by decide),
      List.append_nil]
  rw [spelled, Reference.ofText?, Reference.numbered?, whole, List.drop_left, value]
  simp [nonempty, Reference.close]
  omega

/-- The number of a control character is written with hexadecimal digits. -/
theorem upperHex_control : ∀ number < 0x20,
    (Text.upperHex 0 number).toList ≠ [] ∧
      ((Text.upperHex 0 number).toList.all Text.isHexDigit) = true ∧
      Text.digitsValue 16 (Text.upperHex 0 number).toList = number := by
  decide

theorem standsFor_hexReference (control : c.toNat < 0x20) : StandsFor (hexReference c) c := by
  obtain ⟨nonempty, numeric, value⟩ := upperHex_control c.toNat control
  refine standsFor_hex nonempty (List.all_eq_true.mp numeric) ?_
  rw [value, numberedCharacter, if_pos (show c.toNat.isValidChar from c.valid), Char.ofNat_toNat]

/-- A character of text is written as a reference to it or as itself. -/
theorem escapeTextChar_cases (c : Char) : StandsFor (escapeTextChar c) c ∨
    escapeTextChar c = [c] ∧ c ≠ '&' ∧ c ≠ '<' ∧ c ≠ '\r' := by
  by_cases amp : c = '&'
  · subst amp
    exact .inl ⟨rfl, fun _ => rfl⟩
  by_cases lt : c = '<'
  · subst lt
    exact .inl ⟨rfl, fun _ => rfl⟩
  by_cases gt : c = '>'
  · subst gt
    exact .inl ⟨rfl, fun _ => rfl⟩
  by_cases ret : c = '\r'
  · subst ret
    exact .inl ⟨rfl, fun _ => rfl⟩
  simp only [escapeTextChar, beq_iff_eq, amp, lt, gt, ret, ↓reduceIte]
  split
  · exact .inr ⟨rfl, amp, lt, ret⟩
  · split
    · rename_i control
      exact .inl (standsFor_hexReference control)
    · exact .inr ⟨rfl, amp, lt, ret⟩

/-- A character of an attribute value is written as a reference to it or as itself. -/
theorem escapeAttributeChar_cases (c : Char) : StandsFor (escapeAttributeChar c) c ∨
    escapeAttributeChar c = [c] ∧ c ≠ '&' ∧ c ≠ '"' ∧ c ≠ '\r' := by
  by_cases amp : c = '&'
  · subst amp
    exact .inl ⟨rfl, fun _ => rfl⟩
  by_cases lt : c = '<'
  · subst lt
    exact .inl ⟨rfl, fun _ => rfl⟩
  by_cases gt : c = '>'
  · subst gt
    exact .inl ⟨rfl, fun _ => rfl⟩
  by_cases quot : c = '"'
  · subst quot
    exact .inl ⟨rfl, fun _ => rfl⟩
  by_cases tab : c = '\t'
  · subst tab
    exact .inl ⟨rfl, fun _ => rfl⟩
  by_cases feed : c = '\n'
  · subst feed
    exact .inl ⟨rfl, fun _ => rfl⟩
  by_cases ret : c = '\r'
  · subst ret
    exact .inl ⟨rfl, fun _ => rfl⟩
  simp only [escapeAttributeChar, beq_iff_eq, amp, lt, gt, quot, tab, feed, ret, ↓reduceIte]
  split
  · rename_i control
    exact .inl (standsFor_hexReference control)
  · exact .inr ⟨rfl, amp, quot, ret⟩

namespace Cursor

variable {cursor : Cursor} {stop : List Char → Bool} {escape : Char → List Char}

/-- Only a carriage return is read otherwise than as a reference or as itself. -/
theorem character_of_ne_return (spelled : cursor.rest = c :: tail) (ret : c ≠ '\r') :
    cursor.character = match Reference.ofText? cursor.rest with
      | some reference => some (reference.character, if reference.terminated then
          cursor.skip reference.length else (cursor.skip reference.length).note .semicolonMissing)
      | none => some (c, cursor.skip 1) := by
  unfold character
  split
  · rename_i shape
    exact nomatch shape.symm.trans spelled
  · rename_i shape
    exact absurd (List.cons.inj (shape.symm.trans spelled)).1.symm ret
  · rename_i shape
    exact absurd (List.cons.inj (shape.symm.trans spelled)).1.symm ret
  · rename_i shape
    obtain ⟨rfl, -⟩ := List.cons.inj (shape.symm.trans spelled)
    rfl

theorem character_of_standsFor (stands : StandsFor written c)
    (spelled : cursor.rest = written ++ tail) :
    cursor.character = some (c, cursor.skip written.length) := by
  obtain ⟨more, marked⟩ := List.head?_eq_some_iff.mp stands.marked
  have shape : cursor.rest = '&' :: (more ++ tail) := by rw [spelled, marked, List.cons_append]
  rw [character_of_ne_return shape (by decide), spelled, stands.read]
  rfl

theorem character_of_plain (spelled : cursor.rest = c :: tail) (amp : c ≠ '&') (ret : c ≠ '\r') :
    cursor.character = some (c, cursor.skip 1) := by
  have none : Reference.ofText? cursor.rest = none := by
    rw [spelled]
    unfold Reference.ofText?
    split <;> simp_all
  rw [character_of_ne_return spelled ret, none]

/-- Whether every character, as it is written, is read as that character and does not end what is
being read. -/
structure Survives (stop : List Char → Bool) (escape : Char → List Char) : Prop where
  goes (c : Char) (tail : List Char) : stop (escape c ++ tail) = false
  read {cursor : Cursor} {c : Char} {tail : List Char} (spelled : cursor.rest = escape c ++ tail) :
    ∃ next, cursor.character = some (c, next) ∧ next.rest = tail

theorem survives_text : Survives beginsMarkup escapeTextChar where
  goes c tail := by
    rcases escapeTextChar_cases c with stands | ⟨same, -, lt, -⟩
    · obtain ⟨more, marked⟩ := List.head?_eq_some_iff.mp stands.marked
      rw [marked]
      rfl
    · rw [same]
      unfold beginsMarkup
      split <;> simp_all
  read {cursor c tail} spelled := by
    rcases escapeTextChar_cases c with stands | ⟨same, amp, -, ret⟩
    · exact ⟨_, character_of_standsFor stands spelled, by rw [rest_skip, spelled, List.drop_left]⟩
    · rw [same] at spelled
      exact ⟨_, character_of_plain spelled amp ret, by rw [rest_skip, spelled]; rfl⟩

theorem survives_attribute : Survives (meets (· == '"')) escapeAttributeChar where
  goes c tail := by
    rcases escapeAttributeChar_cases c with stands | ⟨same, -, quot, -⟩
    · obtain ⟨more, marked⟩ := List.head?_eq_some_iff.mp stands.marked
      rw [marked]
      rfl
    · rw [same]
      simpa [meets] using quot
  read {cursor c tail} spelled := by
    rcases escapeAttributeChar_cases c with stands | ⟨same, amp, -, ret⟩
    · exact ⟨_, character_of_standsFor stands spelled, by rw [rest_skip, spelled, List.drop_left]⟩
    · rw [same] at spelled
      exact ⟨_, character_of_plain spelled amp ret, by rw [rest_skip, spelled]; rfl⟩

theorem exists_upTo (survives : Survives stop escape) (ends : stop tail = true)
    (content before : List Char) (spelled : cursor.rest = content.flatMap escape ++ tail) :
    ∃ next, cursor.upTo stop before = (content.reverse ++ before, next) ∧ next.rest = tail := by
  induction content generalizing cursor before with
  | nil =>
    have spelled : cursor.rest = tail := spelled
    refine ⟨cursor, ?_, spelled⟩
    rw [upTo, spelled, if_pos ends]
    rfl
  | cons c content ih =>
    rw [List.flatMap_cons, List.append_assoc] at spelled
    obtain ⟨middle, read, rest⟩ := survives.read spelled
    obtain ⟨next, reads, left⟩ := ih (c :: before) rest
    refine ⟨next, ?_, left⟩
    have round : upToRound stop (cursor, before) = some (middle, c :: before) := by
      rw [upToRound, spelled, if_neg (by rw [survives.goes]; exact Bool.false_ne_true), read]
      rfl
    rw [(isLoop_upTo stop).run_next round, reads, List.reverse_cons, List.append_assoc]
    rfl

/-- Written text is read as it was before, up to where the reading ends. -/
theorem exists_textUpTo (survives : Survives stop escape) (ends : stop tail = true)
    (content : String) (spelled : cursor.rest = content.toList.flatMap escape ++ tail) :
    ∃ next, cursor.textUpTo stop = (content, next) ∧ next.rest = tail := by
  obtain ⟨next, read, rest⟩ := exists_upTo survives ends content.toList [] spelled
  refine ⟨next, ?_, rest⟩
  rw [textUpTo, read, List.append_nil]
  simp

end Cursor

end Markup.Html
