import Mathlib.Data.List.Induction
import Mathlib.Data.Nat.Digits.Defs
import Markup.Number.Reading
import Markup.Proofs.XPath.Scanned

/-!
# The integer at the start of a text

An integer at the start of a text is read digit by digit and is kept within 64 bits at every digit.
What comes of it is the exact integer that the text writes, put into the range once.
-/

namespace Markup.Number

open XPath (Ends exists_run)

/-! ## What a text writes -/

/-- The number that decimal digits write, the last of them in the place of the units. -/
def written (digits : List Char) : Nat :=
  Nat.ofDigits 10 (digits.reverse.map fun c => c.toNat - '0'.toNat)

/-- The start of a text in four parts. -/
structure Opening where
  blanks : List Char
  sign : Option Char
  digits : List Char
  rest : List Char

namespace Opening

/-- The text of the parts. -/
def text (opening : Opening) : List Char :=
  opening.blanks ++ (opening.sign.toList ++ (opening.digits ++ opening.rest))

/-- Blanks and digits as far as they go, with a sign between them if there is one. -/
structure IsCut (opening : Opening) : Prop where
  blanks : opening.blanks.all Text.isBlank = true
  sign : ∀ c ∈ opening.sign, c = '-' ∨ c = '+'
  digits : opening.digits.all Char.isDigit = true
  /-- No more blanks and no sign could have been cut off. -/
  unsigned : opening.sign = none → ∀ c ∈ (opening.digits ++ opening.rest).head?,
    Text.isBlank c = false ∧ c ≠ '-' ∧ c ≠ '+'
  ended : ∀ c ∈ opening.rest.head?, c.isDigit = false

/-- The integer that the sign and the digits write; without digits it is zero. -/
def value (opening : Opening) : Int :=
  if opening.sign = some '-' then -written opening.digits else written opening.digits

end Opening

/-! ## Every text has such a start -/

theorem exists_isCut (text : List Char) :
    ∃ opening : Opening, opening.IsCut ∧ opening.text = text := by
  obtain ⟨blanks, behind, rfl, -, all, solid⟩ := exists_run Text.isBlank text
  by_cases signed : ∃ c tail, behind = c :: tail ∧ (c = '-' ∨ c = '+')
  · obtain ⟨c, tail, rfl, isSign⟩ := signed
    obtain ⟨digits, rest, rfl, -, numeric, ended⟩ := exists_run Char.isDigit tail
    exact ⟨⟨blanks, some c, digits, rest⟩,
      ⟨all, by simpa using isSign, numeric, nofun, ended⟩, rfl⟩
  · obtain ⟨digits, rest, rfl, -, numeric, ended⟩ := exists_run Char.isDigit behind
    refine ⟨⟨blanks, none, digits, rest⟩, ⟨all, nofun, numeric, fun _ c front => ?_, ended⟩, rfl⟩
    obtain ⟨tail, spelled⟩ := List.head?_eq_some_iff.mp front
    exact ⟨solid c front, fun same => signed ⟨c, tail, spelled, .inl same⟩,
      fun same => signed ⟨c, tail, spelled, .inr same⟩⟩

namespace Opening.IsCut

variable {opening : Opening}

/-- After the blanks come the sign and the digits. -/
theorem trimStart_text (cut : opening.IsCut) : Text.trimStart Text.isBlank opening.text =
    opening.sign.toList ++ (opening.digits ++ opening.rest) := by
  rw [Text.trimStart, text, List.dropWhile_append_of_pos (List.all_eq_true.mp cut.blanks)]
  cases signed : opening.sign with
  | some c =>
    rcases cut.sign c signed with rfl | rfl
    · exact List.dropWhile_cons_of_neg (by decide)
    · exact List.dropWhile_cons_of_neg (by decide)
  | none =>
    cases behind : opening.digits ++ opening.rest with
    | nil => rfl
    | cons c tail =>
      have solid := (cut.unsigned signed c (by simp [behind])).1
      exact List.dropWhile_cons_of_neg (by simp [solid])

theorem splitSign_trimStart (cut : opening.IsCut) :
    splitSign (Text.trimStart Text.isBlank opening.text) =
      (opening.sign == some '-', opening.digits ++ opening.rest) := by
  rw [cut.trimStart_text]
  cases signed : opening.sign with
  | some c => rcases cut.sign c signed with rfl | rfl <;> rfl
  | none =>
    have plain := cut.unsigned signed
    show splitSign (opening.digits ++ opening.rest) = _
    unfold splitSign
    split
    · rename_i known
      exact absurd rfl (plain '-' (by simp [known])).2.1
    · rename_i known
      exact absurd rfl (plain '+' (by simp [known])).2.2
    · rfl

end Opening.IsCut

/-! ## Keeping to the range -/

/-- One more digit moves a number further away from zero, so that it does not matter whether what
came before was put into the range. -/
theorem saturate_step {n digit : Int} (onward : 0 ≤ n ∧ 0 ≤ digit ∨ n ≤ 0 ∧ digit ≤ 0) :
    saturate (saturate (saturate n * 10) + digit) = saturate (n * 10 + digit) := by
  simp only [saturate]
  omega

theorem digitsValue_digit {c : Char} (isDigit : c.isDigit = true) :
    Text.digitsValue 10 [c] = c.toNat - '0'.toNat := by
  simp [Text.digitsValue, Text.digitValue?, isDigit]

theorem written_concat (digits : List Char) (c : Char) :
    written (digits ++ [c]) = written digits * 10 + (c.toNat - '0'.toNat) := by
  rw [written, List.reverse_concat, List.map_cons, Nat.ofDigits_cons, ← written]
  omega

/-- What is kept within the range at every digit is the exact number put into the range. -/
theorem foldl_saturate (negative : Bool) {digits : List Char}
    (numeric : ∀ c ∈ digits, c.isDigit = true) :
    digits.foldl (fun value c =>
      let digit : Int := Text.digitsValue 10 [c]
      saturate (saturate (value * 10) + if negative then -digit else digit)) 0 =
        saturate (if negative then -written digits else written digits) := by
  induction digits using List.reverseRecOn with
  | nil => cases negative <;> rfl
  | append_singleton digits c ih =>
    rw [List.forall_mem_append, List.forall_mem_singleton] at numeric
    rw [List.foldl_append, ih numeric.1, List.foldl_cons, List.foldl_nil,
      digitsValue_digit numeric.2, written_concat]
    generalize written digits = n
    generalize c.toNat - '0'.toNat = digit
    cases negative with
    | false =>
      simp only [Bool.false_eq_true, ↓reduceIte]
      rw [saturate_step (.inl (by omega))]
      push_cast
      rfl
    | true =>
      simp only [↓reduceIte]
      rw [saturate_step (.inr (by omega))]
      push_cast
      exact congrArg saturate (by omega)

/-- Every text has a start that is cut so, and the integer that is read of the text is the exact one
that its start writes, put into the range of 64 bits. -/
theorem leadingInteger_clamped (text : String) :
    (∃ opening : Opening, opening.IsCut ∧ opening.text = text.toList) ∧
      ∀ opening : Opening, opening.IsCut → opening.text = text.toList → leadingInteger text =
        if opening.value < -2 ^ 63 then -2 ^ 63
        else if 2 ^ 63 - 1 < opening.value then 2 ^ 63 - 1
        else opening.value := by
  refine ⟨exists_isCut text.toList, fun opening cut spelled => ?_⟩
  have numeric := List.all_eq_true.mp cut.digits
  have read : leadingInteger text = saturate opening.value := by
    rw [leadingInteger, ← spelled, cut.splitSign_trimStart]
    dsimp only
    rw [Ends.takeWhile_append cut.ended cut.digits, foldl_saturate _ numeric, Opening.value]
    simp only [beq_iff_eq]
  rw [read, saturate]
  split
  · omega
  · split <;> omega

/-- An integer that is one too small. -/
theorem leadingInteger_clamped_low :
    let opening : Opening := ⟨"  ".toList, some '-', "9223372036854775809".toList, "px".toList⟩
    opening.IsCut ∧ opening.text = "  -9223372036854775809px".toList ∧
      opening.value = -2 ^ 63 - 1 ∧ leadingInteger "  -9223372036854775809px" = -2 ^ 63 := by
  intro opening
  have cut : opening.IsCut :=
    ⟨by decide, by rintro _ ⟨⟩; exact .inl rfl, by decide, nofun, by rintro _ ⟨⟩; rfl⟩
  have spelled : opening.text = "  -9223372036854775809px".toList := by decide
  have value : opening.value = -2 ^ 63 - 1 := by decide
  refine ⟨cut, spelled, value, ?_⟩
  rw [(leadingInteger_clamped _).2 opening cut spelled, if_pos (by rw [value]; decide)]

end Markup.Number
