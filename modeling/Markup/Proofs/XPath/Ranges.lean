import Mathlib
import Markup.Proofs.Number.Count
import Markup.Text.Utf8
import Markup.XPath.Function

/-!
# Parts of texts

A part of a text is cut out between two places, which have to be in order and inside the text. They
are computed from numbers where characters are counted, and found by searching where bytes are.
Neither ever leaves the text.
-/

namespace Markup

/-! ## Bytes -/

namespace Text

variable {part text before after : List Char}

/-- The number of bytes before the first place where a text contains a part. -/
def byteOffset? (part : List Char) : List Char → Option Nat
  | [] => if part.isEmpty then some 0 else none
  | first :: rest =>
    if part.isPrefixOf (first :: rest) then some 0
    else (byteOffset? part rest).map (first.utf8Size + ·)

/-- What comes before and after so many bytes of a text, unless they end inside a character or go
beyond the end. -/
def cutAt? : List Char → Nat → Option (List Char × List Char)
  | text, 0 => some ([], text)
  | [], _ + 1 => none
  | first :: rest, offset + 1 =>
    if offset + 1 < first.utf8Size then none
    else (cutAt? rest (offset + 1 - first.utf8Size)).map fun (before, after) =>
      (first :: before, after)

/-- A text can be cut where a part of it ends. -/
theorem cutAt?_append : cutAt? (before ++ after) (byteLength before) = some (before, after) := by
  induction before with
  | nil => exact cutAt?.eq_1 after
  | cons c rest ih =>
    obtain ⟨offset, length⟩ : ∃ offset, byteLength (c :: rest) = offset + 1 :=
      Nat.exists_eq_add_one.mpr (by rw [byteLength_cons]; exact Nat.add_pos_left c.utf8Size_pos _)
    have left : offset + 1 - c.utf8Size = byteLength rest := by
      rw [← length, byteLength_cons]
      omega
    have inside : ¬ offset + 1 < c.utf8Size := by
      rw [← length, byteLength_cons]
      omega
    rw [length, List.cons_append, cutAt?, if_neg inside, left, ih]
    rfl

theorem splitAround_eq_some (found : splitAround part text = some (before, after)) :
    text = before ++ part ++ after := by
  induction text generalizing before with
  | nil =>
    rw [splitAround] at found
    split at found
    · next empty =>
      cases found
      rw [List.isEmpty_iff.mp empty]
      rfl
    · cases found
  | cons first rest ih =>
    rw [splitAround] at found
    split at found
    · next starts =>
      cases found
      obtain ⟨behind, split⟩ := List.isPrefixOf_iff_prefix.mp starts
      rw [List.nil_append, ← split, List.drop_left]
    · obtain ⟨⟨inner, behind⟩, deeper, same⟩ := Option.map_eq_some_iff.mp found
      cases same
      rw [ih deeper]
      rfl

/-- The bytes are those of what comes before. -/
theorem byteOffset?_eq :
    byteOffset? part text = (splitAround part text).map fun found => byteLength found.1 := by
  induction text with
  | nil =>
    rw [byteOffset?, splitAround]
    split <;> rfl
  | cons first rest ih =>
    rw [byteOffset?, splitAround, ih]
    split
    · rfl
    · cases splitAround part rest with
      | none => rfl
      | some found => exact congrArg some (byteLength_cons ..).symm

/-- The characters from one number to another, unless these are out of order or beyond the end. -/
def between? (text : List Char) (low high : Nat) : Option (List Char) :=
  if low ≤ high ∧ high ≤ text.length then some ((text.take high).drop low) else none

/-- What comes before the first place where a text contains a part is cut off there. -/
theorem cutAt?_before (found : splitAround part text = some (before, after)) :
    cutAt? text (byteLength before) = some (before, part ++ after) := by
  rw [splitAround_eq_some found, List.append_assoc]
  exact cutAt?_append

/-- What comes after the first place where a text contains a part is cut off behind it. -/
theorem cutAt?_after (found : splitAround part text = some (before, after)) :
    cutAt? text (byteLength before + byteLength part) = some (before ++ part, after) := by
  rw [splitAround_eq_some found, ← byteLength_append]
  exact cutAt?_append

end Text

/-! ## Characters -/

namespace Number

variable {x : Float} {n : Nat}

/-- The lesser of two numbers, or the one of them that is a number. -/
def lesser (x y : Float) : Float := if x ≤ y ∨ y.isNaN = true then x else y

/-- The greater of two numbers, or the one of them that is a number. -/
def greater (x y : Float) : Float := if y ≤ x ∨ y.isNaN = true then x else y

end Number

namespace XPath

open Number

variable {x : Float} {n : Nat} {text : List Char}

theorem countOf_greater_zero : countOf (greater x 0) = countOf x := by
  have number : (0 : Float).isNaN = false := rfl
  rw [greater, number]
  split
  · rfl
  · next below =>
    rw [not_or] at below
    exact (toNat_toUInt64_of_not_le below.1).symm

theorem countOf_lesser (small : n < 2 ^ 53) (number : x.isNaN = false) :
    countOf (lesser x (.ofNat n)) = min (countOf x) n := by
  rw [lesser, isNaN_ofNat small]
  split
  · next le =>
    rw [or_iff_left Bool.false_ne_true] at le
    exact (Nat.min_eq_left (toNat_toUInt64_le small le)).symm
  · next above =>
    rw [or_iff_left Bool.false_ne_true] at above
    have most : n ≤ countOf x := le_toNat_toUInt64 small number above
    rw [Nat.min_eq_right most]
    exact toNat_toUInt64_ofNat small

/-- The characters from a position on, or as many of them as a length says, where the first and the
last of them are looked up in the text. -/
def sliceBetween? (text : List Char) (start : Float) (length : Option Float) :
    Option (List Char) :=
  let count := Float.ofNat text.length
  let first := round start
  let finish :=
    match length with
    | some length => first + round length
    | none => count + 1
  if first.isNaN || finish.isNaN then some []
  else
    let low := countOf (greater (first - 1) 0)
    let high := countOf (greater (lesser (finish - 1) count) 0)
    if high ≤ low then some [] else Text.between? text low high

theorem between?_eq (low high : Nat) :
    (if min high text.length ≤ low then some []
      else Text.between? text low (min high text.length)) = some ((text.take high).drop low) := by
  split
  · next empty =>
    rw [List.drop_eq_nil_of_le (by rwa [List.length_take])]
  · next inside =>
    rw [Text.between?, if_pos ⟨(Nat.lt_of_not_le inside).le, Nat.min_le_right ..⟩,
      ← List.take_eq_take_min]

/-- Whatever a position and a length are, the places that they stand for are inside the text. -/
theorem sliceBetween?_eq (short : text.length + 1 < 2 ^ 53) (start : Float)
    (length : Option Float) : sliceBetween? text start length = some (slice text start length) := by
  have small : text.length < 2 ^ 53 := by omega
  unfold sliceBetween? slice
  dsimp only
  rw [countOf_greater_zero, countOf_greater_zero]
  cases other : (round start).isNaN with
  | true => rfl
  | false =>
    rw [Bool.false_or, if_neg Bool.false_ne_true]
    cases length with
    | none =>
      have number : (Float.ofNat text.length + 1 - 1).isNaN = false := by
        rw [isNaN_sub_one, isNaN_ofNat_add_one short]
      have whole : countOf (Float.ofNat text.length + 1 - 1) = text.length :=
        toNat_toUInt64_add_sub_one short
      rw [isNaN_ofNat_add_one short, if_neg Bool.false_ne_true, countOf_lesser small number,
        between?_eq, whole, List.take_length]
    | some length =>
      dsimp only
      cases other' : (round start + round length).isNaN with
      | true =>
        have none : countOf (round start + round length - 1) = 0 :=
          toNat_toUInt64_of_isNaN (isNaN_sub_one.trans other')
        rw [if_pos rfl, none, List.take_zero, List.drop_nil]
      | false =>
        rw [if_neg Bool.false_ne_true, countOf_lesser small (isNaN_sub_one.trans other'),
          between?_eq]

end XPath
end Markup
