import Markup.Text.Utf8

/-!
# Positions in a text

A position counts lines and columns from one and bytes of the UTF-8 form from zero. A column is
counted in characters. Only a line feed ends a line.
-/

namespace Markup

/-- A place between two characters of a text. -/
structure Position where
  line : Nat
  column : Nat
  /-- The number of bytes before this place. -/
  offset : Nat
  deriving Repr, DecidableEq, Inhabited

namespace Position

/-- The place before the first character. -/
def start : Position := ⟨1, 1, 0⟩

/-- The place after one more character. -/
def next (position : Position) (c : Char) : Position :=
  if c == '\n' then ⟨position.line + 1, 1, position.offset + 1⟩
  else ⟨position.line, position.column + 1, position.offset + c.utf8Size⟩

/-- The place after a run of characters. -/
def after (position : Position) (text : List Char) : Position :=
  text.foldl next position

/-- Line and column, as messages show them. -/
def toText (position : Position) : String :=
  s!"{position.line}:{position.column}"

@[simp] theorem after_nil (position : Position) : position.after [] = position := rfl

@[simp] theorem after_cons (position : Position) (c : Char) (text : List Char) :
    position.after (c :: text) = (position.next c).after text := rfl

theorem after_append (position : Position) (text more : List Char) :
    position.after (text ++ more) = (position.after text).after more := by
  rw [after, after, after, List.foldl_append]

/-- The bytes of a run of characters are counted. -/
theorem offset_after (position : Position) (text : List Char) :
    (position.after text).offset = position.offset + Text.byteLength text := by
  induction text generalizing position with
  | nil => rfl
  | cons c rest ih =>
    have one : (position.next c).offset = position.offset + c.utf8Size := by
      unfold next
      split
      · rename_i feed
        rw [eq_of_beq feed]
        rfl
      · rfl
    rw [after_cons, ih, one, Text.byteLength_cons, Nat.add_assoc]

end Position
end Markup
