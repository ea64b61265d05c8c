import Markup.Problem
import Markup.Html.Reference
import Markup.Text.Blank

/-!
# Reading lenient markup from its front

Nothing here fails. What is odd is noted, and the reading goes on. The lemmas say by how much each
step shortens the text.
-/

namespace Markup.Html

/-- A text being read. -/
structure Cursor where
  rest : List Char
  position : Position
  /-- What was noted, latest first. -/
  reports : List Diagnostic

namespace Cursor

/-- A cursor at the start of a text. -/
def ofText (text : String) : Cursor := ⟨text.toList, .start, []⟩

/-- Note a problem at the place reached. -/
def note (c : Cursor) (problem : Problem) : Cursor :=
  { c with reports := ⟨.warning, problem, c.position⟩ :: c.reports }

/-- Pass over a number of characters. -/
def skip (c : Cursor) (count : Nat) : Cursor :=
  { c with rest := c.rest.drop count, position := c.position.after (c.rest.take count) }

/-- The leading characters of a class. -/
def leading (c : Cursor) (member : Char → Bool) : List Char := c.rest.takeWhile member

/-- Pass over the leading characters of a class. -/
def skipWhile (c : Cursor) (member : Char → Bool) : Cursor := c.skip (c.leading member).length

/-- Pass over leading blanks. -/
def skipBlanks (c : Cursor) : Cursor := c.skipWhile Text.isMarkupBlank

/-- Pass over everything up to the next `>` and over that. -/
def skipTag (c : Cursor) : Cursor := (c.skipWhile (· != '>')).skip 1

/-- Whether the text goes on with a word. -/
def startsWith (c : Cursor) (word : String) : Bool := word.toList.isPrefixOf c.rest

/-- Whether the text goes on with a word, up to the case of ASCII letters. -/
def startsIgnoringCase (c : Cursor) (word : String) : Bool :=
  Text.startsIgnoringCase c.rest word.toList

/-- Whether a character may stand in the name of a tag. -/
def isTagChar (c : Char) : Bool :=
  Text.isAsciiAlphanumeric c || c == '-' || c == '_' || c == ':' || c == '.'

/-- Read the name of a tag, in lower case. It may be empty. -/
def tagName (c : Cursor) : String × Cursor :=
  (String.ofList (Text.lowerAscii (c.leading isTagChar)), c.skipWhile isTagChar)

/-- Read a literal in quotes, if one comes next. The closing quote may be missing. -/
def quoted (c : Cursor) : Option String × Cursor :=
  match c.rest with
  | quote :: _ =>
    if quote == '"' || quote == '\'' then
      let opened := c.skip 1
      (some (String.ofList (opened.leading (· != quote))),
        (opened.skipWhile (· != quote)).skip 1)
    else (none, c)
  | [] => (none, c)

/-- Read one character or reference. A carriage return, alone or before a line feed, is read as a
line feed, and an ampersand that begins no reference as itself. -/
def character (c : Cursor) : Option (Char × Cursor) :=
  match c.rest with
  | [] => none
  | '\r' :: '\n' :: _ => some ('\n', c.skip 2)
  | '\r' :: _ => some ('\n', c.skip 1)
  | first :: _ =>
    match Reference.ofText? c.rest with
    | some reference =>
      let next := c.skip reference.length
      some (reference.character, if reference.terminated then next else next.note .semicolonMissing)
    | none => some (first, c.skip 1)

/-! ## How far each step goes -/

@[simp] theorem rest_skip (c : Cursor) (count : Nat) : (c.skip count).rest = c.rest.drop count :=
  rfl

@[simp] theorem rest_note (c : Cursor) (problem : Problem) : (c.note problem).rest = c.rest := rfl

theorem length_skip_le (c : Cursor) (count : Nat) :
    (c.skip count).rest.length ≤ c.rest.length := by
  simp

theorem length_skip_lt {c : Cursor} {count : Nat} (positive : 0 < count) (more : c.rest ≠ []) :
    (c.skip count).rest.length < c.rest.length := by
  have := List.length_pos_iff.mpr more
  simp only [rest_skip, List.length_drop]
  omega

theorem length_skipWhile_le (c : Cursor) (member : Char → Bool) :
    (c.skipWhile member).rest.length ≤ c.rest.length :=
  c.length_skip_le _

theorem length_skipBlanks_le (c : Cursor) : c.skipBlanks.rest.length ≤ c.rest.length :=
  c.length_skipWhile_le _

theorem length_skipTag_le (c : Cursor) : c.skipTag.rest.length ≤ c.rest.length :=
  Nat.le_trans (length_skip_le ..) (length_skipWhile_le ..)

theorem length_tagName_le (c : Cursor) : c.tagName.2.rest.length ≤ c.rest.length :=
  c.length_skipWhile_le _

theorem length_lt_of_character {c next : Cursor} {found : Char}
    (h : c.character = some (found, next)) : next.rest.length < c.rest.length := by
  unfold character at h
  split at h
  · cases h
  · rename_i text; cases h; exact length_skip_lt (by decide) (by simp [text])
  · rename_i text; cases h; exact length_skip_lt (by decide) (by simp [text])
  · rename_i text
    split at h
    · rename_i reference found
      cases h
      have shorter : (c.skip reference.length).rest.length < c.rest.length :=
        length_skip_lt (Reference.length_pos_of_ofText? found) (by simp [text])
      split
      · exact shorter
      · simpa using shorter
    · cases h; exact length_skip_lt (by decide) (by simp [text])

theorem rest_eq_nil_of_character {c : Cursor} (h : c.character = none) : c.rest = [] := by
  unfold character at h
  split at h
  · assumption
  · cases h
  · cases h
  · split at h <;> cases h

-- The equations bound by `match` are what the termination proof needs.
set_option linter.unusedVariables false

/-- Read characters and references up to where the text meets a condition, after those read
before, latest first. -/
def upTo (stop : List Char → Bool) (c : Cursor) (before : List Char) : List Char × Cursor :=
  if stop c.rest then (before, c)
  else
    match h : c.character with
    | none => (before, c)
    | some (found, next) => upTo stop next (found :: before)
  termination_by c.rest.length
  decreasing_by exact length_lt_of_character h

/-- Read characters and references up to where the text meets a condition. -/
def textUpTo (c : Cursor) (stop : List Char → Bool) : String × Cursor :=
  let (content, c) := c.upTo stop []
  (String.ofList content.reverse, c)

theorem length_upTo_le (stop : List Char → Bool) (c : Cursor) (before : List Char) :
    (c.upTo stop before).2.rest.length ≤ c.rest.length := by
  fun_induction upTo stop c before with
  | case1 => exact Nat.le_refl _
  | case2 => exact Nat.le_refl _
  | case3 c before _ found next h ih =>
    exact Nat.le_trans ih (Nat.le_of_lt (length_lt_of_character h))

theorem length_textUpTo_le (c : Cursor) (stop : List Char → Bool) :
    (c.textUpTo stop).2.rest.length ≤ c.rest.length :=
  length_upTo_le stop c []

end Cursor
end Markup.Html
