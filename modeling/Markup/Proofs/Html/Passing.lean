import Markup.Html.Parser

/-!
# Going past lenient markup

A cursor is moved by going past characters and by nothing else, so that it stays between two
characters of the text whatever is read. Each loop of the parser is told by its rounds: a round that
does not end the loop goes past at least one character, and so every loop comes to its end.
-/

namespace Markup
namespace Html
namespace Cursor

variable {c next middle : Cursor} {text more : List Char}

/-- A cursor goes past some text and stands behind it. -/
structure Passes (c : Cursor) (text : List Char) (next : Cursor) : Prop where
  rest : c.rest = text ++ next.rest
  position : next.position = c.position.after text

/-- A cursor goes past some text of at least one byte. -/
structure Advances (c next : Cursor) : Prop where
  passes : ∃ text, Passes c text next
  offset_lt : c.position.offset < next.position.offset

/-- A cursor is moved by going past characters and noting problems. -/
inductive Reaches (c : Cursor) : Cursor → Prop
  | refl : Reaches c c
  | skip {next : Cursor} (count : Nat) : Reaches c next → Reaches c (next.skip count)
  | note {next : Cursor} (problem : Problem) : Reaches c next → Reaches c (next.note problem)

theorem Passes.trans (first : Passes c text middle) (second : Passes middle more next) :
    Passes c (text ++ more) next where
  rest := by rw [first.rest, second.rest, List.append_assoc]
  position := by rw [second.position, first.position, Position.after_append]

theorem passes_skip (c : Cursor) (count : Nat) : Passes c (c.rest.take count) (c.skip count) :=
  ⟨(List.take_append_drop ..).symm, rfl⟩

namespace Reaches

theorem trans (first : Reaches c middle) (second : Reaches middle next) : Reaches c next := by
  induction second with
  | refl => exact first
  | skip count _ ih => exact ih.skip count
  | note problem _ ih => exact ih.note problem

theorem exists_passes (reaches : Reaches c next) : ∃ text, Passes c text next := by
  induction reaches with
  | refl => exact ⟨[], rfl, rfl⟩
  | @skip next count _ ih =>
    obtain ⟨text, passes⟩ := ih
    exact ⟨_, passes.trans (next.passes_skip count)⟩
  | note problem _ ih =>
    obtain ⟨text, passes⟩ := ih
    exact ⟨text, passes.rest, passes.position⟩

/-- A cursor that comes nearer to the end of its text goes past some of it. -/
theorem advances (reaches : Reaches c next) (shorter : next.rest.length < c.rest.length) :
    Advances c next := by
  obtain ⟨text, passes⟩ := reaches.exists_passes
  refine ⟨⟨text, passes⟩, ?_⟩
  cases text with
  | nil => exact absurd (passes.rest ▸ shorter) (Nat.lt_irrefl _)
  | cons d more =>
    have positive := d.utf8Size_pos
    rw [passes.position, Position.offset_after, Text.byteLength_cons]
    omega

/-- Problems are noted at places that are reached. -/
theorem exists_of_mem_reports (reaches : Reaches c next) {report : Diagnostic}
    (noted : report ∈ next.reports) :
    report ∈ c.reports ∨ ∃ place, Reaches c place ∧ report.position = place.position := by
  induction reaches with
  | refl => exact .inl noted
  | skip _ _ ih => exact ih noted
  | note problem reaches ih =>
    rcases List.mem_cons.mp noted with rfl | earlier
    · exact .inr ⟨_, reaches, rfl⟩
    · exact ih earlier

end Reaches

theorem Advances.length_lt (advances : Advances c next) : next.rest.length < c.rest.length := by
  obtain ⟨⟨text, passes⟩, further⟩ := advances
  cases text with
  | nil => exact absurd (passes.position ▸ further) (Nat.lt_irrefl _)
  | cons d more =>
    rw [passes.rest, List.length_append, List.length_cons]
    omega

/-! ## Steps -/

theorem passes_skipWhile (c : Cursor) (member : Char → Bool) :
    Passes c (c.leading member) (c.skipWhile member) := by
  have front : c.rest.take (c.leading member).length = c.leading member :=
    (List.prefix_iff_eq_take.mp (List.takeWhile_prefix member)).symm
  have passes := c.passes_skip (c.leading member).length
  rwa [front] at passes

theorem reaches_skip (c : Cursor) (count : Nat) : Reaches c (c.skip count) := .skip count .refl

theorem reaches_skipWhile (c : Cursor) (member : Char → Bool) : Reaches c (c.skipWhile member) :=
  c.reaches_skip _

theorem reaches_skipBlanks (c : Cursor) : Reaches c c.skipBlanks := c.reaches_skipWhile _

theorem reaches_skipTag (c : Cursor) : Reaches c c.skipTag := .skip 1 (c.reaches_skipWhile _)

theorem reaches_tagName (c : Cursor) : Reaches c c.tagName.2 := c.reaches_skipWhile _

theorem reaches_quoted (c : Cursor) : Reaches c c.quoted.2 := by
  unfold quoted
  split
  · split
    · exact .skip 1 ((c.reaches_skip 1).trans (reaches_skipWhile ..))
    · exact .refl
  · exact .refl

theorem reaches_character {found : Char} (read : c.character = some (found, next)) :
    Reaches c next := by
  unfold character at read
  split at read
  · cases read
  · cases read
    exact c.reaches_skip 2
  · cases read
    exact c.reaches_skip 1
  · split at read
    · cases read
      split
      · exact c.reaches_skip _
      · exact .note _ (c.reaches_skip _)
    · cases read
      exact c.reaches_skip 1

theorem reaches_upTo (stop : List Char → Bool) (c : Cursor) (before : List Char) :
    Reaches c (c.upTo stop before).2 := by
  fun_induction upTo stop c before with
  | case1 => exact .refl
  | case2 => exact .refl
  | case3 c before _ found next read ih => exact (reaches_character read).trans ih

theorem reaches_textUpTo (c : Cursor) (stop : List Char → Bool) :
    Reaches c (c.textUpTo stop).2 := reaches_upTo stop c []

theorem reaches_attributeValue (c : Cursor) : Reaches c c.attributeValue.2 := by
  unfold attributeValue
  split
  · exact .refl
  · split
    · exact .skip 1 ((c.reaches_skip 1).trans (reaches_textUpTo ..))
    · exact c.reaches_textUpTo _

theorem reaches_attributeRest (c : Cursor) (name : String) :
    Reaches c (c.attributeRest name).2 := by
  unfold attributeRest
  dsimp only
  split
  · exact (c.reaches_skipBlanks.skip 1).trans
      ((reaches_skipBlanks _).trans (reaches_attributeValue _))
  · exact c.reaches_skipBlanks

theorem reaches_addAttribute (c : Cursor) (before : List Attribute) (name value : String) :
    Reaches c (c.addAttribute before name value).2 := by
  unfold addAttribute
  split
  · exact .note _ .refl
  · exact .refl

theorem reaches_oneAttribute (c : Cursor) (before : List Attribute) :
    Reaches c (c.oneAttribute before).2 :=
  ((c.reaches_skipWhile _).trans (reaches_attributeRest ..)).trans (reaches_addAttribute ..)

theorem reaches_attributes (c : Cursor) (before : List Attribute) :
    Reaches c (c.attributes before).2 := by
  fun_induction attributes c before with
  | case1 c | case2 c | case3 c => exact c.reaches_skipBlanks
  | case4 c _ _ _ _ _ _ _ ih => exact (c.reaches_skipBlanks.skip 1).trans ih
  | case5 c before _ _ _ _ _ _ read ih =>
    exact (c.reaches_skipBlanks.trans (reaches_oneAttribute ..)).trans ih

theorem reaches_tagEnd (c : Cursor) : Reaches c c.tagEnd.2 := by
  unfold tagEnd
  split <;> exact c.reaches_skip _

theorem reaches_rawText (c : Cursor) (tag : String) : Reaches c (c.rawText tag).2 :=
  (c.reaches_skip _).trans (reaches_skipTag _)

/-! ## Tokens -/

/-- A token is finished at a place that a cursor reaches, with the problems noted up to there, and
the reading goes on from there. -/
def Finishes (c : Cursor) (read : Lexeme × Cursor) : Prop :=
  ∃ place, Reaches c place ∧ read.1.position = place.position ∧
    read.1.reports = place.reports.reverse ∧ Reaches place read.2

/-- A token is finished where the reading goes on. -/
theorem Finishes.done {token : Token} (reaches : Reaches c next) :
    Finishes c (⟨token, next.reports.reverse, next.position⟩, next) :=
  ⟨next, reaches, rfl, rfl, .refl⟩

theorem finishes_startTag (c : Cursor) : Finishes c c.startTag := by
  have tagged : Reaches c (c.skip 1).tagName.2 := (c.reaches_skip 1).trans (reaches_tagName _)
  refine ⟨_, (tagged.trans (reaches_attributes _ [])).trans (reaches_tagEnd _), rfl, rfl, ?_⟩
  unfold startTag
  dsimp only
  split
  · exact reaches_rawText ..
  · exact .refl

theorem finishes_endTag (c : Cursor) : Finishes c c.endTag :=
  .done (((c.reaches_skip 2).trans (reaches_tagName _)).trans (reaches_skipTag _))

theorem finishes_doctype (c : Cursor) : Finishes c c.doctype := by
  have named : Reaches c (((c.skip "<!doctype".length).skipBlanks).tagName.2.skipBlanks) :=
    (((c.reaches_skip _).trans (reaches_skipBlanks _)).trans (reaches_tagName _)).trans
      (reaches_skipBlanks _)
  have word : ∀ (c : Cursor) (count : Nat), Reaches c (c.skip count).skipBlanks.quoted.2 :=
    fun c count => ((c.reaches_skip count).trans (reaches_skipBlanks _)).trans (reaches_quoted _)
  unfold doctype
  dsimp only
  refine .done (named.trans ?_)
  split
  · exact (((word _ _).trans (reaches_skipBlanks _)).trans (reaches_quoted _)).trans
      (reaches_skipTag _)
  · split
    · exact (word _ _).trans (reaches_skipTag _)
    · exact reaches_skipTag _

theorem finishes_comment (c : Cursor) : Finishes c c.comment := by
  unfold comment
  dsimp only
  split
  · exact ⟨_, .note _ (c.reaches_skip _), rfl, rfl, reaches_skip ..⟩
  · exact .done (.skip _ (c.reaches_skip _))

theorem finishes_bogus (c : Cursor) (problem : Problem) : Finishes c (c.bogus problem) :=
  ⟨_, .note problem .refl, rfl, rfl, reaches_skipTag _⟩

theorem finishes_text (c : Cursor) : Finishes c c.text :=
  .done (c.reaches_textUpTo _)

theorem Finishes.reaches {read : Lexeme × Cursor} (finishes : Finishes c read) :
    Reaches c read.2 := by
  obtain ⟨place, reached, -, -, left⟩ := finishes
  exact reached.trans left

theorem finishes_lexeme (c : Cursor) : Finishes { c with reports := [] } c.lexeme := by
  unfold lexeme
  dsimp only
  split
  · exact finishes_comment _
  split
  · exact finishes_bogus ..
  split
  · exact finishes_endTag _
  split
  · split
    · exact finishes_bogus ..
    · exact finishes_startTag _
  · exact finishes_text _

/-- Reading a token goes past some of the text. -/
theorem advances_lexeme (more : c.rest ≠ []) : Advances c c.lexeme.2 := by
  obtain ⟨⟨text, passes⟩, further⟩ := c.finishes_lexeme.reaches.advances (length_lexeme_lt more)
  exact ⟨⟨text, passes.rest, passes.position⟩, further⟩

/-- Where the steps that the parser is made of lead from a cursor. -/
inductive Step (c : Cursor) : Cursor → Prop
  | skip (count : Nat) : Step c (c.skip count)
  | skipWhile (member : Char → Bool) : Step c (c.skipWhile member)
  | skipBlanks : Step c c.skipBlanks
  | skipTag : Step c c.skipTag
  | tagName : Step c c.tagName.2
  | quoted : Step c c.quoted.2
  | character {found : Char} {next : Cursor} (read : c.character = some (found, next)) : Step c next
  | upTo (stop : List Char → Bool) (before : List Char) : Step c (c.upTo stop before).2
  | attributeValue : Step c c.attributeValue.2
  | attributeRest (name : String) : Step c (c.attributeRest name).2
  | oneAttribute (before : List Attribute) : Step c (c.oneAttribute before).2
  | attributes (before : List Attribute) : Step c (c.attributes before).2
  | tagEnd : Step c c.tagEnd.2
  | rawText (tag : String) : Step c (c.rawText tag).2
  | startTag : Step c c.startTag.2
  | endTag : Step c c.endTag.2
  | doctype : Step c c.doctype.2
  | comment : Step c c.comment.2
  | bogus (problem : Problem) : Step c (c.bogus problem).2
  | text : Step c c.text.2
  | lexeme : Step c c.lexeme.2

/-- A step leads to the place behind some of the text. -/
theorem Step.exists_passes (step : Step c next) : ∃ text, Passes c text next := by
  cases step with
  | skip count => exact (c.reaches_skip count).exists_passes
  | skipWhile member => exact (c.reaches_skipWhile member).exists_passes
  | skipBlanks => exact c.reaches_skipBlanks.exists_passes
  | skipTag => exact c.reaches_skipTag.exists_passes
  | tagName => exact c.reaches_tagName.exists_passes
  | quoted => exact c.reaches_quoted.exists_passes
  | character read => exact (reaches_character read).exists_passes
  | upTo stop before => exact (reaches_upTo stop c before).exists_passes
  | attributeValue => exact c.reaches_attributeValue.exists_passes
  | attributeRest name => exact (c.reaches_attributeRest name).exists_passes
  | oneAttribute before => exact (c.reaches_oneAttribute before).exists_passes
  | attributes before => exact (c.reaches_attributes before).exists_passes
  | tagEnd => exact c.reaches_tagEnd.exists_passes
  | rawText tag => exact (c.reaches_rawText tag).exists_passes
  | startTag => exact c.finishes_startTag.reaches.exists_passes
  | endTag => exact c.finishes_endTag.reaches.exists_passes
  | doctype => exact c.finishes_doctype.reaches.exists_passes
  | comment => exact c.finishes_comment.reaches.exists_passes
  | bogus problem => exact (c.finishes_bogus problem).reaches.exists_passes
  | text => exact c.finishes_text.reaches.exists_passes
  | lexeme =>
    obtain ⟨text, passes⟩ := c.finishes_lexeme.reaches.exists_passes
    exact ⟨text, passes.rest, passes.position⟩

end Cursor

/-! ## Places -/

/-- A place between two characters of a text. -/
def IsPlace (text : String) (position : Position) : Prop :=
  ∃ front back, text.toList = front ++ back ∧ position = Position.start.after front

/-- All that a token says of places is true of a text. -/
structure Lexeme.IsPlaced (text : String) (lexeme : Lexeme) : Prop where
  position : IsPlace text lexeme.position
  reports : ∀ report ∈ lexeme.reports, IsPlace text report.position

namespace Cursor

variable {c next : Cursor} {text : String}

/-- A cursor stands in a text. -/
def IsIn (c : Cursor) (text : String) : Prop := ∃ front, Passes (.ofText text) front c

theorem isIn_ofText (text : String) : (ofText text).IsIn text := ⟨[], rfl, rfl⟩

theorem IsIn.passes {more : List Char} (inside : c.IsIn text) (passes : Passes c more next) :
    next.IsIn text :=
  inside.elim fun _ front => ⟨_, front.trans passes⟩

theorem IsIn.reaches (inside : c.IsIn text) (reaches : Reaches c next) : next.IsIn text :=
  reaches.exists_passes.elim fun _ passes => inside.passes passes

theorem IsIn.step (inside : c.IsIn text) (step : Step c next) : next.IsIn text :=
  step.exists_passes.elim fun _ passes => inside.passes passes

theorem IsIn.isPlace (inside : c.IsIn text) : IsPlace text c.position := by
  obtain ⟨front, passes⟩ := inside
  exact ⟨front, c.rest, passes.rest, passes.position⟩

theorem IsIn.cleared (inside : c.IsIn text) : ({ c with reports := [] } : Cursor).IsIn text :=
  inside.passes (show Passes c [] _ from ⟨rfl, rfl⟩)

theorem Finishes.isPlaced {read : Lexeme × Cursor} (finishes : Finishes c read)
    (inside : c.IsIn text) (fresh : c.reports = []) :
    read.1.IsPlaced text ∧ read.2.IsIn text := by
  obtain ⟨place, reached, position, reports, left⟩ := finishes
  refine ⟨⟨position ▸ (inside.reaches reached).isPlace, fun report listed => ?_⟩,
    inside.reaches (reached.trans left)⟩
  rw [reports, List.mem_reverse] at listed
  rcases reached.exists_of_mem_reports listed with early | ⟨noted, reached, same⟩
  · rw [fresh] at early
    cases early
  · exact same ▸ (inside.reaches reached).isPlace

/-- The places that the tokens of a text name are places of it. -/
theorem isPlaced_lexemes (inside : c.IsIn text) : ∀ lexeme ∈ c.lexemes, lexeme.IsPlaced text := by
  fun_induction lexemes c with
  | case1 => exact nofun
  | case2 c more ih =>
    obtain ⟨placed, inside'⟩ := c.finishes_lexeme.isPlaced inside.cleared rfl
    exact List.forall_mem_cons.mpr ⟨placed, ih inside'⟩

end Cursor
end Html
end Markup
