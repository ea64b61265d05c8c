import Markup.Problem
import Markup.Name
import Markup.Text.Utf8
import Markup.Xml.Options

/-!
# Reading a text from its front

A reader holds the text that is still to be read, the place reached, and the log of what was
reported and expanded so far. A reader of replacement text reports everything at the place just
after the outermost reference. Each step either fails or gives a reader further on; the lemmas say
by how much the text gets shorter.
-/

namespace Markup.Xml

/-- What a reading leaves behind beside its result. -/
structure Log where
  /-- The reports, latest first. -/
  reports : List Diagnostic
  /-- How many entity references were expanded. -/
  expansions : Nat
  deriving Repr, DecidableEq

/-- A text being read. -/
structure Reader where
  rest : List Char
  position : Position
  /-- In replacement text, the place just after the outermost reference. -/
  origin : Option Position
  log : Log
  deriving Repr, DecidableEq

namespace Reader

/-- A reader at the start of a text. -/
def ofText (text : String) : Reader := ⟨text.toList, .start, none, ⟨[], 0⟩⟩

/-- Where a problem met here is reported. -/
def place (r : Reader) : Position := r.origin.getD r.position

/-- What was reported so far, in the order of the text. -/
def diagnostics (r : Reader) : List Diagnostic := r.log.reports.reverse

/-- Stop here. -/
def fail {α : Type} (r : Reader) (problem : Problem) : Except ParseFailure α :=
  .error ⟨problem, some r.place, r.diagnostics⟩

/-- Put a report into the log. -/
def note (r : Reader) (severity : Severity) (problem : Problem) : Reader :=
  { r with log := { r.log with reports := ⟨severity, problem, r.place⟩ :: r.log.reports } }

/-- Report an error where the options ask for recovery, and stop at it otherwise. -/
def report (r : Reader) (options : ParseOptions) (problem : Problem) :
    Except ParseFailure Reader :=
  if options.recover then .ok (r.note .error problem) else r.fail problem

/-- Pass over a number of characters. -/
def skip (r : Reader) (count : Nat) : Reader :=
  { r with rest := r.rest.drop count, position := r.position.after (r.rest.take count) }

/-- Pass over the leading characters of a class. -/
def skipWhile (r : Reader) (member : Char → Bool) : Reader :=
  r.skip (r.rest.takeWhile member).length

/-- Pass over leading blanks. -/
def skipBlanks (r : Reader) : Reader := r.skipWhile Text.isMarkupBlank

/-- Whether everything is read. -/
def atEnd (r : Reader) : Bool := r.rest.isEmpty

/-- Whether the text goes on with a given word. -/
def startsWith (r : Reader) (word : String) : Bool := word.toList.isPrefixOf r.rest

/-- Whether the next character is a given one. -/
def sees (r : Reader) (c : Char) : Bool := r.rest.head? == some c

/-- Whether a blank comes next. -/
def seesBlank (r : Reader) : Bool := r.rest.head?.any Text.isMarkupBlank

/-- Read a given character. -/
def expect (r : Reader) (wanted : Char) : Except ParseFailure Reader :=
  if r.sees wanted then .ok (r.skip 1) else r.fail (.expected wanted r.rest.head?)

/-- Read given characters, one after the other. -/
def expectAll (r : Reader) : List Char → Except ParseFailure Reader
  | [] => .ok r
  | c :: word => do (← r.expect c).expectAll word

/-- Read a given word. -/
def expectWord (r : Reader) (word : String) : Except ParseFailure Reader :=
  r.expectAll word.toList

/-- Read at least one blank, and all that follow it. -/
def requireBlanks (r : Reader) (place : BlankPlace) : Except ParseFailure Reader :=
  if r.seesBlank then .ok r.skipBlanks else r.fail (.blankRequired place)

/-- Read one character of content. A carriage return, alone or before a line feed, is read as a
line feed; a character that no document may hold is reported. -/
def char (r : Reader) (options : ParseOptions) : Except ParseFailure (Char × Reader) :=
  match r.rest with
  | [] => r.fail (.endOfText none)
  | '\r' :: '\n' :: _ => .ok ('\n', r.skip 2)
  | '\r' :: _ => .ok ('\n', r.skip 1)
  | c :: _ =>
    if isDocumentChar c then .ok (c, r.skip 1)
    else do .ok (c, ← (r.skip 1).report options (.invalidChar c))

/-- Read a name, as long as it goes. -/
def name (r : Reader) (options : ParseOptions) : Except ParseFailure (String × Reader) :=
  match r.rest with
  | [] => r.fail .nameMissing
  | c :: _ =>
    if isNameStart c then
      let text := r.rest.takeWhile isNameChar
      let next := r.skip text.length
      if Text.byteLength text > options.maxNameLength then
        next.fail (.nameTooLong (Text.byteLength text) options.maxNameLength)
      else .ok (String.ofList text, next)
    else r.fail (.invalidNameStart c)

/-- Read the opening quote of a literal, of either kind. -/
def openQuote (r : Reader) (literal : Quoted) : Except ParseFailure (Char × Reader) :=
  match r.rest with
  | '"' :: _ => .ok ('"', r.skip 1)
  | '\'' :: _ => .ok ('\'', r.skip 1)
  | _ => r.fail (.quoteMissing literal)

/-- Read a quoted literal as it stands. -/
def quoted (r : Reader) : Except ParseFailure (String × Reader) := do
  let (quote, r) ← r.openQuote .plain
  let text := r.rest.takeWhile (· != quote)
  let r ← (r.skip text.length).expect quote
  return (String.ofList text, r)

/-! ## How far each step goes -/

theorem exists_of_bind_ok {α β : Type} {step : Except ParseFailure α}
    {next : α → Except ParseFailure β} {b : β} (h : step >>= next = .ok b) :
    ∃ a, step = .ok a ∧ next a = .ok b := by
  cases step with
  | error failure => cases h
  | ok a => exact ⟨a, rfl, h⟩

@[simp] theorem rest_skip (r : Reader) (count : Nat) : (r.skip count).rest = r.rest.drop count :=
  rfl

@[simp] theorem rest_note (r : Reader) (severity : Severity) (problem : Problem) :
    (r.note severity problem).rest = r.rest := rfl

theorem not_fail {α : Type} {r : Reader} {problem : Problem} {a : α} :
    r.fail problem ≠ .ok a := nofun

theorem rest_report {r next : Reader} {options : ParseOptions} {problem : Problem}
    (h : r.report options problem = .ok next) : next.rest = r.rest := by
  unfold report at h
  split at h
  · cases h; rfl
  · exact absurd h not_fail

theorem length_skip_le (r : Reader) (count : Nat) :
    (r.skip count).rest.length ≤ r.rest.length := by
  simp

theorem length_skipWhile_le (r : Reader) (member : Char → Bool) :
    (r.skipWhile member).rest.length ≤ r.rest.length :=
  r.length_skip_le _

theorem length_skipBlanks_le (r : Reader) : r.skipBlanks.rest.length ≤ r.rest.length :=
  r.length_skipWhile_le _

theorem length_skip_lt {r : Reader} {count : Nat} (positive : 0 < count) (more : r.rest ≠ []) :
    (r.skip count).rest.length < r.rest.length := by
  have := List.length_pos_iff.mpr more
  simp only [rest_skip, List.length_drop]
  omega

theorem length_lt_of_expect {r next : Reader} {c : Char} (h : r.expect c = .ok next) :
    next.rest.length < r.rest.length := by
  unfold expect at h
  split at h
  · rename_i seen
    cases h
    refine length_skip_lt (by decide) fun empty => ?_
    simp [sees, empty] at seen
  · exact absurd h not_fail

theorem length_le_of_expectAll {word : List Char} {r next : Reader}
    (h : r.expectAll word = .ok next) : next.rest.length ≤ r.rest.length := by
  induction word generalizing r with
  | nil => cases h; exact Nat.le_refl _
  | cons c word ih =>
    rw [expectAll] at h
    cases first : r.expect c with
    | error failure => rw [first] at h; cases h
    | ok middle =>
      rw [first] at h
      exact Nat.le_trans (ih h) (Nat.le_of_lt (length_lt_of_expect first))

theorem length_lt_of_char {r next : Reader} {options : ParseOptions} {c : Char}
    (h : r.char options = .ok (c, next)) : next.rest.length < r.rest.length := by
  unfold char at h
  split at h
  · exact absurd h not_fail
  · rename_i text; cases h; exact length_skip_lt (by decide) (by simp [text])
  · rename_i text; cases h; exact length_skip_lt (by decide) (by simp [text])
  · rename_i text
    split at h
    · cases h; exact length_skip_lt (by decide) (by simp [text])
    · cases reported : (r.skip 1).report options (.invalidChar _) with
      | error failure => rw [reported] at h; cases h
      | ok middle =>
        rw [reported] at h
        cases h
        rw [rest_report reported]
        exact length_skip_lt (by decide) (by simp [text])

theorem length_lt_of_name {r next : Reader} {options : ParseOptions} {text : String}
    (h : r.name options = .ok (text, next)) : next.rest.length < r.rest.length := by
  unfold name at h
  split at h
  · exact absurd h not_fail
  · rename_i c tail rest
    split at h
    · rename_i start
      dsimp only at h
      split at h
      · exact absurd h not_fail
      · cases h
        refine length_skip_lt ?_ (by simp [rest])
        rw [rest, List.takeWhile_cons_of_pos (by simp [isNameChar, start])]
        simp
    · exact absurd h not_fail

theorem length_le_of_requireBlanks {r next : Reader} {place : BlankPlace}
    (h : r.requireBlanks place = .ok next) : next.rest.length ≤ r.rest.length := by
  unfold requireBlanks at h
  split at h
  · cases h; exact length_skipBlanks_le r
  · exact absurd h not_fail

theorem length_lt_of_openQuote {r next : Reader} {literal : Quoted} {quote : Char}
    (h : r.openQuote literal = .ok (quote, next)) : next.rest.length < r.rest.length := by
  unfold openQuote at h
  split at h
  · rename_i text; cases h; exact length_skip_lt (by decide) (by simp [text])
  · rename_i text; cases h; exact length_skip_lt (by decide) (by simp [text])
  · exact absurd h not_fail

theorem length_lt_of_quoted {r next : Reader} {text : String} (h : r.quoted = .ok (text, next)) :
    next.rest.length < r.rest.length := by
  obtain ⟨⟨quote, r₁⟩, opened, h⟩ := exists_of_bind_ok h
  obtain ⟨r₂, closed, h⟩ := exists_of_bind_ok h
  cases h
  exact Nat.lt_trans (length_lt_of_expect closed) <|
    Nat.lt_of_le_of_lt (length_skip_le ..) (length_lt_of_openQuote opened)

end Reader
end Markup.Xml
