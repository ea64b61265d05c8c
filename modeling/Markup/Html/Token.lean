import Markup.Html.Cursor
import Markup.Html.Element
import Markup.Tree

/-!
# Tokens of lenient markup

A text is cut into tags, text, comments and markup that is passed over, without regard to how the
tags nest. The one thing that a tag decides is that the content of scripts and styles is text up to
their end tag.
-/

namespace Markup.Html

/-- A piece of lenient markup. -/
inductive Token where
  /-- A document type declaration at the start of the text. -/
  | doctype (name : String) (publicId systemId : Option String)
  /-- A start tag, and the raw text after it. -/
  | start (tag : String) (attributes : List Attribute) (closed : Bool) (rawText : String)
  | finish (tag : String)
  | text (content : String)
  | comment (content : String)
  /-- Markup that is passed over. -/
  | skipped
  deriving Repr

/-- A token as it was read. -/
structure Lexeme where
  token : Token
  /-- What was noted while it was read, in the order of the text. -/
  reports : List Diagnostic
  /-- Where a problem with its place in the document is reported. -/
  position : Position

namespace Cursor

/-! ## Attributes -/

/-- Whether a character ends the name of an attribute. -/
def endsAttributeName (c : Char) : Bool :=
  Text.isAsciiBlank c || c == '=' || c == '>' || c == '/' || c == '<' || c == '"' || c == '\''

/-- Whether the text goes on with a given character. -/
def meets (member : Char → Bool) (rest : List Char) : Bool := rest.head?.any member

/-- Read the value of an attribute, in quotes of either kind or up to a blank or `>`. -/
def attributeValue (c : Cursor) : String × Cursor :=
  match c.rest with
  | [] => ("", c)
  | quote :: _ =>
    if quote == '"' || quote == '\'' then
      let (value, c) := (c.skip 1).textUpTo (meets (· == quote))
      (value, c.skip 1)
    else c.textUpTo (meets fun c => Text.isAsciiBlank c || c == '>')

/-- Read what follows the name of an attribute. Without a value, the name is the value. -/
def attributeRest (c : Cursor) (name : String) : String × Cursor :=
  let c := c.skipBlanks
  if c.startsWith "=" then (c.skip 1).skipBlanks.attributeValue else (name, c)

/-- The name of an attribute, split at its first colon. An empty prefix is none. -/
def splitName (name : String) : QName :=
  let split := QName.ofText name
  { split with nsPrefix := split.nsPrefix.filter fun nsPrefix => !nsPrefix.isEmpty }

/-- Add an attribute after earlier ones, latest first, unless one has its name. -/
def addAttribute (c : Cursor) (before : List Attribute) (name value : String) :
    List Attribute × Cursor :=
  if before.any (·.name.toText == name) then (before, c.note (.duplicateIgnored name))
  else (⟨splitName name, none, value⟩ :: before, c)

theorem length_attributeValue_le (c : Cursor) :
    c.attributeValue.2.rest.length ≤ c.rest.length := by
  unfold attributeValue
  split
  · exact Nat.le_refl _
  · split
    · exact Nat.le_trans (length_skip_le ..)
        (Nat.le_trans (length_textUpTo_le ..) (length_skip_le ..))
    · exact length_textUpTo_le ..

theorem length_attributeRest_le (c : Cursor) (name : String) :
    (c.attributeRest name).2.rest.length ≤ c.rest.length := by
  unfold attributeRest
  dsimp only
  split
  · exact Nat.le_trans (length_attributeValue_le _)
      (Nat.le_trans (length_skipBlanks_le _)
        (Nat.le_trans (length_skip_le ..) (length_skipBlanks_le c)))
  · exact length_skipBlanks_le c

theorem rest_addAttribute (c : Cursor) (before : List Attribute) (name value : String) :
    (c.addAttribute before name value).2.rest = c.rest := by
  unfold addAttribute
  split <;> rfl

theorem length_skipWhile_lt {c : Cursor} {member : Char → Bool}
    (found : c.leading member ≠ []) : (c.skipWhile member).rest.length < c.rest.length := by
  refine length_skip_lt (List.length_pos_iff.mpr found) fun empty => found ?_
  simp [leading, empty]

/-- Whether a character is part of the name of an attribute. -/
def isAttributeChar (c : Char) : Bool := !endsAttributeName c

/-- Read an attribute, of which the blanks before it are read, after earlier ones, latest first. -/
def oneAttribute (c : Cursor) (before : List Attribute) : List Attribute × Cursor :=
  let name := String.ofList (Text.lowerAscii (c.leading isAttributeChar))
  let (value, c) := (c.skipWhile isAttributeChar).attributeRest name
  c.addAttribute before name value

theorem length_oneAttribute_lt {c : Cursor} (before : List Attribute)
    (found : c.leading isAttributeChar ≠ []) :
    (c.oneAttribute before).2.rest.length < c.rest.length := by
  unfold oneAttribute
  dsimp only
  rw [rest_addAttribute]
  exact Nat.lt_of_le_of_lt (length_attributeRest_le ..) (length_skipWhile_lt found)

-- The equations bound by `match` are what the termination proof needs.
set_option linter.unusedVariables false

/-- Read the attributes of a tag after earlier ones, latest first. A character that begins no
attribute is passed over. -/
def attributes (c : Cursor) (before : List Attribute) : List Attribute × Cursor :=
  match more : c.skipBlanks.rest with
  | [] => (before.reverse, c.skipBlanks)
  | '>' :: _ => (before.reverse, c.skipBlanks)
  | '/' :: '>' :: _ => (before.reverse, c.skipBlanks)
  | _ :: _ =>
    if empty : c.skipBlanks.leading isAttributeChar = [] then
      attributes (c.skipBlanks.skip 1) before
    else
      let read := c.skipBlanks.oneAttribute before
      attributes read.2 read.1
  termination_by c.rest.length
  decreasing_by
    · exact Nat.lt_of_lt_of_le (length_skip_lt (by decide) (by simp [more]))
        (length_skipBlanks_le c)
    · exact Nat.lt_of_lt_of_le (length_oneAttribute_lt before empty) (length_skipBlanks_le c)

theorem length_attributes_le (c : Cursor) (before : List Attribute) :
    (c.attributes before).2.rest.length ≤ c.rest.length := by
  fun_induction attributes c before with
  | case1 c => exact length_skipBlanks_le c
  | case2 c => exact length_skipBlanks_le c
  | case3 c => exact length_skipBlanks_le c
  | case4 c _ _ _ _ _ _ _ ih =>
    exact Nat.le_trans ih (Nat.le_trans (length_skip_le ..) (length_skipBlanks_le c))
  | case5 c before _ _ _ _ _ empty read ih =>
    exact Nat.le_trans ih <| Nat.le_trans (Nat.le_of_lt (length_oneAttribute_lt before empty))
      (length_skipBlanks_le c)

/-! ## Tags -/

/-- Read what is left of a start tag. A slash before its end closes the element. -/
def tagEnd (c : Cursor) : Bool × Cursor :=
  if c.startsWith "/>" then (true, c.skip 2) else (false, c.skip 1)

/-- Whether the text goes on with the end tag of an element. -/
def isEndTagOf (tag : String) (rest : List Char) : Bool :=
  Text.startsIgnoringCase rest ("</".toList ++ tag.toList)

/-- A text up to where it meets a condition. -/
def textBefore (stop : List Char → Bool) : List Char → List Char
  | [] => []
  | c :: rest => if stop (c :: rest) then [] else c :: textBefore stop rest

/-- A text with every carriage return before a line feed left out. -/
def joinLineEnds : List Char → List Char
  | '\r' :: '\n' :: rest => '\n' :: joinLineEnds rest
  | c :: rest => c :: joinLineEnds rest
  | [] => []

/-- Read the raw text of an element and the end tag after it. -/
def rawText (c : Cursor) (tag : String) : String × Cursor :=
  let content := textBefore (isEndTagOf tag) c.rest
  (String.ofList (joinLineEnds content), (c.skip content.length).skipTag)

/-- Read a start tag, and the raw text after it if its element holds such text. -/
def startTag (c : Cursor) : Lexeme × Cursor :=
  let (tag, c) := (c.skip 1).tagName
  let (attributes, c) := c.attributes []
  let (closed, c) := c.tagEnd
  let (rawText, rest) := if !closed && holdsRawText tag then c.rawText tag else ("", c)
  (⟨.start tag attributes closed rawText, c.reports.reverse, c.position⟩, rest)

/-- Read an end tag. -/
def endTag (c : Cursor) : Lexeme × Cursor :=
  let (tag, c) := (c.skip 2).tagName
  let c := c.skipTag
  (⟨.finish tag, c.reports.reverse, c.position⟩, c)

/-! ## Other tokens -/

/-- Read a document type declaration. -/
def doctype (c : Cursor) : Lexeme × Cursor :=
  let (name, c) := (c.skip "<!doctype".length).skipBlanks.tagName
  let c := c.skipBlanks
  let ((publicId, systemId), c) :=
    if c.startsIgnoringCase "public" then
      let (publicId, c) := (c.skip "public".length).skipBlanks.quoted
      let (systemId, c) := c.skipBlanks.quoted
      ((publicId, systemId), c)
    else if c.startsIgnoringCase "system" then
      let (systemId, c) := (c.skip "system".length).skipBlanks.quoted
      ((none, systemId), c)
    else ((none, none), c)
  let c := c.skipTag
  (⟨.doctype (if name.isEmpty then "html" else name) publicId systemId, c.reports.reverse,
    c.position⟩, c)

/-- Read a comment. One without an end takes up the rest of the text. -/
def comment (c : Cursor) : Lexeme × Cursor :=
  let c := c.skip "<!--".length
  let content := textBefore ("-->".toList.isPrefixOf ·) c.rest
  if content.length = c.rest.length then
    let noted := c.note .unterminatedComment
    (⟨.skipped, noted.reports.reverse, noted.position⟩, noted.skip c.rest.length)
  else
    let next := c.skip (content.length + "-->".length)
    (⟨.comment (String.ofList content), next.reports.reverse, next.position⟩, next)

/-- Pass over a tag that has no place where it stands. -/
def bogus (c : Cursor) (problem : Problem) : Lexeme × Cursor :=
  let noted := c.note problem
  (⟨.skipped, noted.reports.reverse, noted.position⟩, noted.skipTag)

/-- Whether a text begins with markup. -/
def beginsMarkup : List Char → Bool
  | '<' :: c :: _ => c.isAlpha || c == '/' || c == '!' || c == '?'
  | _ => false

/-- Read text up to the next markup. -/
def text (c : Cursor) : Lexeme × Cursor :=
  let (content, c) := c.textUpTo beginsMarkup
  (⟨.text content, c.reports.reverse, c.position⟩, c)

/-- Read the next token. -/
def lexeme (c : Cursor) : Lexeme × Cursor :=
  let c := { c with reports := [] }
  if c.startsWith "<!--" then c.comment
  else if c.startsIgnoringCase "<!doctype" then c.bogus .misplacedDoctype
  else if c.startsWith "</" then c.endTag
  else if beginsMarkup c.rest then
    if c.startsWith "<!" || c.startsWith "<?" then c.bogus .bogusDeclaration else c.startTag
  else c.text

/-! ## Whole texts -/

theorem length_tagEnd_le (c : Cursor) : c.tagEnd.2.rest.length ≤ c.rest.length := by
  unfold tagEnd
  split <;> exact length_skip_le ..

theorem length_rawText_le (c : Cursor) (tag : String) :
    (c.rawText tag).2.rest.length ≤ c.rest.length :=
  Nat.le_trans (length_skipTag_le _) (length_skip_le ..)

theorem length_startTag_lt {c : Cursor} (more : c.rest ≠ []) :
    c.startTag.2.rest.length < c.rest.length := by
  have tagged : (c.skip 1).tagName.2.rest.length < c.rest.length :=
    Nat.lt_of_le_of_lt (length_tagName_le _) (length_skip_lt (by decide) more)
  have attributed := Nat.lt_of_le_of_lt (length_attributes_le (c.skip 1).tagName.2 []) tagged
  have ended := Nat.lt_of_le_of_lt (length_tagEnd_le _) attributed
  unfold startTag
  dsimp only
  split
  · exact Nat.lt_of_le_of_lt (length_rawText_le ..) ended
  · exact ended

theorem length_endTag_lt {c : Cursor} (more : c.rest ≠ []) :
    c.endTag.2.rest.length < c.rest.length :=
  Nat.lt_of_le_of_lt (length_skipTag_le _) <|
    Nat.lt_of_le_of_lt (length_tagName_le _) (length_skip_lt (by decide) more)

theorem length_bogus_lt {c : Cursor} (problem : Problem) (more : c.rest ≠ []) :
    (c.bogus problem).2.rest.length < c.rest.length := by
  unfold bogus skipTag
  dsimp only
  by_cases left : ((c.note problem).skipWhile (· != '>')).rest = []
  · simpa [left] using List.length_pos_iff.mpr more
  · exact Nat.lt_of_lt_of_le (length_skip_lt (by decide) left) (length_skipWhile_le ..)

theorem length_comment_lt {c : Cursor} (more : c.rest ≠ []) :
    c.comment.2.rest.length < c.rest.length := by
  have opened : (c.skip "<!--".length).rest.length < c.rest.length :=
    length_skip_lt (by decide) more
  unfold comment
  dsimp only
  split
  · exact Nat.lt_of_le_of_lt (length_skip_le ..) opened
  · exact Nat.lt_of_le_of_lt (length_skip_le ..) opened

theorem length_text_lt {c : Cursor} (more : c.rest ≠ []) (plain : beginsMarkup c.rest = false) :
    c.text.2.rest.length < c.rest.length := by
  unfold text textUpTo
  dsimp only
  rw [upTo, if_neg (by simp [plain])]
  split
  · rename_i stuck
    exact absurd (rest_eq_nil_of_character stuck) more
  · rename_i found next read
    exact Nat.lt_of_le_of_lt (length_upTo_le ..) (length_lt_of_character read)

theorem length_lexeme_lt {c : Cursor} (more : c.rest ≠ []) :
    c.lexeme.2.rest.length < c.rest.length := by
  have cleared : ({ c with reports := [] } : Cursor).rest ≠ [] := more
  unfold lexeme
  dsimp only
  split
  · exact length_comment_lt cleared
  split
  · exact length_bogus_lt _ cleared
  split
  · exact length_endTag_lt cleared
  split
  · split
    · exact length_bogus_lt _ cleared
    · exact length_startTag_lt cleared
  · rename_i plain
    exact length_text_lt cleared (by simpa using plain)

/-- Read all tokens up to the end of the text. -/
def lexemes (c : Cursor) : List Lexeme :=
  if more : c.rest = [] then [] else c.lexeme.1 :: lexemes c.lexeme.2
  termination_by c.rest.length
  decreasing_by exact length_lexeme_lt more

end Cursor
end Markup.Html
