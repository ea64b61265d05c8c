import Markup.Proofs.Xml.Preface

/-!
# How a declaration is spelled

A declaration is a word, a version, and what else it declares. Each part is a word to which a quoted
value is assigned, with blanks around both. A declaration that was read was spelled so.
-/

namespace Markup.Xml

/-! ## Pseudo-attributes -/

/-- A value that is assigned to a word. -/
structure PseudoAttribute where
  /-- The blanks before the word, before the equals sign, and after it. -/
  before : List Char
  left : List Char
  right : List Char
  quote : Char
  value : String

namespace PseudoAttribute

variable {attr : PseudoAttribute} {word : String} {p : Char → Bool}

/-- What stands behind the word. -/
def assigned (attr : PseudoAttribute) : List Char :=
  attr.left ++ '=' :: (attr.right ++ attr.quote :: (attr.value.toList ++ [attr.quote]))

/-- How a value is assigned to a word. -/
def text (word : String) (attr : PseudoAttribute) : List Char :=
  attr.before ++ (word.toList ++ attr.assigned)

/-- There are blanks where blanks may be, and the quotes do not stand in the value. -/
structure IsWritten (attr : PseudoAttribute) : Prop where
  before : attr.before.all Text.isMarkupBlank = true
  left : attr.left.all Text.isMarkupBlank = true
  right : attr.right.all Text.isMarkupBlank = true
  quote : attr.quote = '"' ∨ attr.quote = '\''
  value : attr.quote ∉ attr.value.toList

/-- The characters that stand beside the words and the values. -/
def fillers : List Char := [' ', '\t', '\r', '\n', '=', '"', '\'']

theorem all_blanks {blanks : List Char} (blank : blanks.all Text.isMarkupBlank = true)
    (filled : fillers.all p = true) : blanks.all p = true := by
  have filled := List.all_eq_true.mp filled
  refine List.all_eq_true.mpr fun c listed => ?_
  have blank := List.all_eq_true.mp blank c listed
  simp only [Text.isMarkupBlank, Bool.or_eq_true, beq_iff_eq] at blank
  rcases blank with ((rfl | rfl) | rfl) | rfl <;> exact filled _ (by decide)

theorem IsWritten.all_text (written : attr.IsWritten) (filled : fillers.all p = true)
    (letters : word.toList.all p = true) (value : attr.value.toList.all p = true) :
    (attr.text word).all p = true := by
  have equals := List.all_eq_true.mp filled '=' (by decide)
  have quote : p attr.quote = true := by
    rcases written.quote with same | same <;>
      exact same ▸ List.all_eq_true.mp filled _ (by decide)
  simp only [text, assigned, List.all_append, List.all_cons, List.all_nil, letters, value, equals,
    quote, all_blanks written.before filled, all_blanks written.left filled,
    all_blanks written.right filled, Bool.and_self]

end PseudoAttribute

/-! ## Headings -/

/-- The text of a declaration in its parts. -/
structure Heading where
  version : PseudoAttribute
  encoding : Option PseudoAttribute
  standalone : Option PseudoAttribute
  /-- The blanks before the end. -/
  trail : List Char

namespace Heading

/-- What stands before the part that names the encoding. -/
def front (heading : Heading) : List Char :=
  "<?xml".toList ++ heading.version.text "version"

/-- What stands behind the part that names the encoding. -/
def back (heading : Heading) : List Char :=
  heading.standalone.elim [] (PseudoAttribute.text "standalone") ++ heading.trail

/-- The text up to its end mark. -/
def text (heading : Heading) : List Char :=
  heading.front ++ (heading.encoding.elim [] (PseudoAttribute.text "encoding") ++ heading.back)

/-- What is declared. -/
def declaration (heading : Heading) : Declaration where
  version := heading.version.value
  encoding := heading.encoding.map PseudoAttribute.value
  standalone := heading.standalone.map fun attr => attr.value == "yes"

/-- Every part is written as it may be and has a value that it may have. -/
structure IsWritten (heading : Heading) : Prop where
  version : heading.version.IsWritten ∧ isVersion heading.version.value = true
  encoding : ∀ attr ∈ heading.encoding, attr.IsWritten ∧ isEncodingName attr.value = true
  standalone : ∀ attr ∈ heading.standalone,
    attr.IsWritten ∧ (attr.value = "yes" ∨ attr.value = "no")
  trail : heading.trail.all Text.isMarkupBlank = true

end Heading

/-! ## What was read -/

namespace Reader

variable {r next : Reader} {word value : String}

theorem exists_blanks (r : Reader) : ∃ blanks, blanks.all Text.isMarkupBlank = true ∧
    r.rest = blanks ++ r.skipBlanks.rest :=
  ⟨r.rest.takeWhile Text.isMarkupBlank, List.all_takeWhile,
    by rw [skipBlanks_rest, List.takeWhile_append_dropWhile]⟩

theorem rest_of_openQuote {literal : Quoted} {quote : Char}
    (h : r.openQuote literal = .ok (quote, next)) :
    (quote = '"' ∨ quote = '\'') ∧ r.rest = quote :: next.rest := by
  unfold openQuote at h
  split at h
  · rename_i spelled; cases h; exact ⟨.inl rfl, by simp [spelled]⟩
  · rename_i spelled; cases h; exact ⟨.inr rfl, by simp [spelled]⟩
  · exact absurd h not_fail

theorem exists_of_quoted (h : r.quoted = .ok (value, next)) : ∃ quote,
    (quote = '"' ∨ quote = '\'') ∧ quote ∉ value.toList ∧
      r.rest = quote :: (value.toList ++ quote :: next.rest) := by
  obtain ⟨⟨quote, first⟩, opened, h⟩ := bind_eq_ok.mp h
  obtain ⟨last, closed, h⟩ := bind_eq_ok.mp h
  cases h
  obtain ⟨isQuote, begins⟩ := rest_of_openQuote opened
  have ends := rest_of_expect closed
  rw [rest_skip, drop_length_takeWhile] at ends
  refine ⟨quote, isQuote, fun listed => ?_, ?_⟩
  · rw [String.toList_ofList] at listed
    simpa using List.mem_takeWhile_imp listed
  · rw [String.toList_ofList, begins, ← ends, List.takeWhile_append_dropWhile]

/-- A word and a value that were read behind blanks. -/
theorem exists_pseudo {middle : Reader} (first : r.skipBlanks.expectWord word = .ok middle)
    (second : middle.pseudoValue = .ok (value, next)) : ∃ attr : PseudoAttribute,
      attr.IsWritten ∧ attr.value = value ∧ r.rest = attr.text word ++ next.rest := by
  obtain ⟨behind, sign, second⟩ := bind_eq_ok.mp second
  obtain ⟨quote, isQuote, free, spelled⟩ := exists_of_quoted second
  obtain ⟨before, blank, start⟩ := r.exists_blanks
  obtain ⟨left, blank', around⟩ := middle.exists_blanks
  obtain ⟨right, blank'', around'⟩ := behind.exists_blanks
  refine ⟨⟨before, left, right, quote, value⟩, ⟨blank, blank', blank'', isQuote, free⟩, rfl, ?_⟩
  rw [start, rest_of_expectAll first, around, rest_of_expect sign, around', spelled]
  simp [PseudoAttribute.text, PseudoAttribute.assigned]

theorem eq_skipBlanks_of_requireBlanks {place : BlankPlace}
    (h : r.requireBlanks place = .ok next) : next = r.skipBlanks := by
  unfold requireBlanks at h
  split at h
  · cases h; rfl
  · exact absurd h not_fail

theorem exists_of_version (h : r.skipBlanks.version = .ok (value, next)) :
    ∃ attr : PseudoAttribute, (attr.IsWritten ∧ isVersion attr.value = true) ∧ attr.value = value ∧
      r.rest = attr.text "version" ++ next.rest := by
  obtain ⟨_, word, h⟩ := bind_eq_ok.mp h
  obtain ⟨⟨_, _⟩, assigned, h⟩ := bind_eq_ok.mp h
  dsimp only at h
  split at h
  · rename_i isVersion
    cases h
    obtain ⟨attr, written, rfl, spelled⟩ := exists_pseudo word assigned
    exact ⟨attr, ⟨written, isVersion⟩, rfl, spelled⟩
  · exact absurd h not_fail

theorem exists_of_encodingName {name : Option String} (h : r.encodingName = .ok (name, next)) :
    ∃ attr : Option PseudoAttribute,
      (∀ found ∈ attr, found.IsWritten ∧ isEncodingName found.value = true) ∧
        attr.map PseudoAttribute.value = name ∧
          r.rest = attr.elim [] (PseudoAttribute.text "encoding") ++ next.rest := by
  unfold encodingName at h
  split at h
  · split at h
    · obtain ⟨_, word, h⟩ := bind_eq_ok.mp h
      obtain ⟨⟨_, _⟩, assigned, h⟩ := bind_eq_ok.mp h
      dsimp only at h
      split at h
      · rename_i isName
        cases h
        obtain ⟨attr, written, rfl, spelled⟩ := exists_pseudo word assigned
        exact ⟨some attr, by simpa using ⟨written, isName⟩, rfl, spelled⟩
      · exact absurd h not_fail
    · exact absurd h not_fail
  · cases h
    exact ⟨none, nofun, rfl, rfl⟩

theorem exists_of_standalone {alone : Option Bool} (h : r.standalone = .ok (alone, next)) :
    ∃ attr : Option PseudoAttribute,
      (∀ found ∈ attr, found.IsWritten ∧ (found.value = "yes" ∨ found.value = "no")) ∧
        attr.map (fun found => found.value == "yes") = alone ∧
          r.rest = attr.elim [] (PseudoAttribute.text "standalone") ++ next.rest := by
  unfold Reader.standalone at h
  split at h
  · split at h
    · obtain ⟨_, word, h⟩ := bind_eq_ok.mp h
      obtain ⟨⟨_, _⟩, assigned, h⟩ := bind_eq_ok.mp h
      obtain ⟨attr, written, rfl, spelled⟩ := exists_pseudo word assigned
      dsimp only at h
      split at h
      · rename_i yes
        cases h
        exact ⟨some attr, by simpa using ⟨written, .inl yes⟩, by rw [Option.map_some, yes]; rfl,
          spelled⟩
      · rename_i no
        cases h
        exact ⟨some attr, by simpa using ⟨written, .inr no⟩, by rw [Option.map_some, no]; rfl,
          spelled⟩
      · exact absurd h not_fail
    · exact absurd h not_fail
  · cases h
    exact ⟨none, nofun, rfl, rfl⟩

/-- A declaration that was read is spelled in its parts. -/
theorem exists_heading {declaration : Declaration} (h : r.declaration = .ok (declaration, next)) :
    ∃ heading : Heading, heading.IsWritten ∧ heading.declaration = declaration ∧
      r.rest = heading.text ++ ("?>".toList ++ next.rest) := by
  obtain ⟨first, word, h⟩ := bind_eq_ok.mp h
  obtain ⟨second, blank, h⟩ := bind_eq_ok.mp h
  obtain ⟨⟨_, third⟩, versioned, h⟩ := bind_eq_ok.mp h
  obtain ⟨⟨_, fourth⟩, encoded, h⟩ := bind_eq_ok.mp h
  obtain ⟨⟨_, fifth⟩, alone, h⟩ := bind_eq_ok.mp h
  obtain ⟨last, ended, h⟩ := bind_eq_ok.mp h
  cases h
  cases eq_skipBlanks_of_requireBlanks blank
  obtain ⟨version, written, rfl, begins⟩ := exists_of_version versioned
  obtain ⟨encoding, written', rfl, goes⟩ := exists_of_encodingName encoded
  obtain ⟨standalone, written'', rfl, goes'⟩ := exists_of_standalone alone
  obtain ⟨trail, trailing, ends⟩ := fifth.exists_blanks
  refine ⟨⟨version, encoding, standalone, trail⟩, ⟨written, written', written'', trailing⟩, rfl, ?_⟩
  rw [rest_of_expectAll word, begins, goes, goes', ends, rest_of_expectAll ended]
  simp only [Heading.text, Heading.front, Heading.back, List.append_assoc]

end Reader
end Markup.Xml
