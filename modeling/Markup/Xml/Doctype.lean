import Markup.Xml.Delimited
import Markup.Xml.Entity

/-!
# Document type declarations

A document type declaration names the root element and may name an external subset, which is never
read. Of the internal subset only the declarations of general entities are kept; all others are
passed over.
-/

namespace Markup.Xml

/-- What a document type declaration says. -/
structure Doctype where
  name : String
  publicId : Option String
  systemId : Option String
  deriving Repr, DecidableEq

namespace Reader

/-- Read a public and a system identifier, where they are given. -/
def externalId (r : Reader) :
    Except ParseFailure ((Option String × Option String) × Reader) :=
  if r.startsWith "PUBLIC" then do
    let r ← (r.skip 6).requireBlanks .anywhere
    let (publicId, r) ← r.quoted
    let r ← r.requireBlanks .anywhere
    let (systemId, r) ← r.quoted
    return ((some publicId, some systemId), r)
  else if r.startsWith "SYSTEM" then do
    let r ← (r.skip 6).requireBlanks .anywhere
    let (systemId, r) ← r.quoted
    return ((none, some systemId), r)
  else .ok ((none, none), r)

/-- Read what an entity stands for: its replacement text, or `none` if the text lies outside. -/
def entityDefinition (r : Reader) (options : ParseOptions) :
    Except ParseFailure (Option String × Reader) := do
  let ((_, systemId), r) ← r.externalId
  if systemId.isSome then return (none, r)
  else
    let (replacement, r) ← r.entityValue options
    return (some replacement, r)

/-- Read the notation of an unparsed entity, if it comes next. -/
def unparsedMark (r : Reader) (options : ParseOptions) (allowed : Bool) :
    Except ParseFailure Reader :=
  if r.skipBlanks.startsWith "NDATA" then
    if !allowed then r.skipBlanks.fail .notationNotAllowed
    else if !r.seesBlank then r.skipBlanks.fail (.blankRequired .beforeNotation)
    else do
      let r ← (r.skipBlanks.skip 5).requireBlanks .anywhere
      let (_, r) ← r.name options
      return r.skipBlanks
  else .ok r.skipBlanks

/-- Read the percent sign of a parameter entity, if it comes next, and the blanks after it. -/
def parameterMark (r : Reader) : Except ParseFailure (Bool × Reader) :=
  if r.sees '%' then do return (true, ← (r.skip 1).requireBlanks .anywhere)
  else .ok (false, r)

/-- Read the name of an entity being declared; a colon in it is reported. -/
def entityName (r : Reader) (options : ParseOptions) :
    Except ParseFailure (String × Reader) := do
  let (entity, r) ← r.name options
  if entity.toList.contains ':' then
    return (entity, ← r.report options (.colonInEntityName entity))
  else return (entity, r)

/-- Read the declaration of an entity. Parameter entities are checked for shape and dropped. -/
def entityDeclaration (r : Reader) (options : ParseOptions) (table : EntityTable) :
    Except ParseFailure (EntityTable × Reader) := do
  let r ← r.expectWord "<!ENTITY"
  let r ← r.requireBlanks .anywhere
  let (parameter, r) ← r.parameterMark
  let (entity, r) ← r.entityName options
  let r ← r.requireBlanks .anywhere
  let (replacement, r) ← r.entityDefinition options
  let r ← r.unparsedMark options (replacement.isNone && !parameter)
  let r ← r.expect '>'
  match parameter, replacement with
  | true, _ => return (table, r)
  | false, some replacement => return (table.declareInternal entity replacement, r)
  | false, none => return (table.declareExternal entity, r)

/-! ## How far each step goes -/

theorem length_le_of_externalId {r next : Reader} {found : Option String × Option String}
    (h : r.externalId = .ok (found, next)) : next.rest.length ≤ r.rest.length := by
  unfold externalId at h
  split at h
  · obtain ⟨r₁, blank, h⟩ := exists_of_bind_ok h
    obtain ⟨⟨_, r₂⟩, first, h⟩ := exists_of_bind_ok h
    obtain ⟨r₃, between, h⟩ := exists_of_bind_ok h
    obtain ⟨⟨_, r₄⟩, second, h⟩ := exists_of_bind_ok h
    cases h
    exact Nat.le_trans (Nat.le_of_lt (length_lt_of_quoted second)) <|
      Nat.le_trans (length_le_of_requireBlanks between) <|
      Nat.le_trans (Nat.le_of_lt (length_lt_of_quoted first)) <|
      Nat.le_trans (length_le_of_requireBlanks blank) (length_skip_le ..)
  · split at h
    · obtain ⟨r₁, blank, h⟩ := exists_of_bind_ok h
      obtain ⟨⟨_, r₂⟩, read, h⟩ := exists_of_bind_ok h
      cases h
      exact Nat.le_trans (Nat.le_of_lt (length_lt_of_quoted read)) <|
        Nat.le_trans (length_le_of_requireBlanks blank) (length_skip_le ..)
    · cases h; exact Nat.le_refl _

theorem length_le_of_entityText {options : ParseOptions} {quote : Char} {r next : Reader}
    {before value : List Char} (h : r.entityText options quote before = .ok (value, next)) :
    next.rest.length ≤ r.rest.length := by
  fun_induction entityText options quote r before with
  | case1 => exact absurd h not_fail
  | case2 => cases h; exact length_skip_le ..
  | case3 => exact absurd h not_fail
  | case4 => cases h
  | case5 r before _ _ _ _ _ _ c middle read ih =>
    exact Nat.le_trans (ih h) (Nat.le_trans (length_le_of_charReference read) (length_skip_le ..))
  | case6 => cases h
  | case7 => cases h
  | case8 =>
    rename_i named _ ended ih
    exact Nat.le_trans (ih h) <| Nat.le_trans (Nat.le_of_lt (length_lt_of_expect ended)) <|
      Nat.le_trans (Nat.le_of_lt (length_lt_of_name named)) (length_skip_le ..)
  | case9 => cases h
  | case10 =>
    rename_i read ih
    exact Nat.le_trans (ih h) (Nat.le_of_lt (length_lt_of_char read))

theorem length_le_of_entityDefinition {r next : Reader} {options : ParseOptions}
    {found : Option String} (h : r.entityDefinition options = .ok (found, next)) :
    next.rest.length ≤ r.rest.length := by
  obtain ⟨⟨_, r₁⟩, outside, h⟩ := exists_of_bind_ok h
  refine Nat.le_trans ?_ (length_le_of_externalId outside)
  dsimp only at h
  split at h
  · cases h; exact Nat.le_refl _
  · obtain ⟨⟨_, r₂⟩, value, h⟩ := exists_of_bind_ok h
    cases h
    obtain ⟨⟨_, r₃⟩, opened, value⟩ := exists_of_bind_ok value
    obtain ⟨⟨_, r₄⟩, read, value⟩ := exists_of_bind_ok value
    cases value
    exact Nat.le_trans (length_le_of_entityText read) (Nat.le_of_lt (length_lt_of_openQuote opened))

theorem length_le_of_unparsedMark {r next : Reader} {options : ParseOptions} {allowed : Bool}
    (h : r.unparsedMark options allowed = .ok next) : next.rest.length ≤ r.rest.length := by
  unfold unparsedMark at h
  split at h
  · split at h
    · exact absurd h not_fail
    · split at h
      · exact absurd h not_fail
      · obtain ⟨r₁, blank, h⟩ := exists_of_bind_ok h
        obtain ⟨⟨_, r₂⟩, named, h⟩ := exists_of_bind_ok h
        cases h
        exact Nat.le_trans (length_skipBlanks_le _) <|
          Nat.le_trans (Nat.le_of_lt (length_lt_of_name named)) <|
          Nat.le_trans (length_le_of_requireBlanks blank) <|
          Nat.le_trans (length_skip_le ..) (length_skipBlanks_le _)
  · cases h; exact length_skipBlanks_le _

theorem length_le_of_parameterMark {r next : Reader} {found : Bool}
    (h : r.parameterMark = .ok (found, next)) : next.rest.length ≤ r.rest.length := by
  unfold parameterMark at h
  split at h
  · obtain ⟨r₁, blank, h⟩ := exists_of_bind_ok h
    cases h
    exact Nat.le_trans (length_le_of_requireBlanks blank) (length_skip_le ..)
  · cases h; exact Nat.le_refl _

theorem length_lt_of_entityName {r next : Reader} {options : ParseOptions} {entity : String}
    (h : r.entityName options = .ok (entity, next)) : next.rest.length < r.rest.length := by
  obtain ⟨⟨_, r₁⟩, named, h⟩ := exists_of_bind_ok h
  refine Nat.lt_of_le_of_lt ?_ (length_lt_of_name named)
  dsimp only at h
  split at h
  · obtain ⟨r₂, reported, h⟩ := exists_of_bind_ok h
    cases h
    exact Nat.le_of_eq (by rw [rest_report reported])
  · cases h; exact Nat.le_refl _

theorem length_lt_of_entityDeclaration {r next : Reader} {options : ParseOptions}
    {before table : EntityTable} (h : r.entityDeclaration options before = .ok (table, next)) :
    next.rest.length < r.rest.length := by
  obtain ⟨r₁, word, h⟩ := exists_of_bind_ok h
  obtain ⟨r₂, blank, h⟩ := exists_of_bind_ok h
  obtain ⟨⟨_, r₃⟩, mark, h⟩ := exists_of_bind_ok h
  obtain ⟨⟨_, r₄⟩, named, h⟩ := exists_of_bind_ok h
  obtain ⟨r₅, between, h⟩ := exists_of_bind_ok h
  obtain ⟨⟨_, r₆⟩, defined, h⟩ := exists_of_bind_ok h
  obtain ⟨r₇, unparsed, h⟩ := exists_of_bind_ok h
  obtain ⟨r₈, ended, h⟩ := exists_of_bind_ok h
  have final : next = r₈ := by
    split at h <;> cases h <;> rfl
  subst final
  exact Nat.lt_trans (length_lt_of_expect ended) <|
    Nat.lt_of_le_of_lt (length_le_of_unparsedMark unparsed) <|
    Nat.lt_of_le_of_lt (length_le_of_entityDefinition defined) <|
    Nat.lt_of_le_of_lt (length_le_of_requireBlanks between) <|
    Nat.lt_trans (length_lt_of_entityName named) <|
    Nat.lt_of_le_of_lt (length_le_of_parameterMark mark) <|
    Nat.lt_of_le_of_lt (length_le_of_requireBlanks blank) (length_lt_of_expectWord rfl word)

/-! ## The internal subset -/

-- The equations bound by `match` are what the termination proofs need.
set_option linter.unusedVariables false

/-- Pass over the rest of a declaration; a greater-than sign in quotes does not end it. -/
def declarationTail (r : Reader) : Except ParseFailure Reader :=
  match more : r.rest with
  | [] => r.fail (.endOfText (some .doctype))
  | c :: _ =>
    if c == '>' then .ok (r.skip 1)
    else if c == '"' || c == '\'' then
      match h : r.quoted with
      | .error failure => .error failure
      | .ok (_, next) => next.declarationTail
    else (r.skip 1).declarationTail
  termination_by r.rest.length
  decreasing_by
    · exact length_lt_of_quoted h
    · exact length_skip_lt (by decide) (by simp [more])

theorem length_le_of_declarationTail {r next : Reader} (h : r.declarationTail = .ok next) :
    next.rest.length ≤ r.rest.length := by
  fun_induction declarationTail r with
  | case1 => exact absurd h not_fail
  | case2 => cases h; exact length_skip_le ..
  | case3 => cases h
  | case4 =>
    rename_i read ih
    exact Nat.le_trans (ih h) (Nat.le_of_lt (length_lt_of_quoted read))
  | case5 r _ _ _ _ _ ih => exact Nat.le_trans (ih h) (length_skip_le ..)

/-- Read one item of an internal subset, which begins with a percent or a less-than sign. -/
def subsetItem (r : Reader) (options : ParseOptions) (table : EntityTable) :
    Except ParseFailure (EntityTable × Reader) :=
  if r.sees '%' then do
    let (_, r) ← (r.skip 1).name options
    let r ← r.expect ';'
    return ({ table with incomplete := true }, r)
  else if r.startsWith "<!ENTITY" then r.entityDeclaration options table
  else if r.startsWith "<!--" then do return (table, (← r.comment options).2)
  else if r.startsWith "<?" then do return (table, (← r.instruction options).2)
  else if r.startsWith "<!" then do return (table, ← (← r.expectWord "<!").declarationTail)
  else r.fail .strayTextInSubset

theorem length_lt_of_subsetItem {r next : Reader} {options : ParseOptions}
    {before table : EntityTable} (h : r.subsetItem options before = .ok (table, next)) :
    next.rest.length < r.rest.length := by
  unfold subsetItem at h
  split at h
  · obtain ⟨⟨_, r₁⟩, named, h⟩ := exists_of_bind_ok h
    obtain ⟨r₂, ended, h⟩ := exists_of_bind_ok h
    cases h
    exact Nat.lt_of_lt_of_le (length_lt_of_expect ended) <|
      Nat.le_trans (Nat.le_of_lt (length_lt_of_name named)) (length_skip_le ..)
  · split at h
    · exact length_lt_of_entityDeclaration h
    · split at h
      · obtain ⟨⟨_, r₁⟩, read, h⟩ := exists_of_bind_ok h
        cases h
        exact length_lt_of_comment read
      · split at h
        · obtain ⟨⟨_, r₁⟩, read, h⟩ := exists_of_bind_ok h
          cases h
          exact length_lt_of_instruction read
        · split at h
          · obtain ⟨r₁, word, h⟩ := exists_of_bind_ok h
            obtain ⟨r₂, ended, h⟩ := exists_of_bind_ok h
            cases h
            exact Nat.lt_of_le_of_lt (length_le_of_declarationTail ended)
              (length_lt_of_expectWord rfl word)
          · exact absurd h not_fail

/-- Read an internal subset up to its closing bracket. -/
def internalSubset (options : ParseOptions) (r : Reader) (table : EntityTable) :
    Except ParseFailure (EntityTable × Reader) :=
  if r.skipBlanks.atEnd then r.skipBlanks.fail (.endOfText (some .doctype))
  else if r.skipBlanks.sees ']' then .ok (table, r.skipBlanks.skip 1)
  else
    match h : r.skipBlanks.subsetItem options table with
    | .error failure => .error failure
    | .ok (table, next) => internalSubset options next table
  termination_by r.rest.length
  decreasing_by exact Nat.lt_of_lt_of_le (length_lt_of_subsetItem h) (length_skipBlanks_le r)

/-- Read a document type declaration and the entities that it declares. -/
def doctype (r : Reader) (options : ParseOptions) :
    Except ParseFailure ((Doctype × EntityTable) × Reader) := do
  let r ← r.expectWord "<!DOCTYPE"
  let r ← r.requireBlanks .anywhere
  let (name, r) ← r.name options
  let ((publicId, systemId), r) ← r.skipBlanks.externalId
  let r := r.skipBlanks
  let table := { EntityTable.empty with incomplete := systemId.isSome }
  let (table, r) ←
    if r.sees '[' then do
      let (table, r) ← internalSubset options (r.skip 1) table
      pure (table, r.skipBlanks)
    else pure (table, r)
  let r ← r.expect '>'
  return ((⟨name, publicId, systemId⟩, table), r)

end Reader
end Markup.Xml
