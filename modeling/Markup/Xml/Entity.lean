import Markup.Xml.Reader

/-!
# Entities and references

A reference stands for a character or for a declared entity. The replacement text of an entity is
read in place, with the entity counted as open, so that no entity is read inside itself: each
opening leaves one declared entity fewer to open, which is why the reading ends.
-/

namespace Markup.Xml

/-- The general entities that a document declares. -/
structure EntityTable where
  /-- The names of internal entities, each with its replacement text. -/
  internal : List (String × String)
  /-- The names of entities whose text lies outside the document. -/
  external : List String
  /-- Whether declarations may stand where they are not read. -/
  incomplete : Bool
  deriving Repr, DecidableEq

/-- The five entities that every document has. -/
def predefined? (entity : String) : Option String :=
  match entity with
  | "amp" => some "&"
  | "lt" => some "<"
  | "gt" => some ">"
  | "apos" => some "'"
  | "quot" => some "\""
  | _ => none

namespace EntityTable

/-- No declarations. -/
def empty : EntityTable := ⟨[], [], false⟩

/-- Whether a name is taken. -/
def declares (table : EntityTable) (entity : String) : Bool :=
  (predefined? entity).isSome || (table.internal.lookup entity).isSome ||
    table.external.contains entity

/-- Declare an internal entity; the first declaration of a name holds. -/
def declareInternal (table : EntityTable) (entity replacement : String) : EntityTable :=
  if table.declares entity then table
  else { table with internal := (entity, replacement) :: table.internal }

/-- Declare an external entity; the first declaration of a name holds. -/
def declareExternal (table : EntityTable) (entity : String) : EntityTable :=
  if table.declares entity then table
  else { table with external := entity :: table.external }

end EntityTable

/-- What a text is read against: the options, the entities, and which of them are open. -/
structure Context where
  options : ParseOptions
  entities : EntityTable
  /-- The entities whose replacement text is being read, innermost first. -/
  opened : List String
  deriving Repr, DecidableEq

namespace Context

/-- The context inside the replacement text of an entity. -/
def opening (cx : Context) (entity : String) : Context :=
  { cx with opened := entity :: cx.opened }

/-- The number of declared entities that are not open. -/
def unopened (cx : Context) : Nat :=
  cx.entities.internal.countP fun declaration => !cx.opened.contains declaration.1

theorem unopened_opening_lt {cx : Context} {entity replacement : String}
    (declared : cx.entities.internal.lookup entity = some replacement)
    (closed : cx.opened.contains entity = false) : (cx.opening entity).unopened < cx.unopened := by
  have general : ∀ table : List (String × String), table.lookup entity = some replacement →
      table.countP (fun d => !(entity :: cx.opened).contains d.1) <
        table.countP fun d => !cx.opened.contains d.1 := by
    intro table
    induction table with
    | nil => intro h; cases h
    | cons first rest ih =>
      intro h
      have monotone : rest.countP (fun d => !(entity :: cx.opened).contains d.1) ≤
          rest.countP fun d => !cx.opened.contains d.1 :=
        List.countP_mono_left fun d _ h => by simp_all
      simp only [List.countP_cons]
      by_cases same : entity = first.1
      · subst same
        simp only [List.contains_cons, BEq.rfl, Bool.true_or, Bool.not_true, closed, Bool.not_false]
        simp only [Bool.false_eq_true, ↓reduceIte]
        simp only [List.contains_cons] at monotone
        omega
      · have tail := ih <| by
          rwa [List.lookup_cons, show (entity == first.1) = false by simpa using same] at h
        have other : (entity :: cx.opened).contains first.1 = cx.opened.contains first.1 := by
          simp [Ne.symm same]
        rw [other]
        omega
  exact general _ declared

end Context

/-- What a reference stands for. -/
inductive Reference where
  /-- Characters that are taken as they are. -/
  | text (content : List Char)
  /-- An entity whose replacement text has to be read. -/
  | entity (name replacement : String)
  deriving Repr, DecidableEq

namespace Reader

/-- Read the digits of a character reference and its semicolon. -/
def numeral (r : Reader) (base : Nat) (digit : Char → Bool) :
    Except ParseFailure (Char × Reader) :=
  let digits := r.rest.takeWhile digit
  let value := Text.digitsValue base digits
  let next := r.skip digits.length
  if digits.isEmpty then r.fail .emptyCharReference
  else if value ≥ Nat.pow 2 32 then next.fail .charReferenceOutOfRange
  else do
    let ended ← next.expect ';'
    if isDocumentChar (Char.ofNat value) then return (Char.ofNat value, ended)
    else ended.fail (.invalidCharReference value)

/-- Read the part of a character reference from its number sign on. -/
def charReference (r : Reader) : Except ParseFailure (Char × Reader) := do
  let r ← r.expect '#'
  if r.sees 'x' then (r.skip 1).numeral 16 Text.isHexDigit else r.numeral 10 Char.isDigit

/-- What a name in a reference stands for. An undeclared entity is stepped over with a warning if
the options ask for recovery or declarations may be missing. -/
def resolve (r : Reader) (cx : Context) (entity : String) :
    Except ParseFailure (Reference × Reader) :=
  match predefined? entity with
  | some content => .ok (.text content.toList, r)
  | none =>
    match cx.entities.internal.lookup entity with
    | some replacement =>
      if cx.opened.contains entity then r.fail (.selfReference entity)
      else if cx.options.maxExpansions ≤ r.log.expansions then
        r.fail (.tooManyExpansions cx.options.maxExpansions)
      else
        .ok (.entity entity replacement,
          { r with log := { r.log with expansions := r.log.expansions + 1 } })
    | none =>
      if cx.entities.external.contains entity then r.fail (.externalEntity entity)
      else if cx.options.recover || cx.entities.incomplete then
        .ok (.text [], r.note .warning (.unknownEntity entity))
      else r.fail (.unknownEntity entity)

/-- Read a reference and find what it stands for. -/
def reference (r : Reader) (cx : Context) : Except ParseFailure (Reference × Reader) := do
  let r ← r.expect '&'
  if r.sees '#' then
    let (c, r) ← r.charReference
    return (.text [c], r)
  else
    let (entity, r) ← r.name cx.options
    let r ← r.expect ';'
    r.resolve cx entity

/-- A reader of replacement text, met where this reader stands. -/
def enter (r : Reader) (replacement : String) : Reader :=
  ⟨replacement.toList, .start, some r.place, r.log⟩

/-- Go on after replacement text was read. -/
def resume (r inner : Reader) : Reader := { r with log := inner.log }

@[simp] theorem rest_resume (r inner : Reader) : (r.resume inner).rest = r.rest := rfl

/-! ## How far each step goes -/

theorem length_le_of_resolve {r next : Reader} {cx : Context} {entity : String}
    {found : Reference} (h : r.resolve cx entity = .ok (found, next)) :
    next.rest.length ≤ r.rest.length := by
  unfold resolve at h
  split at h
  · cases h; exact Nat.le_refl _
  · split at h
    · split at h
      · exact absurd h not_fail
      · split at h
        · exact absurd h not_fail
        · cases h; exact Nat.le_refl _
    · split at h
      · exact absurd h not_fail
      · split at h
        · cases h; exact Nat.le_refl _
        · exact absurd h not_fail

theorem unopened_lt_of_resolve {r next : Reader} {cx : Context} {entity name replacement : String}
    (h : r.resolve cx entity = .ok (.entity name replacement, next)) :
    (cx.opening name).unopened < cx.unopened := by
  unfold resolve at h
  split at h
  · cases h
  · split at h
    · rename_i declared
      split at h
      · exact absurd h not_fail
      · rename_i closed
        split at h
        · exact absurd h not_fail
        · cases h
          exact Context.unopened_opening_lt declared (by simpa using closed)
    · split at h
      · exact absurd h not_fail
      · split at h
        · cases h
        · exact absurd h not_fail

theorem length_le_of_numeral {r next : Reader} {base : Nat} {digit : Char → Bool} {c : Char}
    (h : r.numeral base digit = .ok (c, next)) : next.rest.length ≤ r.rest.length := by
  unfold numeral at h
  dsimp only at h
  split at h
  · exact absurd h not_fail
  · split at h
    · exact absurd h not_fail
    · cases last : (r.skip (r.rest.takeWhile digit).length).expect ';' with
      | error failure => simp [last, bind, Except.bind] at h
      | ok ended =>
        simp only [last, bind, Except.bind] at h
        split at h
        · cases h
          exact Nat.le_trans (Nat.le_of_lt (length_lt_of_expect last)) (length_skip_le ..)
        · exact absurd h not_fail

theorem length_le_of_charReference {r next : Reader} {c : Char}
    (h : r.charReference = .ok (c, next)) : next.rest.length ≤ r.rest.length := by
  unfold charReference at h
  cases first : r.expect '#' with
  | error failure => simp [first, bind, Except.bind] at h
  | ok middle =>
    refine Nat.le_trans ?_ (Nat.le_of_lt (length_lt_of_expect first))
    simp only [first, bind, Except.bind] at h
    split at h
    · exact Nat.le_trans (length_le_of_numeral h) (length_skip_le ..)
    · exact length_le_of_numeral h

theorem length_lt_of_reference {r next : Reader} {cx : Context} {found : Reference}
    (h : r.reference cx = .ok (found, next)) : next.rest.length < r.rest.length := by
  unfold reference at h
  cases first : r.expect '&' with
  | error failure => simp [first, bind, Except.bind] at h
  | ok middle =>
    refine Nat.lt_of_le_of_lt ?_ (length_lt_of_expect first)
    simp only [first, bind, Except.bind] at h
    split at h
    · split at h
      · cases h
      · rename_i read
        cases h
        exact length_le_of_charReference read
    · split at h
      · cases h
      · rename_i named
        split at h
        · cases h
        · rename_i ended
          exact Nat.le_trans (length_le_of_resolve h) <| Nat.le_of_lt <|
            Nat.lt_trans (length_lt_of_expect ended) (length_lt_of_name named)

theorem unopened_lt_of_reference {r next : Reader} {cx : Context} {name replacement : String}
    (h : r.reference cx = .ok (.entity name replacement, next)) :
    (cx.opening name).unopened < cx.unopened := by
  unfold reference at h
  cases first : r.expect '&' with
  | error failure => simp [first, bind, Except.bind] at h
  | ok middle =>
    simp only [first, bind, Except.bind] at h
    split at h
    · split at h
      · cases h
      · cases h
    · split at h
      · cases h
      · split at h
        · cases h
        · exact unopened_lt_of_resolve h

/-! ## Quoted values -/

-- The equations bound by `match` are what the termination proofs need.
set_option linter.unusedVariables false

/-- A blank inside an attribute value is read as a space. -/
def attributeChar (c : Char) : Char :=
  if c == '\t' || c == '\n' then ' ' else c

/-- Read attribute text into a value, latest character first: up to the quote if there is one, and
otherwise, in replacement text, up to the end. -/
def attributeText (cx : Context) (quote : Option Char) (r : Reader) (value : List Char) :
    Except ParseFailure (List Char × Reader) :=
  match r.rest with
  | [] => if quote.isSome then r.fail (.endOfText (some .attributeValue)) else .ok (value, r)
  | c :: _ =>
    if quote == some c then .ok (value, r.skip 1)
    else if c == '<' && quote.isSome then r.fail .lessThanInAttribute
    else if c == '&' then
      match h : r.reference cx with
      | .error failure => .error failure
      | .ok (.text content, next) => attributeText cx quote next (content.reverse ++ value)
      | .ok (.entity entity replacement, next) =>
        if replacement.toList.contains '<' then next.fail (.entityBringsLessThan entity)
        else
          match attributeText (cx.opening entity) none (next.enter replacement) value with
          | .error failure => .error failure
          | .ok (value, inner) => attributeText cx quote (next.resume inner) value
    else
      match h : r.char cx.options with
      | .error failure => .error failure
      | .ok (c, next) => attributeText cx quote next (attributeChar c :: value)
  termination_by (cx.unopened, r.rest.length)
  decreasing_by
    · exact .right _ (length_lt_of_reference h)
    · exact .left _ _ (unopened_lt_of_reference h)
    · exact .right _ (by simpa using length_lt_of_reference h)
    · exact .right _ (length_lt_of_char h)

/-- Read a quoted attribute value. -/
def attributeValue (r : Reader) (cx : Context) : Except ParseFailure (String × Reader) := do
  let (quote, r) ← r.openQuote .attributeValue
  let (value, r) ← r.attributeText cx (some quote) []
  return (String.ofList value.reverse, r)

/-- Read the text of an entity declaration up to its quote, latest character first. Character
references are expanded, references to entities are kept for the place of use. -/
def entityText (options : ParseOptions) (quote : Char) (r : Reader) (value : List Char) :
    Except ParseFailure (List Char × Reader) :=
  match more : r.rest with
  | [] => r.fail (.endOfText (some .entityValue))
  | c :: tail =>
    if c == quote then .ok (value, r.skip 1)
    else if c == '%' then r.fail .parameterReference
    else if c == '&' && tail.head? == some '#' then
      match h : (r.skip 1).charReference with
      | .error failure => .error failure
      | .ok (c, next) => entityText options quote next (c :: value)
    else if c == '&' then
      match named : (r.skip 1).name options with
      | .error failure => .error failure
      | .ok (entity, next) =>
        match ended : next.expect ';' with
        | .error failure => .error failure
        | .ok next => entityText options quote next (';' :: entity.toList.reverse ++ '&' :: value)
    else
      match h : r.char options with
      | .error failure => .error failure
      | .ok (c, next) => entityText options quote next (c :: value)
  termination_by r.rest.length
  decreasing_by
    · have shorter : (r.skip 1).rest.length < r.rest.length :=
        length_skip_lt (by decide) (by simp [more])
      exact Nat.lt_of_le_of_lt (length_le_of_charReference h) shorter
    · exact Nat.lt_of_lt_of_le (length_lt_of_expect ended) <|
        Nat.le_trans (Nat.le_of_lt (length_lt_of_name named)) (length_skip_le ..)
    · exact length_lt_of_char h

/-- Read the quoted replacement text of an entity declaration. -/
def entityValue (r : Reader) (options : ParseOptions) : Except ParseFailure (String × Reader) := do
  let (quote, r) ← r.openQuote .entityValue
  let (value, r) ← r.entityText options quote []
  return (String.ofList value.reverse, r)

end Reader
end Markup.Xml
