import Markup.Proofs.Xml.Passage
import Markup.Proofs.Xml.Recovery

/-!
# Where problems are reported

A reader covers the positions at which something met from it on may be reported: the places of the
text that is left, or its origin alone if it reads replacement text. Every step reports what it
meets at positions that its reader covers, and comes to a reader that covers no more. Steps with
these properties can be put one after the other.
-/

namespace Markup.Xml

open Reaching (reached)

namespace Reader

variable {r next last : Reader} {position : Position} {reports : List Diagnostic}

/-- A position at which something met from a reader on may be reported. -/
inductive Covers (r : Reader) : Position → Prop
  | origin {position : Position} (inside : r.origin = some position) : Covers r position
  | ahead {read left : List Char} (outside : r.origin = none) (split : r.rest = read ++ left) :
      Covers r (r.position.after read)

/-- What was reported so far, and more at positions that a reader covers. -/
def Adds (r : Reader) (reports : List Diagnostic) : Prop :=
  ∃ more, reports = r.diagnostics ++ more ∧ ∀ report ∈ more, r.Covers report.position

/-- A failure at a position that a reader covers. -/
structure Stops (r : Reader) (failure : ParseFailure) : Prop where
  position : ∃ position, failure.position = some position ∧ r.Covers position
  reports : r.Adds failure.diagnostics

/-- A reader that is further on in the same text, with more reports. -/
structure Onward (r next : Reader) : Prop where
  origin : next.origin = r.origin
  read : ∃ read, r.rest = read ++ next.rest ∧ next.position = r.position.after read
  reports : r.Adds next.diagnostics

theorem covers_place (r : Reader) : r.Covers r.place := by
  cases inside : r.origin with
  | none =>
    rw [place, inside]
    exact .ahead inside (List.nil_append _).symm
  | some position =>
    rw [place, inside]
    exact .origin inside

theorem adds_refl (r : Reader) : r.Adds r.diagnostics := ⟨[], by simp, by simp⟩

namespace Onward

theorem refl (r : Reader) : r.Onward r := ⟨rfl, ⟨[], rfl, rfl⟩, r.adds_refl⟩

theorem covers (onward : r.Onward next) (covered : next.Covers position) : r.Covers position := by
  cases covered with
  | origin inside => exact .origin (onward.origin ▸ inside)
  | @ahead more left outside split =>
    obtain ⟨read, rest, moved⟩ := onward.read
    rw [moved, ← Position.after_append]
    have whole : r.rest = (read ++ more) ++ left := by rw [rest, split, List.append_assoc]
    exact .ahead (onward.origin ▸ outside) whole

theorem adds (onward : r.Onward next) (added : next.Adds reports) : r.Adds reports := by
  obtain ⟨more, grown, covered⟩ := onward.reports
  obtain ⟨others, rfl, covered'⟩ := added
  refine ⟨more ++ others, by rw [grown, List.append_assoc], fun report member => ?_⟩
  rcases List.mem_append.mp member with member | member
  · exact covered report member
  · exact onward.covers (covered' report member)

theorem stops (onward : r.Onward next) {failure : ParseFailure} (stopped : next.Stops failure) :
    r.Stops failure := by
  obtain ⟨⟨position, placed, covered⟩, added⟩ := stopped
  exact ⟨⟨position, placed, onward.covers covered⟩, onward.adds added⟩

theorem trans (first : r.Onward next) (second : next.Onward last) : r.Onward last where
  origin := second.origin.trans first.origin
  read := by
    obtain ⟨read, rest, moved⟩ := first.read
    obtain ⟨more, rest', moved'⟩ := second.read
    refine ⟨read ++ more, by rw [rest, rest', List.append_assoc], ?_⟩
    rw [moved', moved, Position.after_append]
  reports := first.adds second.reports

end Onward

theorem onward_skip (r : Reader) (count : Nat) : r.Onward (r.skip count) where
  origin := rfl
  read := ⟨r.rest.take count, (List.take_append_drop ..).symm, rfl⟩
  reports := r.adds_refl

theorem onward_skipBlanks (r : Reader) : r.Onward r.skipBlanks := r.onward_skip _

theorem onward_note (r : Reader) (severity : Severity) (problem : Problem) :
    r.Onward (r.note severity problem) where
  origin := rfl
  read := ⟨[], rfl, rfl⟩
  reports := by
    refine ⟨[⟨severity, problem, r.place⟩], by simp [diagnostics, note], fun report member => ?_⟩
    rw [List.mem_singleton.mp member]
    exact r.covers_place

end Reader

open Reader

/-- Results that may come of a reading that began with some reader. -/
class Following (α : Type) where
  /-- Whether a result may come of a reading. -/
  Follows : Reader → α → Prop
  /-- A reading may have begun earlier. -/
  earlier {r next : Reader} {a : α} : r.Onward next → Follows next a → Follows r a

instance {α : Type} [Reaching α] : Following α := ⟨fun r a => r.Onward (reached a), Onward.trans⟩

instance : Following DocumentDraft := ⟨fun r draft => r.Adds draft.diagnostics, Onward.adds⟩

open Following (Follows)

/-- A step that reports what it meets at positions that its reader covers. -/
structure Located {α : Type} [Following α] (r : Reader) (step : Except ParseFailure α) : Prop where
  found {a : α} : step = .ok a → Follows r a
  failed {failure : ParseFailure} : step = .error failure → r.Stops failure

namespace Located

variable {α β γ : Type} [Following α] [Reaching β] {r r' : Reader} {step : Except ParseFailure α}

theorem done {a : α} (follows : Follows r a) : Located r (.ok a) where
  found read := by cases read; exact follows
  failed := nofun

theorem stop {failure : ParseFailure} (stopped : r.Stops failure) :
    Located r (.error failure : Except ParseFailure α) where
  found := nofun
  failed stop := by cases stop; exact stopped

theorem fail {problem : Problem} : Located r (r.fail problem : Except ParseFailure α) :=
  .stop ⟨⟨r.place, rfl, r.covers_place⟩, r.adds_refl⟩

/-- A step that begins further on. -/
theorem later (located : Located r' step) (onward : r.Onward r') : Located r step where
  found read := Following.earlier onward (located.found read)
  failed stop := onward.stops (located.failed stop)

theorem bind {before : Except ParseFailure β} {next : β → Except ParseFailure α}
    (first : Located r before) (rest : ∀ b, before = .ok b → Located (reached b) (next b)) :
    Located r (before >>= next) := by
  cases ran : before with
  | error failure => exact .stop (first.failed ran)
  | ok b => exact (rest b ran).later (first.found ran)

theorem ite {condition : Prop} [Decidable condition] {other : Except ParseFailure α}
    (yes : condition → Located r step) (no : ¬condition → Located r other) :
    Located r (if condition then step else other) := by
  split
  · exact yes ‹_›
  · exact no ‹_›

/-- A part of a step that reads nothing on its own. -/
theorem part {part : Except ParseFailure γ} {next : γ → Except ParseFailure α}
    (stops : ∀ failure, part = .error failure → r.Stops failure)
    (rest : ∀ c, part = .ok c → Located r (next c)) : Located r (part >>= next) := by
  cases ran : part with
  | error failure => exact .stop (stops failure ran)
  | ok c => exact rest c ran

end Located

namespace Reader

/-! ## Single steps -/

theorem located_report (r : Reader) (options : ParseOptions) (problem : Problem) :
    Located r (r.report options problem) :=
  .ite (fun _ => .done (r.onward_note ..)) fun _ => .fail

theorem located_expect (r : Reader) (c : Char) : Located r (r.expect c) :=
  .ite (fun _ => .done (r.onward_skip 1)) fun _ => .fail

theorem located_expectAll (r : Reader) (word : List Char) : Located r (r.expectAll word) := by
  induction word generalizing r with
  | nil => exact .done (.refl r)
  | cons c word ih => exact .bind (located_expect ..) fun next _ => ih next

theorem located_expectWord (r : Reader) (word : String) : Located r (r.expectWord word) :=
  located_expectAll ..

theorem located_requireBlanks (r : Reader) (place : BlankPlace) :
    Located r (r.requireBlanks place) :=
  .ite (fun _ => .done r.onward_skipBlanks) fun _ => .fail

theorem located_openQuote (r : Reader) (literal : Quoted) : Located r (r.openQuote literal) := by
  unfold openQuote
  split
  · exact .done (r.onward_skip 1)
  · exact .done (r.onward_skip 1)
  · exact .fail

theorem located_quoted (r : Reader) : Located r r.quoted :=
  .bind (located_openQuote ..) fun _ _ => .bind ((located_expect ..).later (onward_skip ..))
    fun _ _ => .done (.refl _)

theorem located_char (r : Reader) (options : ParseOptions) : Located r (r.char options) := by
  unfold char
  split
  · exact .fail
  · exact .done (r.onward_skip 2)
  · exact .done (r.onward_skip 1)
  · exact .ite (fun _ => .done (r.onward_skip 1)) fun _ =>
      .bind ((located_report ..).later (r.onward_skip 1)) fun _ _ => .done (.refl _)

theorem located_name (r : Reader) (options : ParseOptions) : Located r (r.name options) := by
  unfold Reader.name
  split
  · exact .fail
  · exact .ite (fun _ => .ite (fun _ => .later .fail (r.onward_skip _))
      fun _ => .done (r.onward_skip _)) fun _ => .fail

/-! ## The head of a document -/

theorem located_pseudoValue (r : Reader) : Located r r.pseudoValue :=
  .bind ((located_expect ..).later r.onward_skipBlanks) fun _ _ =>
    (located_quoted _).later (onward_skipBlanks _)

theorem located_version (r : Reader) : Located r r.version :=
  .bind (located_expectWord ..) fun _ _ => .bind (located_pseudoValue _) fun _ _ =>
    .ite (fun _ => .done (.refl _)) fun _ => .fail

theorem located_encodingName (r : Reader) : Located r r.encodingName :=
  .ite
    (fun _ => .ite
      (fun _ => .bind ((located_expectWord ..).later r.onward_skipBlanks) fun _ _ =>
        .bind (located_pseudoValue _) fun _ _ => .ite (fun _ => .done (.refl _)) fun _ => .fail)
      fun _ => .later .fail r.onward_skipBlanks)
    fun _ => .done (.refl r)

theorem located_standalone (r : Reader) : Located r r.standalone := by
  refine .ite (fun _ => .ite (fun _ => ?_) fun _ => .later .fail r.onward_skipBlanks)
    fun _ => .done (.refl r)
  refine .bind ((located_expectWord ..).later r.onward_skipBlanks) fun _ _ =>
    .bind (located_pseudoValue _) fun ⟨value, _⟩ _ => ?_
  dsimp only
  split
  · exact .done (.refl _)
  · exact .done (.refl _)
  · exact .fail

theorem located_declaration (r : Reader) : Located r r.declaration :=
  .bind (located_expectWord ..) fun _ _ => .bind (located_requireBlanks ..) fun _ _ =>
    .bind (located_version _) fun _ _ => .bind (located_encodingName _) fun _ _ =>
      .bind (located_standalone _) fun _ _ =>
        .bind ((located_expectWord ..).later (onward_skipBlanks _)) fun _ _ => .done (.refl _)

theorem located_head (r : Reader) : Located r r.head :=
  .ite (fun _ => .bind (located_declaration _) fun _ _ => .done (.refl _)) fun _ =>
    .ite (fun _ => .later .fail r.onward_skipBlanks) fun _ => .done r.onward_skipBlanks

/-! ## Constructs that run up to a delimiter -/

theorem located_upTo (options : ParseOptions) (close : String) (within : Construct) (r : Reader)
    (content : List Char) : Located r (r.upTo options close within content) := by
  rw [upTo_eq]
  exact .ite (fun _ => .fail) fun _ => .ite (fun _ => .done (r.onward_skip _)) fun _ =>
    .bind (located_char ..) fun read found => located_upTo options close within read.2 _
  termination_by r.rest.length
  decreasing_by exact length_lt_of_char found

theorem located_commentText (options : ParseOptions) (r : Reader) (content : List Char) :
    Located r (r.commentText options content) := by
  rw [commentText_eq]
  split
  · exact .fail
  · exact .done (r.onward_skip 3)
  · rename_i more
    refine .bind (located_report ..) fun next noted => ?_
    have shorter : (next.skip 2).rest.length < r.rest.length := by
      rw [← rest_report noted]
      exact length_skip_lt (by decide) (by simp [rest_report noted, more])
    exact (located_commentText options (next.skip 2) _).later (next.onward_skip 2)
  · exact .bind (located_char ..) fun read found => located_commentText options read.2 _
  termination_by r.rest.length
  decreasing_by
    · exact shorter
    · exact length_lt_of_char found

theorem located_comment (r : Reader) (options : ParseOptions) : Located r (r.comment options) :=
  .bind (located_expectWord ..) fun _ _ => .bind (located_commentText ..) fun _ _ =>
    .done (.refl _)

theorem located_cdataSection (r : Reader) (options : ParseOptions) :
    Located r (r.cdataSection options) :=
  .bind (located_expectWord ..) fun _ _ => .bind (located_upTo ..) fun _ _ => .done (.refl _)

theorem located_instruction (r : Reader) (options : ParseOptions) :
    Located r (r.instruction options) :=
  .bind (located_expectWord ..) fun _ _ => .bind (located_name ..) fun _ _ =>
    .ite (fun _ => .fail) fun _ => .ite
      (fun _ => .bind ((located_upTo ..).later (onward_skipBlanks _)) fun _ _ => .done (.refl _))
      fun _ => .bind (located_expectWord ..) fun _ _ => .done (.refl _)

/-! ## References and quoted values -/

theorem located_numeral (r : Reader) (base : Nat) (digit : Char → Bool) :
    Located r (r.numeral base digit) :=
  .ite (fun _ => .fail) fun _ => .ite (fun _ => .later .fail (r.onward_skip _)) fun _ =>
    .bind ((located_expect ..).later (r.onward_skip _)) fun _ _ =>
      .ite (fun _ => .done (.refl _)) fun _ => .fail

theorem located_charReference (r : Reader) : Located r r.charReference :=
  .bind (located_expect ..) fun next _ =>
    .ite (fun _ => (located_numeral ..).later (next.onward_skip 1)) fun _ => located_numeral ..

theorem located_resolve (r : Reader) (cx : Context) (entity : String) :
    Located r (r.resolve cx entity) := by
  unfold resolve
  split
  · exact .done (.refl r)
  · split
    · exact .ite (fun _ => .fail) fun _ => .ite (fun _ => .fail) fun _ =>
        .done ⟨rfl, ⟨[], rfl, rfl⟩, r.adds_refl⟩
    · exact .ite (fun _ => .fail) fun _ => .ite (fun _ => .done (r.onward_note ..)) fun _ => .fail

theorem located_reference (r : Reader) (cx : Context) : Located r (r.reference cx) :=
  .bind (located_expect ..) fun _ _ => .ite
    (fun _ => .bind (located_charReference _) fun _ _ => .done (.refl _))
    fun _ => .bind (located_name ..) fun _ _ => .bind (located_expect ..) fun _ _ =>
      located_resolve ..

/-- In replacement text nothing is covered but the place where it was entered. -/
theorem covers_enter {r : Reader} {replacement : String} {position : Position}
    (covered : (r.enter replacement).Covers position) : position = r.place := by
  cases covered with
  | origin inside => exact (Option.some.inj inside).symm
  | ahead outside split => cases outside

theorem covers_of_enter {r : Reader} {replacement : String} {position : Position}
    (covered : (r.enter replacement).Covers position) : r.Covers position :=
  covers_enter covered ▸ r.covers_place

theorem adds_of_enter {r : Reader} {replacement : String} {reports : List Diagnostic}
    (added : (r.enter replacement).Adds reports) : r.Adds reports := by
  obtain ⟨more, grown, covered⟩ := added
  exact ⟨more, grown, fun report member => covers_of_enter (covered report member)⟩

theorem stops_of_enter {r : Reader} {replacement : String} {failure : ParseFailure}
    (stopped : (r.enter replacement).Stops failure) : r.Stops failure := by
  obtain ⟨⟨position, placed, covered⟩, added⟩ := stopped
  exact ⟨⟨position, placed, covers_of_enter covered⟩, adds_of_enter added⟩

/-- After replacement text the reading goes on where it was entered. -/
theorem onward_resume {r inner : Reader} {replacement : String}
    (onward : (r.enter replacement).Onward inner) : r.Onward (r.resume inner) where
  origin := rfl
  read := ⟨[], rfl, rfl⟩
  reports := adds_of_enter onward.reports

end Reader

/-- Replacement text is read where it is referred to. -/
theorem Located.entered {α β : Type} [Following α] [Reaching β] {r : Reader} {replacement : String}
    {inner : Except ParseFailure β} {next : β → Except ParseFailure α}
    (first : Located (r.enter replacement) inner)
    (rest : ∀ b, (r.enter replacement).Onward (reached b) → Located r (next b)) :
    Located r (inner >>= next) := by
  cases ran : inner with
  | error failure => exact .stop (stops_of_enter (first.failed ran))
  | ok b => exact rest b (first.found ran)

namespace Reader

theorem located_attributeText (cx : Context) (quote : Option Char) (r : Reader)
    (value : List Char) : Located r (r.attributeText cx quote value) := by
  rw [attributeText_eq]
  split
  · exact .ite (fun _ => .fail) fun _ => .done (.refl r)
  · refine .ite (fun _ => .done (r.onward_skip 1)) fun _ => .ite (fun _ => .fail) fun _ =>
      .ite (fun _ => ?_)
      fun _ => .bind (located_char ..) fun read found => located_attributeText cx quote read.2 _
    refine .bind (located_reference ..) fun found read => ?_
    rcases found with ⟨content | ⟨entity, replacement⟩, next⟩
    · exact located_attributeText cx quote next _
    · refine .ite (fun _ => .fail) fun _ => .entered
        (located_attributeText (cx.opening entity) none (next.enter replacement) value)
        fun inside onward => ?_
      exact (located_attributeText cx quote (next.resume inside.2) _).later (onward_resume onward)
  termination_by (cx.unopened, r.rest.length)
  decreasing_by
    · exact .right _ (length_lt_of_reference read)
    · exact .left _ _ (unopened_lt_of_reference read)
    · exact .right _ (by simpa using length_lt_of_reference read)
    · exact .right _ (length_lt_of_char found)

theorem located_attributeValue (r : Reader) (cx : Context) : Located r (r.attributeValue cx) :=
  .bind (located_openQuote ..) fun _ _ => .bind (located_attributeText ..) fun _ _ =>
    .done (.refl _)

theorem located_entityText (options : ParseOptions) (quote : Char) (r : Reader)
    (value : List Char) : Located r (r.entityText options quote value) := by
  rw [entityText_eq]
  split
  · exact .fail
  · rename_i more
    have shorter : (r.skip 1).rest.length < r.rest.length :=
      length_skip_lt (by decide) (by simp [more])
    refine .ite (fun _ => .done (r.onward_skip 1)) fun _ => .ite (fun _ => .fail) fun _ =>
      .ite (fun _ => ?_) fun _ => .ite (fun _ => ?_) fun _ => ?_
    · exact .bind ((located_charReference _).later (r.onward_skip 1)) fun read found =>
        located_entityText options quote read.2 _
    · exact .bind ((located_name ..).later (r.onward_skip 1)) fun named found =>
        .bind (located_expect ..) fun next ended => located_entityText options quote next _
    · exact .bind (located_char ..) fun read found => located_entityText options quote read.2 _
  termination_by r.rest.length
  decreasing_by
    · exact Nat.lt_of_le_of_lt (length_le_of_charReference found) shorter
    · exact Nat.lt_trans (length_lt_of_expect ended) <|
        Nat.lt_trans (length_lt_of_name found) shorter
    · exact length_lt_of_char found

theorem located_entityValue (r : Reader) (options : ParseOptions) :
    Located r (r.entityValue options) :=
  .bind (located_openQuote ..) fun _ _ => .bind (located_entityText ..) fun _ _ => .done (.refl _)

/-! ## Document type declarations -/

theorem located_externalId (r : Reader) : Located r r.externalId :=
  .ite
    (fun _ => .bind ((located_requireBlanks ..).later (r.onward_skip 6)) fun _ _ =>
      .bind (located_quoted _) fun _ _ => .bind (located_requireBlanks ..) fun _ _ =>
        .bind (located_quoted _) fun _ _ => .done (.refl _))
    fun _ => .ite
      (fun _ => .bind ((located_requireBlanks ..).later (r.onward_skip 6)) fun _ _ =>
        .bind (located_quoted _) fun _ _ => .done (.refl _))
      fun _ => .done (.refl r)

theorem located_entityDefinition (r : Reader) (options : ParseOptions) :
    Located r (r.entityDefinition options) :=
  .bind (located_externalId _) fun _ _ => .ite (fun _ => .done (.refl _)) fun _ =>
    .bind (located_entityValue ..) fun _ _ => .done (.refl _)

theorem located_unparsedMark (r : Reader) (options : ParseOptions) (allowed : Bool) :
    Located r (r.unparsedMark options allowed) :=
  .ite
    (fun _ => .ite (fun _ => .later .fail r.onward_skipBlanks) fun _ =>
      .ite (fun _ => .later .fail r.onward_skipBlanks) fun _ =>
        .bind ((located_requireBlanks ..).later (r.onward_skipBlanks.trans (onward_skip _ 5)))
          fun _ _ => .bind (located_name ..) fun _ _ => .done (onward_skipBlanks _))
    fun _ => .done r.onward_skipBlanks

theorem located_parameterMark (r : Reader) : Located r r.parameterMark :=
  .ite (fun _ => .bind ((located_requireBlanks ..).later (r.onward_skip 1)) fun _ _ =>
    .done (.refl _)) fun _ => .done (.refl r)

theorem located_entityName (r : Reader) (options : ParseOptions) :
    Located r (r.entityName options) :=
  .bind (located_name ..) fun _ _ => .ite
    (fun _ => .bind (located_report ..) fun _ _ => .done (.refl _)) fun _ => .done (.refl _)

theorem located_entityDeclaration (r : Reader) (options : ParseOptions) (table : EntityTable) :
    Located r (r.entityDeclaration options table) := by
  refine .bind (located_expectWord ..) fun _ _ => .bind (located_requireBlanks ..) fun _ _ =>
    .bind (located_parameterMark _) fun _ _ => .bind (located_entityName ..) fun _ _ =>
    .bind (located_requireBlanks ..) fun _ _ => .bind (located_entityDefinition ..) fun _ _ =>
    .bind (located_unparsedMark ..) fun _ _ => .bind (located_expect ..) fun _ _ => ?_
  split <;> exact .done (.refl _)

theorem located_declarationTail (r : Reader) : Located r r.declarationTail := by
  fun_induction declarationTail r with
  | case1 => exact .fail
  | case2 r => exact .done (r.onward_skip 1)
  | case3 r c tail more notEnd quote failure read => exact .stop ((located_quoted r).failed read)
  | case4 r c tail more notEnd quote literal next read ih =>
    exact ih.later ((located_quoted r).found read)
  | case5 r c tail more notEnd noQuote ih => exact ih.later (r.onward_skip 1)

theorem located_subsetItem (r : Reader) (options : ParseOptions) (table : EntityTable) :
    Located r (r.subsetItem options table) :=
  .ite
    (fun _ => .bind ((located_name ..).later (r.onward_skip 1)) fun _ _ =>
      .bind (located_expect ..) fun _ _ => .done (.refl _))
    fun _ => .ite (fun _ => located_entityDeclaration ..)
    fun _ => .ite (fun _ => .bind (located_comment ..) fun _ _ => .done (.refl _))
    fun _ => .ite (fun _ => .bind (located_instruction ..) fun _ _ => .done (.refl _))
    fun _ => .ite
      (fun _ => .bind (located_expectWord ..) fun _ _ => .bind (located_declarationTail _)
        fun _ _ => .done (.refl _))
      fun _ => .fail

theorem located_internalSubset (options : ParseOptions) (r : Reader) (table : EntityTable) :
    Located r (internalSubset options r table) := by
  rw [internalSubset_eq]
  exact .ite (fun _ => .later .fail r.onward_skipBlanks) fun _ =>
    .ite (fun _ => .done (r.onward_skipBlanks.trans (onward_skip _ 1))) fun _ =>
    .bind ((located_subsetItem ..).later r.onward_skipBlanks) fun read found =>
      located_internalSubset options read.2 _
  termination_by r.rest.length
  decreasing_by exact Nat.lt_of_lt_of_le (length_lt_of_subsetItem found) (length_skipBlanks_le r)

theorem located_doctype (r : Reader) (options : ParseOptions) : Located r (r.doctype options) :=
  .bind (located_expectWord ..) fun _ _ => .bind (located_requireBlanks ..) fun _ _ =>
    .bind (located_name ..) fun _ _ =>
      .bind ((located_externalId _).later (onward_skipBlanks _)) fun ⟨_, r₄⟩ _ =>
      .ite
        (fun _ => .bind ((located_internalSubset ..).later
            (r₄.onward_skipBlanks.trans (onward_skip _ 1))) fun _ _ =>
          .bind (.done (onward_skipBlanks _)) fun _ _ => .bind (located_expect ..) fun _ _ =>
            .done (.refl _))
        fun _ => .bind (.done r₄.onward_skipBlanks) fun _ _ => .bind (located_expect ..)
          fun _ _ => .done (.refl _)

/-! ## Tags -/

theorem located_attr (r : Reader) (cx : Context) : Located r (r.attr cx) :=
  .bind (located_name ..) fun _ _ => .bind ((located_expect ..).later (onward_skipBlanks _))
    fun _ _ => .bind ((located_attributeValue ..).later (onward_skipBlanks _)) fun _ _ =>
      .done (.refl _)

theorem located_keepAttribute (r : Reader) (options : ParseOptions) (found : List Attribute)
    (attr : Attribute) : Located r (r.keepAttribute options found attr) :=
  .ite (fun _ => .bind (located_report ..) fun _ _ => .done (.refl _)) fun _ => .done (.refl r)

theorem located_attributes (cx : Context) (r : Reader) (found : List Attribute) :
    Located r (attributes cx r found) := by
  rw [attributes_eq]
  refine .ite (fun _ => .done r.onward_skipBlanks) fun _ =>
    .ite (fun _ => .later .fail r.onward_skipBlanks) fun _ =>
    .bind ((located_attr ..).later r.onward_skipBlanks) fun read named =>
      .bind (located_keepAttribute ..) fun kept listed => ?_
  have shorter : kept.2.rest.length < r.rest.length := by
    rw [rest_of_keepAttribute listed]
    exact Nat.lt_of_lt_of_le (length_lt_of_attr named) (length_skipBlanks_le r)
  exact located_attributes cx kept.2 kept.1
  termination_by r.rest.length

theorem located_boundUri (r : Reader) (options : ParseOptions) (scope : Scope)
    (nsPrefix : String) : Located r (r.boundUri options scope nsPrefix) := by
  unfold boundUri
  split
  · exact .done (.refl r)
  · exact .bind (located_report ..) fun _ _ => .done (.refl _)

theorem located_elementUri (r : Reader) (options : ParseOptions) (scope : Scope) (name : QName) :
    Located r (r.elementUri options scope name) := by
  unfold elementUri
  split
  · exact .done (.refl r)
  · exact located_boundUri ..

theorem located_resolveAttribute (r : Reader) (options : ParseOptions) (scope : Scope)
    (attr : Attribute) : Located r (r.resolveAttribute options scope attr) := by
  unfold resolveAttribute
  split
  · exact .bind (located_boundUri ..) fun _ _ => .done (.refl _)
  · exact .done (.refl r)

theorem located_resolveAttributes (options : ParseOptions) (scope : Scope) (r : Reader)
    (attributes : List Attribute) : Located r (resolveAttributes options scope r attributes) := by
  induction attributes generalizing r with
  | nil => exact .done (.refl r)
  | cons attr rest ih =>
    exact .bind (located_resolveAttribute ..) fun _ _ => .bind (ih _) fun _ _ => .done (.refl _)

theorem located_tagEnd (r : Reader) : Located r r.tagEnd :=
  .ite (fun _ => .done (r.onward_skip 2)) fun _ =>
    .ite (fun _ => .done (r.onward_skip 1)) fun _ => .fail

theorem located_startTag (r : Reader) (cx : Context) (depth : Nat) (scope : Scope) :
    Located r (r.startTag cx depth scope) :=
  .ite (fun _ => .fail) fun _ => .bind (located_expect ..) fun _ _ =>
    .bind (located_name ..) fun _ _ => .bind (located_attributes ..) fun _ _ =>
      .bind (located_elementUri ..) fun _ _ => .bind (located_resolveAttributes ..) fun _ _ =>
        .bind (located_tagEnd _) fun _ _ => .done (.refl _)

theorem located_endTag (r : Reader) (options : ParseOptions) (name : QName) :
    Located r (r.endTag options name) :=
  .bind (located_expectWord ..) fun _ _ => .bind (located_name ..) fun _ _ =>
    .bind ((located_expect ..).later (onward_skipBlanks _)) fun _ _ =>
      .ite (fun _ => .done (.refl _)) fun _ => located_report ..

/-! ## Content -/

theorem located_item (r : Reader) (cx : Context) (level : Level) :
    Located r (r.item cx level) :=
  .ite (fun _ => .bind (located_cdataSection ..) fun _ _ => .done (.refl _))
    fun _ => .ite (fun _ => .bind (located_comment ..) fun _ _ => .done (.refl _))
    fun _ => .ite (fun _ => .bind (located_instruction ..) fun _ _ => .done (.refl _))
    fun _ => .bind (located_startTag ..) fun _ _ => .done (.refl _)

theorem stops_extend {r : Reader} {options : ParseOptions} {pending : Pending}
    {content : List Char} {failure : ParseFailure}
    (stopped : r.extend options pending content = .error failure) : r.Stops failure := by
  unfold extend at stopped
  dsimp only at stopped
  split at stopped
  · cases stopped
    exact ⟨⟨r.place, rfl, r.covers_place⟩, r.adds_refl⟩
  · cases stopped

theorem located_content (cx : Context) (base : Level) (r : Reader) (here : List Draft)
    (path : List OpenElement) (pending : Pending) :
    Located r (content cx base r here path pending) := by
  rw [content_eq]
  split
  · split
    · exact .done (.refl r)
    · exact .bind (located_report ..) fun next noted => located_content cx base next ..
  · rename_i more
    refine .ite (fun _ => .ite (fun _ => ?_) fun _ => ?_) fun _ => .ite (fun _ => ?_)
      fun _ => .ite (fun _ => ?_) fun _ => ?_
    · split
      · exact .done (.refl r)
      · exact .bind (located_endTag ..) fun next closed => located_content cx base next ..
    · refine .bind (located_item ..) fun found read => ?_
      rcases found with ⟨kind | tag, next⟩
      · exact located_content cx base next ..
      · exact located_content cx base next ..
    · refine .bind (located_reference ..) fun found read => ?_
      rcases found with ⟨found | ⟨entity, replacement⟩, next⟩
      · exact .part (fun _ => stops_extend) fun pending _ => located_content cx base next ..
      · refine .ite (fun _ => .part (fun _ => stops_extend) fun pending _ =>
          located_content cx base next ..) fun _ => ?_
        refine .entered (located_content (cx.opening entity) (base.inside path)
          (next.enter replacement) [] [] .empty) fun inside onward => .ite (fun _ => ?_) fun _ => ?_
        · exact (located_content cx base (next.resume inside.2) ..).later (onward_resume onward)
        · exact .stop (stops_of_enter (onward.stops
            ⟨⟨_, rfl, covers_place _⟩, adds_refl _⟩))
    · refine .bind (located_report ..) fun next noted => ?_
      have shorter : (next.skip 3).rest.length < r.rest.length := by
        rw [← rest_report noted]
        exact length_skip_lt (by decide) (by simp [rest_report noted, more])
      refine Located.later ?_ (next.onward_skip 3)
      exact .part (fun _ => stops_extend) fun pending _ => located_content cx base (next.skip 3) ..
    · exact .bind (located_char ..) fun read found => .part (fun _ => stops_extend)
        fun pending _ => located_content cx base read.2 ..
  termination_by (cx.unopened, r.rest.length, path.length)
  decreasing_by
    · rw [rest_report noted]
      exact .right _ (.right _ (by simp only [*, List.length_cons, Nat.lt_succ_self]))
    · exact .right _ (.left _ _ (length_lt_of_endTag closed))
    · exact .right _ (.left _ _ (length_lt_of_item read))
    · exact .right _ (.left _ _ (length_lt_of_item read))
    · exact .right _ (.left _ _ (length_lt_of_reference read))
    · exact .right _ (.left _ _ (length_lt_of_reference read))
    · exact .left _ _ (unopened_lt_of_reference read)
    · exact .right _ (.left _ _ (by simpa using length_lt_of_reference read))
    · exact .right _ (.left _ _ shorter)
    · exact .right _ (.left _ _ (length_lt_of_char found))

theorem located_rootElement (r : Reader) (cx : Context) : Located r (r.rootElement cx) :=
  .bind (located_startTag ..) fun _ _ => .ite (fun _ => .done (.refl _)) fun _ =>
    .bind (located_content ..) fun _ _ => .ite
      (fun _ => .bind (located_report ..) fun _ _ => .done (.refl _))
      fun _ => .bind (located_endTag ..) fun _ _ => .done (.refl _)

theorem located_misc (options : ParseOptions) (r : Reader) (before : List Draft) :
    Located r (misc options r before) := by
  rw [misc_eq]
  exact .ite
    (fun _ => .bind ((located_comment ..).later r.onward_skipBlanks) fun read found =>
      located_misc options read.2 _)
    fun _ => .ite
      (fun _ => .bind ((located_instruction ..).later r.onward_skipBlanks) fun read found =>
        located_misc options read.2 _)
      fun _ => .done r.onward_skipBlanks
  termination_by r.rest.length
  decreasing_by
    · exact Nat.lt_of_lt_of_le (length_lt_of_comment found) (length_skipBlanks_le r)
    · exact Nat.lt_of_lt_of_le (length_lt_of_instruction found) (length_skipBlanks_le r)

theorem located_typeDeclaration (r : Reader) (options : ParseOptions) (before : List Draft) :
    Located r (r.typeDeclaration options before) :=
  .ite
    (fun _ => .bind (located_doctype ..) fun _ _ => .bind (located_misc ..)
      fun _ _ => .done (.refl _))
    fun _ => .done (.refl r)

end Reader

theorem located_parse (options : ParseOptions) (text : String) :
    Located (.ofText text) (parse options text) :=
  .bind (located_head _) fun _ _ => .bind (located_misc ..) fun _ _ =>
    .bind (located_typeDeclaration ..) fun _ _ => .ite (fun _ => .fail) fun _ =>
      .ite (fun _ => .fail) fun _ => .bind (located_rootElement ..) fun _ _ =>
        .bind (located_misc ..) fun _ _ => .ite
          (fun _ => .bind (.done (.refl _)) fun _ _ => .done (adds_refl _))
          fun _ => .bind (located_report ..) fun _ _ => .done (adds_refl _)

end Markup.Xml
