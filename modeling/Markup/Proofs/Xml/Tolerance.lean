import Markup.Proofs.Outcome
import Markup.Xml.Parser

/-!
# Strict and recovering steps

The two readings of a text, strict and recovering, are compared step by step. Each step of the
recovering reading keeps what the strict one finds, only adds to the reports, and finds nothing
that the strict one misses unless it reports something. Steps with these properties can be put one
after the other.
-/

namespace Markup.Xml

/-- The options that stop at the first problem, and are the same otherwise. -/
def ParseOptions.strict (options : ParseOptions) : ParseOptions := { options with recover := false }

/-- The options that step over problems, and are the same otherwise. -/
def ParseOptions.recovering (options : ParseOptions) : ParseOptions :=
  { options with recover := true }

/-- The context that stops at the first problem. -/
def Context.strict (cx : Context) : Context := { cx with options := cx.options.strict }

/-- The context that steps over problems. -/
def Context.recovering (cx : Context) : Context := { cx with options := cx.options.recovering }

/-- Results that show what was reported up to them. -/
class Reporting (α : Type) where
  /-- The reports, latest first. -/
  reports : α → List Diagnostic

open Reporting (reports)

instance : Reporting Reader := ⟨fun r => r.log.reports⟩

instance {α β : Type} [Reporting β] : Reporting (α × β) := ⟨fun result => reports result.2⟩

instance : Reporting DocumentDraft := ⟨fun draft => draft.diagnostics.reverse⟩

/-- A recovering step adds nothing to a strict one, taken after the same reports, but reports. -/
structure Recovers {α : Type} [Reporting α] (strict recovering : Except ParseFailure α)
    (before : List Diagnostic) : Prop where
  /-- What the strict step finds is kept. -/
  kept {a : α} : strict = .ok a → recovering = .ok a
  /-- Nothing reported is lost. -/
  grown {a : α} : recovering = .ok a → before <:+ reports a
  /-- What is found without a new report is found by the strict step. -/
  quiet {a : α} : recovering = .ok a → reports a = before → strict = .ok a

namespace Recovers

variable {α β : Type} [Reporting α] [Reporting β] {before : List Diagnostic}

theorem pure {a : α} (grown : before <:+ reports a) : Recovers (.ok a) (.ok a) before where
  kept := id
  grown found := by cases found; exact grown
  quiet found _ := found

theorem done {a : α} (same : reports a = before) : Recovers (.ok a) (.ok a) before :=
  pure (same ▸ List.suffix_refl _)

theorem fail {failure : ParseFailure} :
    Recovers (.error failure : Except ParseFailure α) (.error failure) before where
  kept := id
  grown := nofun
  quiet := nofun

/-- Where only the strict step fails, the recovering one has to report. -/
theorem reported {failure : ParseFailure} {a : α} {report : Diagnostic}
    (noted : reports a = report :: before) : Recovers (.error failure) (.ok a) before where
  kept := nofun
  grown found := by cases found; exact noted ▸ List.suffix_cons ..
  quiet found same := by cases found; exact absurd (noted.symm.trans same) (List.cons_ne_self _ _)

theorem bind {strict recovering : Except ParseFailure α} {next after : α → Except ParseFailure β}
    (first : Recovers strict recovering before)
    (rest : ∀ a, recovering = .ok a → Recovers (next a) (after a) (reports a)) :
    Recovers (strict >>= next) (recovering >>= after) before where
  kept found := by
    obtain ⟨a, ran, went⟩ := bind_eq_ok.mp found
    exact bind_eq_ok.mpr ⟨a, first.kept ran, (rest a (first.kept ran)).kept went⟩
  grown found := by
    obtain ⟨a, ran, went⟩ := bind_eq_ok.mp found
    exact (first.grown ran).trans ((rest a ran).grown went)
  quiet := by
    intro b found same
    obtain ⟨a, ran, went⟩ := bind_eq_ok.mp found
    -- The reports between the two steps lie between two equal lists.
    have between : reports a = before :=
      (same ▸ (rest a ran).grown went).eq_of_length_le (first.grown ran).length_le
    exact bind_eq_ok.mpr
      ⟨a, first.quiet ran between, (rest a ran).quiet went (same.trans between.symm)⟩

/-- A part that is the same in both readings and reports nothing does not matter. -/
theorem within {γ : Type} {part : Except ParseFailure γ} {next after : γ → Except ParseFailure α}
    (rest : ∀ c, part = .ok c → Recovers (next c) (after c) before) :
    Recovers (part >>= next) (part >>= after) before := by
  cases part with
  | error failure => exact fail
  | ok c => exact rest c rfl

theorem ite {condition : Prop} [Decidable condition]
    {strict strict' recovering recovering' : Except ParseFailure α}
    (yes : condition → Recovers strict recovering before)
    (no : ¬condition → Recovers strict' recovering' before) :
    Recovers (if condition then strict else strict')
      (if condition then recovering else recovering') before := by
  by_cases holds : condition
  · simpa only [holds, if_true] using yes holds
  · simpa only [holds, if_false] using no holds

end Recovers

namespace Reader

/-! ## Steps that do not depend on the options -/

theorem recovers_expect (r : Reader) (c : Char) :
    Recovers (r.expect c) (r.expect c) r.log.reports :=
  .ite (fun _ => .done rfl) fun _ => .fail

theorem recovers_expectAll (r : Reader) (word : List Char) :
    Recovers (r.expectAll word) (r.expectAll word) r.log.reports := by
  induction word generalizing r with
  | nil => exact .done rfl
  | cons c word ih => exact .bind (recovers_expect ..) fun next _ => ih next

theorem recovers_expectWord (r : Reader) (word : String) :
    Recovers (r.expectWord word) (r.expectWord word) r.log.reports :=
  recovers_expectAll ..

theorem recovers_requireBlanks (r : Reader) (place : BlankPlace) :
    Recovers (r.requireBlanks place) (r.requireBlanks place) r.log.reports :=
  .ite (fun _ => .done rfl) fun _ => .fail

theorem recovers_openQuote (r : Reader) (literal : Quoted) :
    Recovers (r.openQuote literal) (r.openQuote literal) r.log.reports := by
  unfold openQuote
  split
  · exact .done rfl
  · exact .done rfl
  · exact .fail

theorem recovers_quoted (r : Reader) : Recovers r.quoted r.quoted r.log.reports :=
  .bind (recovers_openQuote ..) fun _ _ => .bind (recovers_expect ..) fun _ _ => .done rfl

theorem recovers_pseudoValue (r : Reader) :
    Recovers r.pseudoValue r.pseudoValue r.log.reports :=
  .bind (recovers_expect ..) fun _ _ => recovers_quoted _

theorem recovers_version (r : Reader) : Recovers r.version r.version r.log.reports :=
  .bind (recovers_expectWord ..) fun _ _ => .bind (recovers_pseudoValue _) fun _ _ =>
    .ite (fun _ => .done rfl) fun _ => .fail

theorem recovers_encodingName (r : Reader) :
    Recovers r.encodingName r.encodingName r.log.reports :=
  .ite
    (fun _ => .ite
      (fun _ => .bind (recovers_expectWord ..) fun _ _ => .bind (recovers_pseudoValue _)
        fun _ _ => .ite (fun _ => .done rfl) fun _ => .fail)
      fun _ => .fail)
    fun _ => .done rfl

theorem recovers_standalone (r : Reader) :
    Recovers r.standalone r.standalone r.log.reports := by
  refine .ite (fun _ => .ite (fun _ => ?_) fun _ => .fail) fun _ => .done rfl
  refine .bind (recovers_expectWord ..) fun _ _ =>
    .bind (recovers_pseudoValue _) fun _ _ => ?_
  dsimp only
  split
  · exact .done rfl
  · exact .done rfl
  · exact .fail

theorem recovers_declaration (r : Reader) :
    Recovers r.declaration r.declaration r.log.reports :=
  .bind (recovers_expectWord ..) fun _ _ => .bind (recovers_requireBlanks ..) fun _ _ =>
    .bind (recovers_version _) fun _ _ => .bind (recovers_encodingName _) fun _ _ =>
      .bind (recovers_standalone _) fun _ _ => .bind (recovers_expectWord ..) fun _ _ =>
        .done rfl

theorem recovers_head (r : Reader) : Recovers r.head r.head r.log.reports :=
  .ite (fun _ => .bind (recovers_declaration _) fun _ _ => .done rfl) fun _ =>
    .ite (fun _ => .fail) fun _ => .done rfl

theorem recovers_numeral (r : Reader) (base : Nat) (digit : Char → Bool) :
    Recovers (r.numeral base digit) (r.numeral base digit) r.log.reports :=
  .ite (fun _ => .fail) fun _ => .ite (fun _ => .fail) fun _ =>
    .bind (recovers_expect ..) fun _ _ => .ite (fun _ => .done rfl) fun _ => .fail

theorem recovers_charReference (r : Reader) :
    Recovers r.charReference r.charReference r.log.reports :=
  .bind (recovers_expect ..) fun _ _ =>
    .ite (fun _ => recovers_numeral ..) fun _ => recovers_numeral ..

theorem recovers_externalId (r : Reader) : Recovers r.externalId r.externalId r.log.reports :=
  .ite
    (fun _ => .bind (recovers_requireBlanks ..) fun _ _ => .bind (recovers_quoted _)
      fun _ _ => .bind (recovers_requireBlanks ..) fun _ _ => .bind (recovers_quoted _)
        fun _ _ => .done rfl)
    fun _ => .ite
      (fun _ => .bind (recovers_requireBlanks ..) fun _ _ => .bind (recovers_quoted _)
        fun _ _ => .done rfl)
      fun _ => .done rfl

theorem recovers_parameterMark (r : Reader) :
    Recovers r.parameterMark r.parameterMark r.log.reports :=
  .ite (fun _ => .bind (recovers_requireBlanks ..) fun _ _ => .done rfl) fun _ => .done rfl

theorem recovers_tagEnd (r : Reader) : Recovers r.tagEnd r.tagEnd r.log.reports :=
  .ite (fun _ => .done rfl) fun _ => .ite (fun _ => .done rfl) fun _ => .fail

theorem recovers_declarationTail (r : Reader) :
    Recovers r.declarationTail r.declarationTail r.log.reports := by
  fun_induction declarationTail r with
  | case1 => exact .fail
  | case2 => exact .done rfl
  | case3 => exact .fail
  | case4 r c tail more notEnd quote literal next read ih =>
    exact ⟨id, fun found => ((recovers_quoted _).grown read).trans (ih.grown found),
      fun found _ => found⟩
  | case5 r c tail more notEnd noQuote ih => exact ih

/-! ## Single characters and names -/

theorem recovers_report (r : Reader) (options : ParseOptions) (problem : Problem) :
    Recovers (r.report options.strict problem) (r.report options.recovering problem)
      r.log.reports :=
  .reported rfl

theorem recovers_char (r : Reader) (options : ParseOptions) :
    Recovers (r.char options.strict) (r.char options.recovering) r.log.reports := by
  unfold char
  split
  · exact .fail
  · exact .done rfl
  · exact .done rfl
  · exact .ite (fun _ => .done rfl) fun _ => .bind (recovers_report ..) fun _ _ => .done rfl

theorem recovers_name (r : Reader) (options : ParseOptions) :
    Recovers (r.name options.strict) (r.name options.recovering) r.log.reports := by
  unfold name
  split
  · exact .fail
  · exact .ite (fun _ => .ite (fun _ => .fail) fun _ => .done rfl) fun _ => .fail

/-! ## Constructs that run up to a delimiter -/

theorem upTo_eq {options : ParseOptions} {close : String} {within : Construct} {r : Reader}
    {content : List Char} :
    r.upTo options close within content =
      if r.atEnd then r.fail (.endOfText (some within))
      else if r.startsWith close then .ok (content, r.skip close.length)
      else r.char options >>= fun read => read.2.upTo options close within (read.1 :: content) := by
  rw [upTo]
  split
  · rfl
  · split
    · rfl
    · split <;> rename_i read <;> rw [read] <;> rfl

theorem recovers_upTo (options : ParseOptions) (close : String) (within : Construct) (r : Reader)
    (content : List Char) :
    Recovers (r.upTo options.strict close within content)
      (r.upTo options.recovering close within content) r.log.reports := by
  rw [upTo_eq, upTo_eq]
  exact .ite (fun _ => .fail) fun _ => .ite (fun _ => .done rfl) fun _ =>
    .bind (recovers_char ..) fun read found => recovers_upTo options close within read.2 _
  termination_by r.rest.length
  decreasing_by exact length_lt_of_char found

theorem commentText_eq {options : ParseOptions} {r : Reader} {content : List Char} :
    r.commentText options content =
      match r.rest with
      | [] => r.fail (.endOfText (some .comment))
      | '-' :: '-' :: '>' :: _ => .ok (content, r.skip 3)
      | '-' :: '-' :: _ => r.report options .doubleHyphen >>= fun next =>
          (next.skip 2).commentText options ('-' :: '-' :: content)
      | _ => r.char options >>= fun read => read.2.commentText options (read.1 :: content) := by
  rw [commentText]
  split
  · simp only [*]
  · simp only [*]
  · split <;> rename_i noted <;> simp only [*] <;> rfl
  · split <;> rename_i read <;> simp only [*] <;> rfl

theorem recovers_commentText (options : ParseOptions) (r : Reader) (content : List Char) :
    Recovers (r.commentText options.strict content) (r.commentText options.recovering content)
      r.log.reports := by
  rw [commentText_eq, commentText_eq]
  split
  · exact .fail
  · exact .done rfl
  · rename_i more
    refine .bind (recovers_report ..) fun next noted => ?_
    have shorter : (next.skip 2).rest.length < r.rest.length := by
      rw [← rest_report noted]
      exact length_skip_lt (by decide) (by simp [rest_report noted, more])
    exact recovers_commentText options (next.skip 2) _
  · exact .bind (recovers_char ..) fun read found => recovers_commentText options read.2 _
  termination_by r.rest.length
  decreasing_by
    · exact shorter
    · exact length_lt_of_char found

theorem recovers_comment (r : Reader) (options : ParseOptions) :
    Recovers (r.comment options.strict) (r.comment options.recovering) r.log.reports :=
  .bind (recovers_expectWord ..) fun _ _ => .bind (recovers_commentText ..) fun _ _ =>
    .done rfl

theorem recovers_cdataSection (r : Reader) (options : ParseOptions) :
    Recovers (r.cdataSection options.strict) (r.cdataSection options.recovering) r.log.reports :=
  .bind (recovers_expectWord ..) fun _ _ => .bind (recovers_upTo ..) fun _ _ => .done rfl

theorem recovers_instruction (r : Reader) (options : ParseOptions) :
    Recovers (r.instruction options.strict) (r.instruction options.recovering) r.log.reports :=
  .bind (recovers_expectWord ..) fun _ _ => .bind (recovers_name ..) fun _ _ =>
    .ite (fun _ => .fail) fun _ => .ite
      (fun _ => .bind (recovers_upTo ..) fun _ _ => .done rfl)
      fun _ => .bind (recovers_expectWord ..) fun _ _ => .done rfl

/-! ## References and quoted values -/

/-- An unknown entity is the one place where a recovering reading goes on with a warning. -/
theorem recovers_resolve (r : Reader) (cx : Context) (entity : String) :
    Recovers (r.resolve cx.strict entity) (r.resolve cx.recovering entity) r.log.reports := by
  unfold resolve
  split
  · exact .done rfl
  · dsimp only [Context.strict, Context.recovering, ParseOptions.strict, ParseOptions.recovering]
    split
    · exact .ite (fun _ => .fail) fun _ => .ite (fun _ => .fail) fun _ => .done rfl
    · refine .ite (fun _ => .fail) fun _ => ?_
      by_cases missing : cx.entities.incomplete
      · simp only [missing, Bool.or_true, if_true]
        exact .pure (List.suffix_cons ..)
      · simp only [missing, Bool.or_false, Bool.false_eq_true, if_true, if_false]
        exact .reported rfl

theorem recovers_reference (r : Reader) (cx : Context) :
    Recovers (r.reference cx.strict) (r.reference cx.recovering) r.log.reports :=
  .bind (recovers_expect ..) fun _ _ => .ite
    (fun _ => .bind (recovers_charReference _) fun _ _ => .done rfl)
    fun _ => .bind (recovers_name ..) fun _ _ => .bind (recovers_expect ..) fun _ _ =>
      recovers_resolve ..

theorem attributeText_eq {cx : Context} {quote : Option Char} {r : Reader} {value : List Char} :
    r.attributeText cx quote value =
      match r.rest with
      | [] => if quote.isSome then r.fail (.endOfText (some .attributeValue)) else .ok (value, r)
      | c :: _ =>
        if quote == some c then .ok (value, r.skip 1)
        else if c == '<' && quote.isSome then r.fail .lessThanInAttribute
        else if c == '&' then
          r.reference cx >>= fun found =>
            match found with
            | (.text content, next) => next.attributeText cx quote (content.reverse ++ value)
            | (.entity entity replacement, next) =>
              if replacement.toList.contains '<' then next.fail (.entityBringsLessThan entity)
              else
                (next.enter replacement).attributeText (cx.opening entity) none value >>=
                  fun inside => (next.resume inside.2).attributeText cx quote inside.1
        else r.char cx.options >>= fun read =>
          read.2.attributeText cx quote (attributeChar read.1 :: value) := by
  rw [attributeText]
  cases r.rest with
  | nil => rfl
  | cons c rest =>
    dsimp only
    congr 3
    · split <;> rename_i found <;> simp only [found, bind, Except.bind]
      congr 1
      split <;> rename_i inside <;> rw [inside]
    · split <;> rename_i read <;> rw [read] <;> rfl

theorem recovers_attributeText (cx : Context) (quote : Option Char) (r : Reader)
    (value : List Char) :
    Recovers (r.attributeText cx.strict quote value) (r.attributeText cx.recovering quote value)
      r.log.reports := by
  rw [attributeText_eq, attributeText_eq]
  split
  · exact .ite (fun _ => .fail) fun _ => .done rfl
  · refine .ite (fun _ => .done rfl) fun _ => .ite (fun _ => .fail) fun _ => .ite (fun _ => ?_)
      fun _ => .bind (recovers_char ..) fun read found => recovers_attributeText cx quote read.2 _
    refine .bind (recovers_reference ..) fun found read => ?_
    rcases found with ⟨content | ⟨entity, replacement⟩, next⟩
    · exact recovers_attributeText cx quote next _
    · refine .ite (fun _ => .fail) fun _ => .bind
        (recovers_attributeText (cx.opening entity) none (next.enter replacement) value)
        fun inside _ => recovers_attributeText cx quote (next.resume inside.2) _
  termination_by (cx.unopened, r.rest.length)
  decreasing_by
    · exact .right _ (length_lt_of_reference read)
    · have opens : (cx.recovering.opening entity).unopened < cx.recovering.unopened :=
        unopened_lt_of_reference read
      exact .left _ _ opens
    · exact .right _ (by simpa using length_lt_of_reference read)
    · exact .right _ (length_lt_of_char found)

theorem recovers_attributeValue (r : Reader) (cx : Context) :
    Recovers (r.attributeValue cx.strict) (r.attributeValue cx.recovering) r.log.reports :=
  .bind (recovers_openQuote ..) fun _ _ => .bind (recovers_attributeText ..) fun _ _ =>
    .done rfl

theorem entityText_eq {options : ParseOptions} {quote : Char} {r : Reader} {value : List Char} :
    r.entityText options quote value =
      match r.rest with
      | [] => r.fail (.endOfText (some .entityValue))
      | c :: tail =>
        if c == quote then .ok (value, r.skip 1)
        else if c == '%' then r.fail .parameterReference
        else if c == '&' && tail.head? == some '#' then
          (r.skip 1).charReference >>= fun read =>
            read.2.entityText options quote (read.1 :: value)
        else if c == '&' then
          (r.skip 1).name options >>= fun named => named.2.expect ';' >>= fun next =>
            next.entityText options quote (';' :: named.1.toList.reverse ++ '&' :: value)
        else r.char options >>= fun read =>
          read.2.entityText options quote (read.1 :: value) := by
  rw [entityText]
  cases r.rest with
  | nil => rfl
  | cons c rest =>
    dsimp only
    congr 3
    · split <;> rename_i read <;> rw [read] <;> rfl
    · congr 1
      · split <;> rename_i named <;> simp only [named, bind, Except.bind]
        split <;> rename_i ended <;> rw [ended]
      · split <;> rename_i read <;> rw [read] <;> rfl

theorem recovers_entityText (options : ParseOptions) (quote : Char) (r : Reader)
    (value : List Char) :
    Recovers (r.entityText options.strict quote value) (r.entityText options.recovering quote value)
      r.log.reports := by
  rw [entityText_eq, entityText_eq]
  split
  · exact .fail
  · rename_i more
    have shorter : (r.skip 1).rest.length < r.rest.length :=
      length_skip_lt (by decide) (by simp [more])
    exact .ite (fun _ => .done rfl) fun _ => .ite (fun _ => .fail) fun _ => .ite
      (fun _ => .bind (recovers_charReference _) fun read found =>
        recovers_entityText options quote read.2 _)
      fun _ => .ite
        (fun _ => .bind (recovers_name ..) fun named found => .bind (recovers_expect ..)
          fun next ended => recovers_entityText options quote next _)
        fun _ => .bind (recovers_char ..) fun read found =>
          recovers_entityText options quote read.2 _
  termination_by r.rest.length
  decreasing_by
    · exact Nat.lt_of_le_of_lt (length_le_of_charReference found) shorter
    · exact Nat.lt_trans (length_lt_of_expect ended) <|
        Nat.lt_trans (length_lt_of_name found) shorter
    · exact length_lt_of_char found

theorem recovers_entityValue (r : Reader) (options : ParseOptions) :
    Recovers (r.entityValue options.strict) (r.entityValue options.recovering) r.log.reports :=
  .bind (recovers_openQuote ..) fun _ _ => .bind (recovers_entityText ..) fun _ _ =>
    .done rfl

end Reader
end Markup.Xml
