import Markup.Proofs.Xml.Relay

/-!
# The prolog with another end of the document

What stands before the root element is read alike in two documents that go on differently after a
tag: each step up to the root element only needs that some tag ends in what is common.
-/

namespace Markup.Xml

open Reaching (reached)
open Relaying (onto)

namespace Sight

variable {tail tail' : List Char} {r r' : Reader}

theorem seesDeclaration (sight : Sight tail tail' .ending r r') :
    r'.seesDeclaration = r.seesDeclaration := by
  have begins : r'.startsWith "<?xml" = r.startsWith "<?xml" := sight.startsWith (by decide)
  obtain same | ⟨text, rest, rest', met⟩ := sight
  · rw [Reader.seesDeclaration, Reader.seesDeclaration, Reader.startsWith, Reader.startsWith, same]
  · rw [Reader.seesDeclaration, Reader.seesDeclaration, begins]
    cases spelled : r.startsWith "<?xml" with
    | false => rfl
    | true =>
      -- The sign that ends a tag stands behind the word.
      have longer : 5 < text.length := by
        rw [Reader.startsWith_iff, rest] at spelled
        by_contra short
        have inside : text <+: "<?xml".toList :=
          List.prefix_of_prefix_length_le (List.prefix_append ..) spelled (Nat.not_lt.mp short)
        exact absurd (inside.subset met) (by decide)
      rw [rest, rest', List.getElem?_append_left longer, List.getElem?_append_left longer]

end Sight

/-- A choice by a word after blanks. -/
theorem Carries.iteNext {α : Type} [Reaching α] [Relaying α] {tail tail' : List Char}
    {needs takes : Demand} {r : Reader} {step other : Except ParseFailure α}
    {step' other' : Reader → Except ParseFailure α} {word : String}
    (inner : '>' ∉ word.toList.dropLast)
    (yes : r.skipBlanks.startsWith word = true → Carries tail tail' needs takes r step step')
    (no : r.skipBlanks.startsWith word = false → Carries tail tail' needs takes r other other')
    [Enough tail tail' .ending takes needs] :
    Carries tail tail' needs takes r (if r.skipBlanks.startsWith word then step else other)
      fun r' => if r'.skipBlanks.startsWith word then step' r' else other' r' :=
  .ite .ending (fun _ sight => sight.skipBlanks.startsWith inner) yes no

namespace Reader

variable {tail tail' : List Char} {r next : Reader} {options : ParseOptions} {noBlanks : Bool}

/-! ## The declaration -/

theorem carries_pseudoValue (r : Reader) :
    Carries tail tail' .nothing .character r r.pseudoValue fun r' => r'.pseudoValue :=
  .bind .character (.pastBlanks (carries_expect ..)) fun _ _ => .pastBlanks (carries_quoted _)

theorem carries_version (r : Reader) :
    Carries tail tail' .nothing .character r r.version fun r' => r'.version :=
  .bind .character (carries_expectWord ..) fun _ _ => .bind .nothing (carries_pseudoValue _)
    fun _ _ => .iteSame (fun _ => .done rfl) fun _ => .fail

theorem carries_encodingName (r : Reader) :
    Carries tail tail' .ending .nothing r r.encodingName fun r' => r'.encodingName := by
  refine .iteNext (by decide) (fun _ => .iteSeesBlank (fun _ => ?_) fun _ => .fail)
    fun _ => .done rfl
  have word : Carries tail tail' .nothing .character r (r.skipBlanks.expectWord "encoding")
      fun r' => r'.skipBlanks.expectWord "encoding" :=
    .pastBlanks (carries_expectAll_of_met (by decide) _)
  exact .bind .character word fun _ _ => .bind .nothing (carries_pseudoValue _) fun _ _ =>
    .iteSame (fun _ => .done rfl) fun _ => .fail

theorem carries_standalone (r : Reader) :
    Carries tail tail' .ending .nothing r r.standalone fun r' => r'.standalone := by
  refine .iteNext (by decide) (fun _ => .iteSeesBlank (fun _ => ?_) fun _ => .fail)
    fun _ => .done rfl
  have word : Carries tail tail' .nothing .character r (r.skipBlanks.expectWord "standalone")
      fun r' => r'.skipBlanks.expectWord "standalone" :=
    .pastBlanks (carries_expectAll_of_met (by decide) _)
  refine .bind .character word fun _ _ => .bind .nothing (carries_pseudoValue _)
    fun read _ => ?_
  obtain ⟨value, next⟩ := read
  by_cases yes : value = "yes"
  · subst yes
    exact .done rfl
  · by_cases no : value = "no"
    · subst no
      exact .done rfl
    · refine .never fun a found => ?_
      dsimp only at found
      split at found
      · exact yes rfl
      · exact no rfl
      · exact absurd found not_fail

theorem carries_declaration (r : Reader) :
    Carries tail tail' .ending .nothing r r.declaration fun r' => r'.declaration := by
  have word : ∀ r : Reader, Carries tail tail' .nothing .character r (r.skipBlanks.expectWord "?>")
      fun r' => r'.skipBlanks.expectWord "?>" :=
    fun r => .pastBlanks (carries_expectAll_of_met (by decide) _)
  exact .bind .nothing (carries_expectWord ..) fun _ _ => .bind .nothing (carries_requireBlanks ..)
    fun _ _ => .bind .nothing (carries_version _) fun _ _ =>
    .bind .nothing (carries_encodingName _) fun _ _ =>
    .bind .nothing (carries_standalone _) fun _ _ => .bind .nothing (word _) fun _ _ =>
    .done rfl

theorem carries_head (r : Reader) :
    Carries tail tail' .ending .nothing r r.head fun r' => r'.head := by
  refine .ite .ending (fun _ sight => sight.seesDeclaration)
    (fun _ => .bind .nothing (carries_declaration _) fun _ _ => .done rfl) fun _ =>
    .ite .ending (fun r' sight => ?_) (fun _ => .fail) fun _ => .pastBlanks (.done rfl)
  rw [sight.seesBlank (by decide), sight.skipBlanks.seesDeclaration]

/-! ## The document type declaration -/

theorem carries_externalId (r : Reader) :
    Carries tail tail' .ending .nothing r r.externalId fun r' => r'.externalId := by
  have past : ∀ {word : String}, r.startsWith word = true → word.toList.length = 6 →
      Carries tail tail' .character .nothing r ((r.skip 6).requireBlanks .anywhere)
        fun r' => (r'.skip 6).requireBlanks .anywhere := by
    intro word begins six
    obtain ⟨rest, spelled⟩ := startsWith_iff.mp begins
    have within : 6 ≤ r.rest.length := by simp [← spelled, ← six]
    exact (carries_requireBlanks ..).past within (.inl (Nat.le_refl _))
  refine .iteStartsWith (by decide) (fun begins => ?_) fun _ =>
    .iteStartsWith (by decide) (fun begins => ?_) fun _ => .done rfl
  · exact .bind .character (past begins rfl) fun _ _ => .bind .character (carries_quoted _)
      fun _ _ => .bind .character (carries_requireBlanks ..) fun _ _ =>
      .bind .nothing (carries_quoted _) fun _ _ => .done rfl
  · exact .bind .character (past begins rfl) fun _ _ => .bind .nothing (carries_quoted _)
      fun _ _ => .done rfl

theorem carries_entityDefinition (r : Reader) (options : ParseOptions) :
    Carries tail tail' .ending .nothing r (r.entityDefinition options)
      fun r' => r'.entityDefinition (options.withBlanks noBlanks) :=
  .bind .nothing (carries_externalId _) fun _ _ => .iteSame (fun _ => .done rfl)
    fun _ => .bind .nothing (carries_entityValue ..) fun _ _ => .done rfl

theorem carries_unparsedMark (r : Reader) (options : ParseOptions) (allowed : Bool) :
    Carries tail tail' .ending .nothing r (r.unparsedMark options allowed)
      fun r' => r'.unparsedMark (options.withBlanks noBlanks) allowed := by
  refine .iteNext (by decide) (fun begins => .iteSame (fun _ => .fail) fun _ => ?_)
    fun _ => .pastBlanks (.done rfl)
  refine .ite .character (fun _ sight => by rw [sight.seesBlank (Nat.le_refl _)]) (fun _ => .fail)
    fun _ => ?_
  obtain ⟨rest, spelled⟩ := startsWith_iff.mp begins
  have within : 5 ≤ r.skipBlanks.rest.length := by simp [← spelled]
  have past : Carries tail tail' .character .nothing r.skipBlanks
      ((r.skipBlanks.skip 5).requireBlanks .anywhere)
      fun r' => (r'.skip 5).requireBlanks .anywhere :=
    (carries_requireBlanks ..).past within (.inl (Nat.le_refl _))
  exact .bind .nothing past.pastBlanks fun _ _ => .bind .nothing (carries_name ..) fun _ _ =>
    .pastBlanks (.done rfl)

theorem carries_parameterMark (r : Reader) :
    Carries tail tail' .character .nothing r r.parameterMark fun r' => r'.parameterMark := by
  refine .iteSees (fun seen => ?_) fun _ => .done rfl
  obtain ⟨rest, spelled⟩ := List.head?_eq_some_iff.mp (beq_iff_eq.mp seen)
  have past : Carries tail tail' .character .nothing r ((r.skip 1).requireBlanks .anywhere)
      fun r' => (r'.skip 1).requireBlanks .anywhere :=
    (carries_requireBlanks ..).past (by simp [spelled]) (.inl (Nat.le_refl _))
  exact .bind .nothing past fun _ _ => .done rfl

theorem carries_entityName (r : Reader) (options : ParseOptions) :
    Carries tail tail' .character .character r (r.entityName options)
      fun r' => r'.entityName (options.withBlanks noBlanks) :=
  .bind .nothing (carries_name ..) fun _ _ => .iteSame
    (fun _ => .bind .nothing (carries_report ..) fun _ _ => .done rfl) fun _ => .done rfl

theorem carries_entityDeclaration (r : Reader) (options : ParseOptions) (table : EntityTable) :
    Carries tail tail' .nothing .ending r (r.entityDeclaration options table)
      fun r' => r'.entityDeclaration (options.withBlanks noBlanks) table := by
  refine .bind .ending (carries_expectWord ..) fun _ _ => .bind .ending (carries_requireBlanks ..)
    fun _ _ => .bind .ending (carries_parameterMark _) fun mark _ =>
    .bind .ending (carries_entityName ..) fun _ _ => .bind .ending (carries_requireBlanks ..)
    fun _ _ => .bind .ending (carries_entityDefinition ..) fun defined _ =>
    .bind .ending (carries_unparsedMark ..) fun _ _ => .bind .nothing (carries_expect_end _)
    fun _ _ => ?_
  obtain ⟨parameter, _⟩ := mark
  obtain ⟨replacement, _⟩ := defined
  cases parameter with
  | true => exact .done rfl
  | false => cases replacement <;> exact .done rfl

theorem declarationTail_eq_ite :
    r.declarationTail =
      if r.atEnd then r.fail (.endOfText (some .doctype))
      else if r.sees '>' then .ok (r.skip 1)
      else if r.sees '"' || r.sees '\'' then r.quoted >>= fun read => read.2.declarationTail
      else (r.skip 1).declarationTail := by
  rw [declarationTail]
  cases spelled : r.rest with
  | nil => simp [atEnd, spelled]
  | cons c rest =>
    have seen : ∀ d, r.sees d = (c == d) := fun d => by simp [sees, spelled]
    simp only [atEnd, spelled, seen, List.isEmpty_cons, Bool.false_eq_true, ↓reduceIte]
    congr 2
    split <;> rename_i read <;> rw [read] <;> rfl

theorem carries_declarationTail (r : Reader) :
    Carries tail tail' .nothing .ending r r.declarationTail fun r' => r'.declarationTail := by
  refine .congr declarationTail_eq_ite (fun _ => declarationTail_eq_ite) ?_
  refine .iteAtEnd (fun _ => .fail) fun more => .iteSees (fun ends => ?_) fun _ =>
    .ite .character (fun _ sight => by rw [sight.sees (Nat.le_refl _), sight.sees (Nat.le_refl _)])
    (fun _ => ?_) fun _ => ?_
  · obtain ⟨rest, spelled⟩ := List.head?_eq_some_iff.mp (beq_iff_eq.mp ends)
    exact .skipped rfl (by simp [spelled]) (by simp [spelled, Demand.Met])
  · exact .bind .ending (carries_quoted _) fun read found => carries_declarationTail read.2
  · obtain ⟨c, rest, spelled⟩ := List.exists_cons_of_ne_nil
      (show r.rest ≠ [] by simpa [atEnd] using more)
    have shorter : (r.skip 1).rest.length < r.rest.length :=
      length_skip_lt (by decide) (by simp [spelled])
    exact (carries_declarationTail (r.skip 1)).past (by simp [spelled]) (.inl (Nat.le_refl _))
  termination_by r.rest.length
  decreasing_by
    · exact length_lt_of_quoted found
    · exact shorter

theorem carries_subsetItem (r : Reader) (options : ParseOptions) (table : EntityTable) :
    Carries tail tail' .ending .character r (r.subsetItem options table)
      fun r' => r'.subsetItem (options.withBlanks noBlanks) table := by
  refine .iteSees (fun seen => ?_) fun _ => .iteStartsWith (by decide) (fun _ => ?_) fun _ =>
    .iteStartsWith (by decide) (fun _ => ?_) fun _ => .iteStartsWith (by decide) (fun _ => ?_)
    fun _ => .iteStartsWith (by decide) (fun _ => ?_) fun _ => .fail
  · obtain ⟨rest, spelled⟩ := List.head?_eq_some_iff.mp (beq_iff_eq.mp seen)
    have past : Carries tail tail' .character .character r ((r.skip 1).name options)
        fun r' => (r'.skip 1).name (options.withBlanks noBlanks) :=
      (carries_name ..).past (by simp [spelled]) (.inl (Nat.le_refl _))
    exact .bind .character past fun _ _ => .bind .nothing (carries_expect ..) fun _ _ =>
      .done rfl
  · exact (carries_entityDeclaration ..).mono (by decide) (by decide)
  · exact .bind .nothing (carries_comment ..) fun _ _ => .done rfl
  · exact .bind .nothing (carries_instruction ..) fun _ _ => .done rfl
  · exact .bind .ending (carries_expectWord ..) fun _ _ => .bind .nothing
      (carries_declarationTail _) fun _ _ => .done rfl

theorem carries_internalSubset (options : ParseOptions) (r : Reader) (table : EntityTable) :
    Carries tail tail' .ending .character r (internalSubset options r table)
      fun r' => internalSubset (options.withBlanks noBlanks) r' table := by
  refine .congr internalSubset_eq (fun _ => internalSubset_eq) ?_
  have inside : Carries tail tail' .ending .character r.skipBlanks
      (if r.skipBlanks.atEnd then r.skipBlanks.fail (.endOfText (some .doctype))
        else if r.skipBlanks.sees ']' then .ok (table, r.skipBlanks.skip 1)
        else r.skipBlanks.subsetItem options table >>= fun read =>
          internalSubset options read.2 read.1)
      fun r' => if r'.atEnd then r'.fail (.endOfText (some .doctype))
        else if r'.sees ']' then .ok (table, r'.skip 1)
        else r'.subsetItem (options.withBlanks noBlanks) table >>= fun read =>
          internalSubset (options.withBlanks noBlanks) read.2 read.1 := by
    refine .iteAtEnd (fun _ => .fail) fun _ => .iteSees (fun closed => ?_) fun _ => ?_
    · obtain ⟨rest, spelled⟩ := List.head?_eq_some_iff.mp (beq_iff_eq.mp closed)
      exact .skipped rfl (by rw [spelled]; exact Nat.succ_pos _)
        (by rw [spelled]; exact List.cons_ne_nil _ _)
    · exact .bind .character (carries_subsetItem ..) fun read found =>
        carries_internalSubset options read.2 read.1
  exact inside.pastBlanks
  termination_by r.rest.length
  decreasing_by exact Nat.lt_of_lt_of_le (length_lt_of_subsetItem found) (length_skipBlanks_le r)

/-- The end of a document type declaration, from its internal subset on. -/
def doctypeEnd (r : Reader) (options : ParseOptions) (type : Doctype) (table : EntityTable) :
    Except ParseFailure ((Doctype × EntityTable) × Reader) :=
  if r.sees '[' then
    internalSubset options (r.skip 1) table >>= fun read =>
      read.2.skipBlanks.expect '>' >>= fun r => pure ((type, read.1), r)
  else r.expect '>' >>= fun r => pure ((type, table), r)

theorem carries_doctypeEnd (r : Reader) (options : ParseOptions) (type : Doctype)
    (table : EntityTable) :
    Carries tail tail' .ending .ending r (r.doctypeEnd options type table)
      fun r' => r'.doctypeEnd (options.withBlanks noBlanks) type table := by
  refine .iteSees (fun seen => ?_) fun _ => .bind .nothing (carries_expect_end _) fun _ _ =>
    .done rfl
  obtain ⟨rest, spelled⟩ := List.head?_eq_some_iff.mp (beq_iff_eq.mp seen)
  have past : Carries tail tail' .ending .character r (internalSubset options (r.skip 1) table)
      fun r' => internalSubset (options.withBlanks noBlanks) (r'.skip 1) table :=
    (carries_internalSubset ..).past (by simp [spelled]) (.inl (Nat.le_refl _))
  refine .bind .ending past fun read _ => ?_
  simp only [onto_pair, onto_reader]
  exact .bind .nothing (Carries.pastBlanks (carries_expect_end _)) fun _ _ => .done rfl

theorem carries_doctype (r : Reader) (options : ParseOptions) :
    Carries tail tail' .ending .ending r (r.doctype options)
      fun r' => r'.doctype (options.withBlanks noBlanks) := by
  refine .bind .ending (carries_expectWord ..) fun _ _ => .bind .ending (carries_requireBlanks ..)
    fun _ _ => .bind .ending (carries_name ..) fun _ _ => .bind .ending
    (.pastBlanks (carries_externalId _)) fun _ _ => ?_
  exact (carries_doctypeEnd _ options ..).pastBlanks

theorem carries_misc (options : ParseOptions) (r : Reader) (before : List Draft) :
    Carries tail tail' .ending .nothing r (misc options r before)
      fun r' => misc (options.withBlanks noBlanks) r' before := by
  refine .congr misc_eq (fun _ => misc_eq) ?_
  refine .iteNext (by decide) (fun _ => ?_) fun _ => .iteNext (by decide) (fun _ => ?_)
    fun _ => .pastBlanks (.done rfl)
  · refine .bind .nothing (.pastBlanks (carries_comment ..)) fun read found => ?_
    exact carries_misc options read.2 _
  · refine .bind .nothing (.pastBlanks (carries_instruction ..)) fun read found => ?_
    exact carries_misc options read.2 _
  termination_by r.rest.length
  decreasing_by
    · exact Nat.lt_of_lt_of_le (length_lt_of_comment found) (length_skipBlanks_le r)
    · exact Nat.lt_of_lt_of_le (length_lt_of_instruction found) (length_skipBlanks_le r)

theorem carries_typeDeclaration (r : Reader) (options : ParseOptions) (before : List Draft) :
    Carries tail tail' .ending .nothing r (r.typeDeclaration options before)
      fun r' => r'.typeDeclaration (options.withBlanks noBlanks) before :=
  .iteStartsWith (by decide)
    (fun _ => .bind .nothing (carries_doctype ..) fun _ _ => .bind .nothing
      (carries_misc ..) fun _ _ => .done rfl)
    fun _ => .done rfl

end Reader
end Markup.Xml
