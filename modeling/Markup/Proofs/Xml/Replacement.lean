import Markup.Proofs.Xml.Passage

/-!
# How long replacement texts are

The replacement text of an entity is read where the entity is declared. No more bytes stand for it
there than it has, so that it is no longer than the text that was left before its declaration.
-/

namespace Markup.Xml

open Reaching (reached)

/-- Every replacement text is at most so long. -/
def EntityTable.Within (table : EntityTable) (bound : Nat) : Prop :=
  ∀ entry ∈ table.internal, Text.byteLength entry.2.toList ≤ bound

namespace EntityTable.Within

variable {table : EntityTable} {bound : Nat}

theorem declareInternal (within : table.Within bound) (entity : String) {replacement : String}
    (short : Text.byteLength replacement.toList ≤ bound) :
    (table.declareInternal entity replacement).Within bound := by
  unfold EntityTable.declareInternal
  split
  · exact within
  · exact List.forall_mem_cons.mpr ⟨short, within⟩

theorem declareExternal (within : table.Within bound) (entity : String) :
    (table.declareExternal entity).Within bound := by
  unfold EntityTable.declareExternal
  split
  · exact within
  · exact within

end EntityTable.Within

namespace Reader

variable {r next : Reader} {options : ParseOptions} {table before : EntityTable} {bound : Nat}

theorem passes_externalId (r : Reader) : Passes r r.externalId :=
  .ite
    (fun _ => .bind ((passes_requireBlanks ..).later rfl (remaining_skip_le ..)) fun _ _ =>
      .bind (passes_quoted _) fun ⟨_, _⟩ _ => .bind (passes_requireBlanks ..) fun _ _ =>
        .bind (passes_quoted _) fun ⟨_, _⟩ _ => .stay rfl)
    fun _ => .ite
      (fun _ => .bind ((passes_requireBlanks ..).later rfl (remaining_skip_le ..)) fun _ _ =>
        .bind (passes_quoted _) fun ⟨_, _⟩ _ => .stay rfl)
      fun _ => .stay rfl

/-- Character references are expanded in replacement text, all else is kept. -/
theorem of_entityText {quote : Char} {earlier value : List Char}
    (h : r.entityText options quote earlier = .ok (value, next)) :
    next.log.expansions = r.log.expansions ∧
      Text.byteLength value + next.remaining ≤ Text.byteLength earlier + r.remaining := by
  fun_induction entityText options quote r earlier with
  | case1 | case3 => exact absurd h not_fail
  | case2 =>
    cases h
    exact ⟨rfl, Nat.add_le_add_left (remaining_skip_le ..) _⟩
  | case4 | case6 | case7 | case9 => cases h
  | case5 r earlier d tail spelled _ _ amp c middle read ih =>
    obtain ⟨same, taken⟩ := ih h
    have same' := (takes_charReference ..).same read
    have taken' := (takes_charReference ..).taken read
    have first := remaining_skip_cons spelled
    have positive := d.utf8Size_pos
    have short := c.utf8Size_le_four
    simp only [reached_reader, reached_pair] at same' taken'
    rw [Text.byteLength_cons] at taken
    exact ⟨same.trans same', by omega⟩
  | case8 r earlier d tail spelled _ _ _ amp entity second named third ended ih =>
    obtain ⟨same, taken⟩ := ih h
    have same' := (takes_name ..).same named
    have taken' := (takes_name ..).taken named
    have same'' := (takes_expect ..).same ended
    have taken'' := (takes_expect ..).taken ended
    have first := remaining_skip_cons spelled
    have positive := d.utf8Size_pos
    have sizes : ';'.utf8Size = 1 ∧ '&'.utf8Size = 1 := by decide
    simp only [reached_reader, reached_pair] at same' taken' same'' taken''
    simp only [List.cons_append, Text.byteLength_cons, Text.byteLength_append,
      byteLength_reverse] at taken
    exact ⟨same.trans (same''.trans same'), by omega⟩
  | case10 r earlier d tail spelled _ _ _ _ c middle read ih =>
    obtain ⟨same, taken⟩ := ih h
    have same' := (takes_char ..).same read
    have taken' := (takes_char ..).taken read
    simp only [reached_reader, reached_pair] at same' taken'
    rw [Text.byteLength_cons] at taken
    exact ⟨same.trans same', by omega⟩

theorem takes_entityValue (r : Reader) (options : ParseOptions) :
    Takes r (r.entityValue options) fun read => Text.byteLength read.1.toList := by
  refine .add (fun read => Text.byteLength read.1.toList) (takes_openQuote ..)
    (fun ⟨_, _⟩ _ => ?_) fun _ _ _ => Nat.le_add_left ..
  refine .add (fun _ => 0) (takes_reversed fun _ _ => of_entityText) (fun _ _ => .stay rfl)
    fun _ _ h => ?_
  cases h
  exact Nat.le_refl _

theorem takes_entityDefinition (r : Reader) (options : ParseOptions) :
    Takes r (r.entityDefinition options) fun read =>
      (read.1.map fun replacement => Text.byteLength replacement.toList).getD 0 := by
  refine .add
    (fun read => (read.1.map fun replacement => Text.byteLength replacement.toList).getD 0)
    (passes_externalId r) (fun ⟨⟨_, _⟩, _⟩ _ => ?_) fun _ _ _ => Nat.le_add_left ..
  refine .ite (fun _ => .done rfl (by simp)) fun _ => ?_
  refine .add (fun _ => 0) (takes_entityValue ..) (fun _ _ => .stay rfl) fun _ _ h => ?_
  cases h
  exact Nat.le_refl _

theorem passes_unparsedMark (r : Reader) (options : ParseOptions) (allowed : Bool) :
    Passes r (r.unparsedMark options allowed) := by
  refine .ite (fun _ => .ite (fun _ => .fail) fun _ => .ite (fun _ => .fail) fun _ => ?_) fun _ =>
    .pass rfl r.remaining_skipBlanks_le
  refine .bind ((passes_requireBlanks ..).later rfl ?_) fun _ _ => .bind (takes_name ..)
    fun ⟨_, r₂⟩ _ => .pass rfl r₂.remaining_skipBlanks_le
  exact Nat.le_trans (remaining_skip_le ..) (remaining_skipBlanks_le _)

theorem passes_parameterMark (r : Reader) : Passes r r.parameterMark :=
  .ite (fun _ => .bind ((passes_requireBlanks ..).later rfl (remaining_skip_le ..)) fun _ _ =>
    .stay rfl) fun _ => .stay rfl

theorem passes_entityName (r : Reader) (options : ParseOptions) :
    Passes r (r.entityName options) :=
  .bind (takes_name ..) fun ⟨_, _⟩ _ => .ite
    (fun _ => .bind (passes_report ..) fun _ _ => .stay rfl) fun _ => .stay rfl

theorem passes_entityDeclaration (r : Reader) (options : ParseOptions) (table : EntityTable) :
    Passes r (r.entityDeclaration options table) := by
  refine .bind (takes_expectWord ..) fun _ _ => .bind (passes_requireBlanks ..) fun _ _ =>
    .bind (passes_parameterMark _) fun ⟨parameter, _⟩ _ => .bind (passes_entityName ..)
      fun ⟨_, _⟩ _ => .bind (passes_requireBlanks ..) fun _ _ => .bind (takes_entityDefinition ..)
        fun ⟨replacement, _⟩ _ => .bind (passes_unparsedMark ..) fun _ _ =>
          .bind (takes_expect ..) fun _ _ => ?_
  cases parameter with
  | true => exact .stay rfl
  | false => cases replacement <;> exact .stay rfl

/-- A replacement text is shorter than what was left when its declaration was read. -/
theorem within_of_entityDeclaration (within : before.Within bound) (short : r.remaining ≤ bound)
    (h : r.entityDeclaration options before = .ok (table, next)) : table.Within bound := by
  obtain ⟨r₁, word, h⟩ := bind_eq_ok.mp h
  obtain ⟨r₂, blank, h⟩ := bind_eq_ok.mp h
  obtain ⟨⟨parameter, r₃⟩, mark, h⟩ := bind_eq_ok.mp h
  obtain ⟨⟨entity, r₄⟩, named, h⟩ := bind_eq_ok.mp h
  obtain ⟨r₅, between, h⟩ := bind_eq_ok.mp h
  obtain ⟨⟨replacement, r₆⟩, defined, h⟩ := bind_eq_ok.mp h
  obtain ⟨r₇, _, h⟩ := bind_eq_ok.mp h
  obtain ⟨r₈, _, h⟩ := bind_eq_ok.mp h
  split at h
  · cases h
    exact within
  · rename_i replacement
    cases h
    apply within.declareInternal
    have left₁ := (takes_expectWord ..).taken word
    have left₂ := (passes_requireBlanks ..).taken blank
    have left₃ := (passes_parameterMark ..).taken mark
    have left₄ := (passes_entityName ..).taken named
    have left₅ := (passes_requireBlanks ..).taken between
    have left₆ := (takes_entityDefinition ..).taken defined
    simp only [reached_reader, reached_pair, Option.map_some, Option.getD_some] at *
    omega
  · cases h
    exact within.declareExternal _

theorem passes_declarationTail (r : Reader) : Passes r r.declarationTail := by
  fun_induction declarationTail r with
  | case1 => exact .fail
  | case2 => exact .pass rfl (remaining_skip_le ..)
  | case3 => exact .fail
  | case4 =>
    rename_i read ih
    exact .past (passes_quoted _) read ih
  | case5 => rename_i ih; exact ih.later rfl (remaining_skip_le ..)

theorem passes_subsetItem (r : Reader) (options : ParseOptions) (table : EntityTable) :
    Passes r (r.subsetItem options table) :=
  .ite
    (fun _ => .bind ((takes_name ..).later rfl (remaining_skip_le ..)) fun ⟨_, _⟩ _ =>
      .bind (takes_expect ..) fun _ _ => .stay rfl)
    fun _ => .ite (fun _ => passes_entityDeclaration ..) fun _ => .ite
      (fun _ => .bind (takes_comment ..) fun _ _ => .stay rfl)
      fun _ => .ite
        (fun _ => .bind (takes_instruction ..) fun _ _ => .stay rfl)
        fun _ => .ite
          (fun _ => .bind (takes_expectWord ..) fun _ _ => .bind (passes_declarationTail _)
            fun _ _ => .stay rfl)
          fun _ => .fail

theorem within_of_subsetItem (within : before.Within bound) (short : r.remaining ≤ bound)
    (h : r.subsetItem options before = .ok (table, next)) : table.Within bound := by
  unfold subsetItem at h
  split at h
  · obtain ⟨_, _, h⟩ := bind_eq_ok.mp h
    obtain ⟨_, _, h⟩ := bind_eq_ok.mp h
    cases h
    exact within
  · split at h
    · exact within_of_entityDeclaration within short h
    · split at h
      · obtain ⟨_, _, h⟩ := bind_eq_ok.mp h
        cases h
        exact within
      · split at h
        · obtain ⟨_, _, h⟩ := bind_eq_ok.mp h
          cases h
          exact within
        · split at h
          · obtain ⟨_, _, h⟩ := bind_eq_ok.mp h
            obtain ⟨_, _, h⟩ := bind_eq_ok.mp h
            cases h
            exact within
          · exact absurd h not_fail

theorem passes_internalSubset (r : Reader) (table : EntityTable) :
    Passes r (internalSubset options r table) := by
  fun_induction internalSubset options r table with
  | case1 | case3 => exact .fail
  | case2 =>
    refine .pass rfl ?_
    exact Nat.le_trans (remaining_skip_le ..) (remaining_skipBlanks_le _)
  | case4 =>
    rename_i read ih
    exact (Takes.past (passes_subsetItem ..) read ih).later rfl (remaining_skipBlanks_le _)

theorem within_of_internalSubset (within : before.Within bound) (short : r.remaining ≤ bound)
    (h : internalSubset options r before = .ok (table, next)) : table.Within bound := by
  fun_induction internalSubset options r before with
  | case1 => exact absurd h not_fail
  | case2 => cases h; exact within
  | case3 => cases h
  | case4 =>
    rename_i r before _ _ after middle read ih
    have short' := Nat.le_trans r.remaining_skipBlanks_le short
    have left := (passes_subsetItem ..).taken read
    simp only [reached_pair, reached_reader] at left
    exact ih (within_of_subsetItem within short' read) (by omega) h

theorem passes_doctype (r : Reader) (options : ParseOptions) : Passes r (r.doctype options) := by
  refine .bind (takes_expectWord ..) fun _ _ => .bind (passes_requireBlanks ..) fun _ _ =>
    .bind (takes_name ..) fun ⟨_, r₁⟩ _ => .bind ((passes_externalId _).later rfl
      r₁.remaining_skipBlanks_le) fun ⟨⟨_, _⟩, r₂⟩ _ => ?_
  refine .ite (fun _ => ?_) fun _ => ?_
  · refine .bind ((passes_internalSubset ..).later rfl ?_) fun ⟨_, r₃⟩ _ => .bind
      (.pass rfl r₃.remaining_skipBlanks_le) fun ⟨_, _⟩ _ =>
        .bind (takes_expect ..) fun _ _ => .stay rfl
    exact Nat.le_trans (remaining_skip_le ..) r₂.remaining_skipBlanks_le
  · exact .bind (.pass rfl r₂.remaining_skipBlanks_le) fun ⟨_, _⟩ _ =>
      .bind (takes_expect ..) fun _ _ => .stay rfl

theorem within_of_doctype {doctype : Doctype} (short : r.remaining ≤ bound)
    (h : r.doctype options = .ok ((doctype, table), next)) : table.Within bound := by
  obtain ⟨r₁, word, h⟩ := bind_eq_ok.mp h
  obtain ⟨r₂, blank, h⟩ := bind_eq_ok.mp h
  obtain ⟨⟨_, r₃⟩, named, h⟩ := bind_eq_ok.mp h
  obtain ⟨⟨⟨_, systemId⟩, r₄⟩, outside, h⟩ := bind_eq_ok.mp h
  have left₁ := (takes_expectWord ..).taken word
  have left₂ := (passes_requireBlanks ..).taken blank
  have left₃ := (takes_name ..).taken named
  have left₄ := (passes_externalId ..).taken outside
  have blanks₃ := r₃.remaining_skipBlanks_le
  have blanks₄ := r₄.remaining_skipBlanks_le
  have further := r₄.skipBlanks.remaining_skip_le 1
  simp only [reached_reader, reached_pair] at left₁ left₂ left₃ left₄
  have fresh : EntityTable.Within { EntityTable.empty with incomplete := systemId.isSome } bound :=
    nofun
  dsimp only at h
  split at h
  · obtain ⟨⟨declared, r₅⟩, read, h⟩ := bind_eq_ok.mp h
    obtain ⟨_, same, h⟩ := bind_eq_ok.mp h
    cases same
    obtain ⟨r₆, _, h⟩ := bind_eq_ok.mp h
    cases h
    exact within_of_internalSubset fresh (by omega) read
  · obtain ⟨_, same, h⟩ := bind_eq_ok.mp h
    cases same
    obtain ⟨r₅, _, h⟩ := bind_eq_ok.mp h
    cases h
    exact fresh

/-! ## What stands before and after the element of a document -/

theorem passes_misc (options : ParseOptions) (r : Reader) (before : List Draft) :
    Passes r (misc options r before) := by
  fun_induction misc options r before with
  | case1 | case3 => exact .fail
  | case2 =>
    rename_i read ih
    exact (Takes.past (takes_comment ..) read ih).later rfl (remaining_skipBlanks_le _)
  | case4 =>
    rename_i read ih
    exact (Takes.past (takes_instruction ..) read ih).later rfl (remaining_skipBlanks_le _)
  | case5 => exact .pass rfl (remaining_skipBlanks_le _)

theorem passes_typeDeclaration (r : Reader) (options : ParseOptions) (before : List Draft) :
    Passes r (r.typeDeclaration options before) :=
  .ite
    (fun _ => .bind (passes_doctype ..) fun ⟨⟨_, _⟩, _⟩ _ => .bind (passes_misc ..)
      fun ⟨_, _⟩ _ => .stay rfl)
    fun _ => .stay rfl

theorem within_of_typeDeclaration {earlier later : List Draft} (short : r.remaining ≤ bound)
    (h : r.typeDeclaration options earlier = .ok ((later, table), next)) : table.Within bound := by
  unfold typeDeclaration at h
  split at h
  · obtain ⟨⟨⟨_, declared⟩, _⟩, read, h⟩ := bind_eq_ok.mp h
    obtain ⟨⟨_, _⟩, _, h⟩ := bind_eq_ok.mp h
    cases h
    exact within_of_doctype short read
  · cases h
    exact nofun

end Reader
end Markup.Xml
