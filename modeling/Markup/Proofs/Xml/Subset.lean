import Markup.Proofs.Xml.Preface
import Markup.Proofs.Xml.Prolog
import Markup.Proofs.Xml.Reparse
import Markup.Proofs.Xml.Replacement

/-!
# An internal subset with one entity

A document type declaration whose internal subset declares one entity, with replacement text that is
written as it stands, is read as it is written.
-/

namespace Markup.Xml

/-- An entity as it can be declared: a name that is not predefined, and replacement text that can
stand between double quotes as it is. -/
structure IsDeclarable (options : ParseOptions) (entity replacement : String) : Prop where
  named : IsName options entity
  local_ : ':' ∉ entity.toList
  free : predefined? entity = none
  legal : IsLegal replacement.toList
  plain : ∀ c ∈ replacement.toList, c ≠ '"' ∧ c ≠ '%' ∧ c ≠ '&' ∧ c ≠ '\r'

/-- The declaration of an entity as it is written. -/
def writtenEntity (entity replacement : String) : List Char :=
  "<!ENTITY".toList ++ ' ' :: entity.toList ++ ' ' :: '"' :: replacement.toList ++ ['"', '>']

/-- A document type whose internal subset declares one entity, as it is written. -/
def writtenSubset (name entity replacement : String) : List Char :=
  "<!DOCTYPE".toList ++ ' ' :: name.toList ++ ' ' :: '[' :: writtenEntity entity replacement ++
    [']', '>']

theorem writtenEntity_append (entity replacement : String) (tail : List Char) :
    writtenEntity entity replacement ++ tail = "<!ENTITY".toList ++ (' ' :: (entity.toList ++
      (' ' :: '"' :: (replacement.toList ++ '"' :: '>' :: tail)))) := by
  unfold writtenEntity
  simp only [List.append_assoc, List.cons_append, List.nil_append]

theorem writtenSubset_append (name entity replacement : String) (tail : List Char) :
    writtenSubset name entity replacement ++ tail = "<!DOCTYPE".toList ++ (' ' :: (name.toList ++
      (' ' :: '[' :: (writtenEntity entity replacement ++ ']' :: '>' :: tail)))) := by
  unfold writtenSubset
  simp only [List.append_assoc, List.cons_append, List.nil_append]

namespace Reader

variable {r : Reader} {options : ParseOptions} {tail : List Char} {entity replacement : String}

/-- Text without quotes, percent signs and ampersands is read as it stands. -/
theorem exists_entityText {text : List Char} (before : List Char) (legal : IsLegal text)
    (plain : ∀ c ∈ text, c ≠ '"' ∧ c ≠ '%' ∧ c ≠ '&' ∧ c ≠ '\r')
    (spelled : r.rest = text ++ '"' :: tail) :
    ∃ next, entityText options '"' r before = .ok (text.reverse ++ before, next) ∧
      next.rest = tail := by
  induction text generalizing r before with
  | nil =>
    have more : r.atEnd = false := by simp [atEnd, spelled]
    have quote : r.sees '"' = true := by simp [sees, spelled]
    refine ⟨r.skip 1, ?_, by rw [rest_skip, spelled]; rfl⟩
    rw [entityText_eq_ite, if_neg (by simp [more]), if_pos quote]
    rfl
  | cons c text ih =>
    obtain ⟨quote, percent, amp, carriage⟩ := plain c List.mem_cons_self
    have legal := isLegal_cons.mp legal
    have read : r.char options = .ok (c, r.skip 1) := char_eq_ok spelled legal.1 carriage
    obtain ⟨next, others, ends⟩ := ih (r := r.skip 1) (c :: before) legal.2
      (fun d mem => plain d (List.mem_cons_of_mem c mem)) (by rw [rest_skip, spelled]; rfl)
    have number : r.startsWith "&#" = false := startsWith_eq_false rfl spelled (Ne.symm amp)
    have seen (d : Char) (other : c ≠ d) : r.sees d = false := by simp [sees, spelled, other]
    refine ⟨next, ?_, ends⟩
    rw [entityText_eq_ite, if_neg (by simp [atEnd, spelled]), if_neg (by simp [seen _ quote]),
      if_neg (by simp [seen _ percent]), if_neg (by simp [number]), if_neg (by simp [seen _ amp]),
      read, List.reverse_cons, List.append_assoc]
    exact others

theorem exists_entityDefinition (declarable : IsDeclarable options entity replacement)
    (spelled : r.rest = '"' :: (replacement.toList ++ '"' :: tail)) :
    ∃ next, r.entityDefinition options = .ok (some replacement, next) ∧ next.rest = tail := by
  have outside : r.externalId = .ok ((none, none), r) := by
    rw [externalId, if_neg (by simp [startsWith, spelled]), if_neg (by simp [startsWith, spelled])]
  have within : (r.skip 1).rest = replacement.toList ++ '"' :: tail := by
    rw [rest_skip, spelled]
    rfl
  obtain ⟨next, read, ends⟩ : ∃ next, (r.skip 1).entityText options '"' [] =
      .ok (replacement.toList.reverse ++ [], next) ∧ next.rest = tail :=
    exists_entityText [] declarable.legal declarable.plain within
  refine ⟨next, bind_eq_ok.mpr ⟨_, outside, bind_eq_ok.mpr ⟨_, bind_eq_ok.mpr
    ⟨_, openQuote_eq_ok spelled, bind_eq_ok.mpr ⟨_, read, rfl⟩⟩, ?_⟩⟩, ends⟩
  rw [List.append_nil, List.reverse_reverse, String.ofList_toList]
  rfl

theorem exists_entityDeclaration (declarable : IsDeclarable options entity replacement)
    (table : EntityTable) (spelled : r.rest = writtenEntity entity replacement ++ tail) :
    ∃ next, r.entityDeclaration options table =
      .ok (table.declareInternal entity replacement, next) ∧ next.rest = tail := by
  obtain ⟨c, letters, name_eq, start⟩ := declarable.named.exists_cons
  obtain ⟨first, word, rest⟩ :=
    exists_expectWord (spelled.trans (writtenEntity_append entity replacement tail))
  rw [name_eq, List.cons_append] at rest
  obtain ⟨blank, rest⟩ := requireBlanks_eq_ok rest (solid_of_isNameStart start) .anywhere
  have general : first.skipBlanks.parameterMark = .ok (false, first.skipBlanks) := by
    refine if_neg ?_
    have other : c ≠ '%' := ne_of_isNameStart start '%' (by decide)
    simp [sees, rest, other]
  rw [← List.cons_append, ← name_eq] at rest
  obtain ⟨second, named, rest⟩ := exists_name declarable.named rest rfl
  have letter : first.skipBlanks.entityName options = .ok (entity, second) := by
    refine bind_eq_ok.mpr ⟨_, named, ?_⟩
    dsimp only
    rw [if_neg (by simpa using declarable.local_)]
    rfl
  obtain ⟨between, rest⟩ := requireBlanks_eq_ok rest (by decide) .anywhere
  obtain ⟨third, defined, rest⟩ := exists_entityDefinition declarable rest
  have solid := (rest_skipBlanks_cons rest (by decide)).trans rest
  have parsed : third.unparsedMark options false = .ok third.skipBlanks :=
    if_neg (by simp [startsWith, solid])
  refine ⟨third.skipBlanks.skip 1, bind_eq_ok.mpr ⟨_, word, bind_eq_ok.mpr ⟨_, blank,
    bind_eq_ok.mpr ⟨_, general, bind_eq_ok.mpr ⟨_, letter, bind_eq_ok.mpr ⟨_, between,
      bind_eq_ok.mpr ⟨_, defined, bind_eq_ok.mpr ⟨_, parsed, bind_eq_ok.mpr
        ⟨_, expect_eq_ok solid, rfl⟩⟩⟩⟩⟩⟩⟩⟩, by rw [rest_skip, solid]; rfl⟩

theorem exists_internalSubset (declarable : IsDeclarable options entity replacement)
    (table : EntityTable)
    (spelled : r.rest = writtenEntity entity replacement ++ ']' :: tail) :
    ∃ next, internalSubset options r table =
      .ok (table.declareInternal entity replacement, next) ∧ next.rest = tail := by
  have begins := spelled.trans (writtenEntity_append entity replacement (']' :: tail))
  have solid : r.skipBlanks.rest = r.rest :=
    rest_skipBlanks_cons (c := '<') (begins.trans rfl) (by decide)
  obtain ⟨middle, declared, rest⟩ :=
    exists_entityDeclaration declarable table (solid.trans spelled)
  have item : r.skipBlanks.subsetItem options table =
      .ok (table.declareInternal entity replacement, middle) := by
    rw [subsetItem, if_neg (by simp [sees, solid, begins]),
      if_pos (by simp [startsWith, solid, begins]), declared]
  have closed := (rest_skipBlanks_cons rest (by decide)).trans rest
  refine ⟨middle.skipBlanks.skip 1, ?_, by rw [rest_skip, closed]; rfl⟩
  rw [internalSubset_eq, if_neg (by simp [atEnd, solid, begins]),
    if_neg (by simp [sees, solid, begins]), item]
  dsimp only [bind, Except.bind]
  rw [internalSubset_eq, if_neg (by simp [atEnd, closed]), if_pos (by simp [sees, closed])]

/-- A document type declaration that declares one entity is read as it is written. -/
theorem exists_typeDeclaration_subset {name : String} (named : IsName options name)
    (declarable : IsDeclarable options entity replacement) (before : List Draft)
    (spelled : r.rest = writtenSubset name entity replacement ++ tail)
    (begins : ∃ c rest, tail = '<' :: c :: rest ∧ c ≠ '!' ∧ c ≠ '?') :
    ∃ next, r.typeDeclaration options before =
      .ok ((.written (.doctype name none none) [] :: before, ⟨[(entity, replacement)], [], false⟩),
        next) ∧ next.rest = tail ∧ next.log.expansions = r.log.expansions := by
  obtain ⟨c, letters, name_eq, start⟩ := named.exists_cons
  have begins' := spelled.trans (writtenSubset_append name entity replacement tail)
  obtain ⟨first, word, rest⟩ := exists_expectWord begins'
  rw [name_eq, List.cons_append] at rest
  obtain ⟨blank, rest⟩ := requireBlanks_eq_ok rest (solid_of_isNameStart start) .anywhere
  rw [← List.cons_append, ← name_eq] at rest
  obtain ⟨second, root, rest⟩ := exists_name named rest rfl
  have bracket := (requireBlanks_eq_ok rest (by decide) .anywhere).2
  have outside : second.skipBlanks.externalId = .ok ((none, none), second.skipBlanks) := by
    rw [externalId, if_neg (by simp [startsWith, bracket]), if_neg (by simp [startsWith, bracket])]
  have solid : second.skipBlanks.skipBlanks.rest = _ :=
    (rest_skipBlanks_cons bracket (by decide)).trans bracket
  obtain ⟨third, subset, rest⟩ := exists_internalSubset (r := second.skipBlanks.skipBlanks.skip 1)
    declarable .empty (by rw [rest_skip, solid]; rfl)
  have closed := (rest_skipBlanks_cons rest (by decide)).trans rest
  have table : EntityTable.empty.declareInternal entity replacement =
      ⟨[(entity, replacement)], [], false⟩ := by
    refine if_neg ?_
    simp [EntityTable.declares, EntityTable.empty, declarable.free]
  have doctype : r.doctype options = .ok
      ((⟨name, none, none⟩, ⟨[(entity, replacement)], [], false⟩), third.skipBlanks.skip 1) := by
    refine bind_eq_ok.mpr ⟨_, word, bind_eq_ok.mpr ⟨_, blank, bind_eq_ok.mpr ⟨_, root,
      bind_eq_ok.mpr ⟨_, outside, ?_⟩⟩⟩⟩
    dsimp only
    rw [if_pos (by simp [sees, solid])]
    rw [table] at subset
    exact bind_eq_ok.mpr ⟨_, subset, bind_eq_ok.mpr ⟨_, rfl, bind_eq_ok.mpr
      ⟨_, expect_eq_ok closed, rfl⟩⟩⟩
  obtain ⟨d, others, tail_eq, mark⟩ := begins
  have ends : (third.skipBlanks.skip 1).skipBlanks.rest = tail := by
    have shown : (third.skipBlanks.skip 1).rest = tail := by rw [rest_skip, closed]; rfl
    rw [rest_skipBlanks_cons (shown.trans tail_eq) (by decide), shown]
  have read : r.typeDeclaration options before =
      .ok ((.written (.doctype name none none) [] :: before, ⟨[(entity, replacement)], [], false⟩),
        (third.skipBlanks.skip 1).skipBlanks) := by
    rw [typeDeclaration, if_pos (by simp [startsWith, begins'])]
    refine bind_eq_ok.mpr ⟨_, doctype, bind_eq_ok.mpr ⟨_, misc_eq_ok ?_ ?_, rfl⟩⟩
    · simp [startsWith, ends, tail_eq, List.isPrefixOf, mark.1.symm]
    · simp [startsWith, ends, tail_eq, List.isPrefixOf, mark.2.symm]
  exact ⟨_, read, ends, (passes_typeDeclaration r options before).same read⟩

end Reader
end Markup.Xml
