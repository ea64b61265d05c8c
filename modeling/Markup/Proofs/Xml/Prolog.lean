import Markup.Proofs.Xml.Parsed
import Markup.Proofs.Xml.Reparse

/-!
# The prolog of a document

Comments, instructions and the document type stand at the top level beside the root element. Each
of them is read back from what is written for it, but for the identifiers of a document type: they
are always written between double quotes, although a double quote may stand in them.
-/

namespace Markup.Xml

/-- The node that a document type declaration stands for. -/
def Doctype.kind (type : Doctype) : NodeKind := .doctype type.name type.publicId type.systemId

/-- Whether the identifiers of a document type can stand between double quotes. -/
def Doctype.IsQuotable (type : Doctype) : Prop :=
  (∀ publicId ∈ type.publicId, '"' ∉ publicId.toList) ∧
    ∀ systemId ∈ type.systemId, '"' ∉ systemId.toList

/-- Whether a document type is as a declaration gives it: a public identifier does not stand
alone. -/
structure Doctype.IsDeclared (options : ParseOptions) (type : Doctype) : Prop where
  named : IsName options type.name
  paired : type.publicId.isSome → type.systemId.isSome

namespace Reader

variable {r next : Reader} {options : ParseOptions} {text tail : List Char} {type : Doctype}
  {literal : String}

/-! ## Document types -/

theorem openQuote_eq_ok (spelled : r.rest = '"' :: tail) {literal : Quoted} :
    r.openQuote literal = .ok ('"', r.skip 1) := by
  rw [openQuote, spelled]
  rfl

theorem exists_quoted (free : '"' ∉ literal.toList)
    (spelled : r.rest = '"' :: literal.toList ++ '"' :: tail) :
    ∃ next, r.quoted = .ok (literal, next) ∧ next.rest = tail := by
  have inside : (r.skip 1).rest = literal.toList ++ '"' :: tail := by rw [rest_skip, spelled]; rfl
  have whole : (r.skip 1).rest.takeWhile (· != '"') = literal.toList := by
    rw [inside, List.takeWhile_append_of_pos, List.takeWhile_cons_of_neg (by simp),
      List.append_nil]
    exact fun c listed => bne_iff_ne.mpr fun same => free (same ▸ listed)
  have closing : ((r.skip 1).skip literal.toList.length).rest = '"' :: tail :=
    rest_skip_length inside
  refine ⟨((r.skip 1).skip literal.toList.length).skip 1, ?_, by rw [rest_skip, closing]; rfl⟩
  simp only [quoted, openQuote_eq_ok spelled, bind, Except.bind, whole, expect_eq_ok closing,
    String.ofList_toList]
  rfl

/-- A double quote does not stand in a literal between double quotes. -/
theorem free_of_quoted (spelled : r.rest = '"' :: tail) (h : r.quoted = .ok (literal, next)) :
    '"' ∉ literal.toList := by
  obtain ⟨⟨quote, middle⟩, opened, h⟩ := bind_eq_ok.mp h
  cases (openQuote_eq_ok spelled).symm.trans opened
  obtain ⟨_, closed, h⟩ := bind_eq_ok.mp h
  cases h
  rw [String.toList_ofList]
  intro listed
  simpa using List.mem_takeWhile_imp listed

theorem requireBlanks_eq_ok {c : Char} (spelled : r.rest = ' ' :: c :: tail)
    (solid : Text.isMarkupBlank c = false) (place : BlankPlace) :
    r.requireBlanks place = .ok r.skipBlanks ∧ r.skipBlanks.rest = c :: tail := by
  have blank : Text.isMarkupBlank ' ' = true := by decide
  constructor
  · rw [requireBlanks, if_pos]
    rw [seesBlank, spelled]
    exact blank
  · rw [skipBlanks_rest, spelled, List.dropWhile_cons_of_pos blank,
      List.dropWhile_cons_of_neg (by simp [solid])]

theorem rest_public {publicId systemId : String} (spelled : r.rest =
      (writeIdentifiers (some publicId) (some systemId)).toList ++ '>' :: tail) :
    r.skipBlanks.startsWith "PUBLIC" = true ∧ (r.skipBlanks.skip 6).rest =
      ' ' :: '"' :: publicId.toList ++
        '"' :: ' ' :: '"' :: systemId.toList ++ '"' :: '>' :: tail := by
  have spelled' : r.rest = ' ' :: ("PUBLIC".toList ++ (' ' :: '"' :: publicId.toList ++
      '"' :: ' ' :: '"' :: systemId.toList ++ '"' :: '>' :: tail)) := by
    rw [spelled]
    simp [writeIdentifiers, toString]
  have shown := (requireBlanks_eq_ok spelled' (by decide) .anywhere).2
  exact ⟨startsWith_iff.mpr ⟨_, shown.symm⟩,
    rest_skip_length (show _ = "PUBLIC".toList ++ _ from shown)⟩

theorem rest_system {systemId : String}
    (spelled : r.rest = (writeIdentifiers none (some systemId)).toList ++ '>' :: tail) :
    r.skipBlanks.startsWith "PUBLIC" = false ∧ r.skipBlanks.startsWith "SYSTEM" = true ∧
      (r.skipBlanks.skip 6).rest = ' ' :: '"' :: systemId.toList ++ '"' :: '>' :: tail := by
  have spelled' : r.rest = ' ' :: ("SYSTEM".toList ++ (' ' :: '"' :: systemId.toList ++
      '"' :: '>' :: tail)) := by
    rw [spelled]
    simp [writeIdentifiers, toString]
  have shown := (requireBlanks_eq_ok spelled' (by decide) .anywhere).2
  exact ⟨startsWith_eq_false rfl shown (by decide), startsWith_iff.mpr ⟨_, shown.symm⟩,
    rest_skip_length (show _ = "SYSTEM".toList ++ _ from shown)⟩

/-- The identifiers of a document type are read back if they can stand between double quotes. -/
theorem exists_externalId {publicId systemId : Option String}
    (paired : publicId.isSome → systemId.isSome)
    (free : (∀ id ∈ publicId, '"' ∉ id.toList) ∧ ∀ id ∈ systemId, '"' ∉ id.toList)
    (spelled : r.rest = (writeIdentifiers publicId systemId).toList ++ '>' :: tail) :
    ∃ next, r.skipBlanks.externalId = .ok ((publicId, systemId), next) ∧
      next.rest = '>' :: tail := by
  match publicId, systemId with
  | none, none =>
    have solid := (rest_skipBlanks_cons spelled (by decide)).trans spelled
    refine ⟨r.skipBlanks, ?_, solid⟩
    rw [externalId, if_neg, if_neg]
    · simp [startsWith, solid, writeIdentifiers]
    · simp [startsWith, solid, writeIdentifiers]
  | none, some systemId =>
    obtain ⟨other, word, rest⟩ := rest_system spelled
    obtain ⟨blank, rest⟩ := requireBlanks_eq_ok rest (by decide) .anywhere
    obtain ⟨next, read, ends⟩ := exists_quoted (free.2 systemId rfl) rest
    refine ⟨next, ?_, ends⟩
    rw [externalId, if_neg (by simp [other]), if_pos word]
    exact bind_eq_ok.mpr ⟨_, blank, bind_eq_ok.mpr ⟨_, read, rfl⟩⟩
  | some publicId, some systemId =>
    obtain ⟨word, rest⟩ := rest_public spelled
    obtain ⟨blank, rest⟩ := requireBlanks_eq_ok rest (by decide) .anywhere
    obtain ⟨middle, read, rest⟩ := exists_quoted (free.1 publicId rfl) (by simpa using rest)
    obtain ⟨blank', rest⟩ := requireBlanks_eq_ok rest (by decide) .anywhere
    obtain ⟨next, read', ends⟩ := exists_quoted (free.2 systemId rfl) rest
    refine ⟨next, ?_, ends⟩
    rw [externalId, if_pos word]
    exact bind_eq_ok.mpr ⟨_, blank, bind_eq_ok.mpr ⟨_, read, bind_eq_ok.mpr ⟨_, blank',
      bind_eq_ok.mpr ⟨_, read', rfl⟩⟩⟩⟩
  | some _, none => simp at paired

/-- Identifiers that are read back can stand between double quotes. -/
theorem free_of_externalId {publicId systemId : Option String}
    (paired : publicId.isSome → systemId.isSome)
    (spelled : r.rest = (writeIdentifiers publicId systemId).toList ++ '>' :: tail)
    (h : r.skipBlanks.externalId = .ok ((publicId, systemId), next)) :
    (∀ id ∈ publicId, '"' ∉ id.toList) ∧ ∀ id ∈ systemId, '"' ∉ id.toList := by
  match publicId, systemId with
  | none, none => exact ⟨nofun, nofun⟩
  | none, some systemId =>
    obtain ⟨other, word, rest⟩ := rest_system spelled
    obtain ⟨blank, rest⟩ := requireBlanks_eq_ok rest (by decide) .anywhere
    rw [externalId, if_neg (by simp [other]), if_pos word] at h
    obtain ⟨_, blank', h⟩ := bind_eq_ok.mp h
    cases blank.symm.trans blank'
    obtain ⟨⟨found, last⟩, read, h⟩ := bind_eq_ok.mp h
    cases h
    exact ⟨nofun, by simpa using free_of_quoted rest read⟩
  | some publicId, some systemId =>
    obtain ⟨word, rest⟩ := rest_public spelled
    obtain ⟨blank, rest⟩ := requireBlanks_eq_ok rest (by decide) .anywhere
    rw [externalId, if_pos word] at h
    obtain ⟨_, found, h⟩ := bind_eq_ok.mp h
    cases blank.symm.trans found
    obtain ⟨⟨first, middle⟩, read, h⟩ := bind_eq_ok.mp h
    obtain ⟨_, between, h⟩ := bind_eq_ok.mp h
    obtain ⟨⟨second, last⟩, read', h⟩ := bind_eq_ok.mp h
    cases h
    have free := free_of_quoted rest read
    obtain ⟨other, again, rest⟩ := exists_quoted free (by simpa using rest)
    cases read.symm.trans again
    obtain ⟨blank', rest⟩ := requireBlanks_eq_ok rest (by decide) .anywhere
    cases blank'.symm.trans between
    exact ⟨by simpa using free, by simpa using free_of_quoted rest read'⟩
  | some _, none => simp at paired

theorem paired_of_externalId {publicId systemId : Option String}
    (h : r.externalId = .ok ((publicId, systemId), next)) : publicId.isSome → systemId.isSome := by
  unfold externalId at h
  split at h
  · obtain ⟨_, _, h⟩ := bind_eq_ok.mp h
    obtain ⟨_, _, h⟩ := bind_eq_ok.mp h
    obtain ⟨_, _, h⟩ := bind_eq_ok.mp h
    obtain ⟨_, _, h⟩ := bind_eq_ok.mp h
    cases h
    exact fun _ => rfl
  · split at h
    · obtain ⟨_, _, h⟩ := bind_eq_ok.mp h
      obtain ⟨_, _, h⟩ := bind_eq_ok.mp h
      cases h
      nofun
    · cases h
      nofun

/-- A document type declaration is read as it is written up to its identifiers. -/
theorem exists_doctypeHead (named : IsName options type.name)
    (spelled : r.rest = (writeLeaf type.kind).toList ++ tail) :
    ∃ first second, r.expectWord "<!DOCTYPE" = .ok first ∧
      first.requireBlanks .anywhere = .ok second ∧ ∃ third,
      second.name options = .ok (type.name, third) ∧
      third.rest = (writeIdentifiers type.publicId type.systemId).toList ++ '>' :: tail := by
  obtain ⟨c, letters, name_eq, start⟩ := named.exists_cons
  have spelled' : r.rest = "<!DOCTYPE".toList ++ (' ' :: (type.name.toList ++
      ((writeIdentifiers type.publicId type.systemId).toList ++ '>' :: tail))) := by
    rw [spelled]
    simp [writeLeaf, Doctype.kind, toString]
  obtain ⟨first, word, rest⟩ := exists_expectWord spelled'
  rw [name_eq, List.cons_append] at rest
  obtain ⟨blank, rest⟩ := requireBlanks_eq_ok rest (solid_of_isNameStart start) .anywhere
  rw [← List.cons_append, ← name_eq] at rest
  have ends : ((writeIdentifiers type.publicId type.systemId).toList ++
      '>' :: tail).head?.all (!isNameChar ·) = true := by
    have greater : isNameChar '>' = false := by decide
    have blank : isNameChar ' ' = false := by decide
    rcases type.publicId with _ | publicId <;> rcases type.systemId with _ | systemId <;>
      simp [writeIdentifiers, toString, greater, blank]
  obtain ⟨third, read, rest⟩ := exists_name named rest ends
  exact ⟨first, _, word, blank, third, read, rest⟩

theorem exists_doctype (declared : type.IsDeclared options) (quotable : type.IsQuotable)
    (spelled : r.rest = (writeLeaf type.kind).toList ++ tail) :
    ∃ table next, r.doctype options = .ok ((type, table), next) ∧ next.rest = tail := by
  obtain ⟨first, second, word, blank, third, named, rest⟩ :=
    exists_doctypeHead declared.named spelled
  obtain ⟨fourth, outside, rest⟩ := exists_externalId declared.paired quotable rest
  have solid := (rest_skipBlanks_cons rest (by decide)).trans rest
  have bare : fourth.skipBlanks.sees '[' = false := by simp [sees, solid]
  have closed := expect_eq_ok solid
  refine ⟨{ EntityTable.empty with incomplete := type.systemId.isSome },
    fourth.skipBlanks.skip 1, ?_, by rw [rest_skip, solid]; rfl⟩
  refine bind_eq_ok.mpr ⟨_, word, bind_eq_ok.mpr ⟨_, blank, bind_eq_ok.mpr ⟨_, named,
    bind_eq_ok.mpr ⟨_, outside, ?_⟩⟩⟩⟩
  dsimp only
  rw [if_neg (by simp [bare])]
  exact bind_eq_ok.mpr ⟨_, rfl, bind_eq_ok.mpr ⟨_, closed, rfl⟩⟩

theorem exists_of_doctype {table : EntityTable}
    (h : r.doctype options = .ok ((type, table), next)) :
    ∃ first second third fourth, r.expectWord "<!DOCTYPE" = .ok first ∧
      first.requireBlanks .anywhere = .ok second ∧
      second.name options = .ok (type.name, third) ∧
      third.skipBlanks.externalId = .ok ((type.publicId, type.systemId), fourth) := by
  obtain ⟨first, word, h⟩ := bind_eq_ok.mp h
  obtain ⟨second, blank, h⟩ := bind_eq_ok.mp h
  obtain ⟨⟨name, third⟩, named, h⟩ := bind_eq_ok.mp h
  obtain ⟨⟨⟨publicId, systemId⟩, fourth⟩, outside, h⟩ := bind_eq_ok.mp h
  refine ⟨first, second, third, fourth, word, blank, ?_⟩
  dsimp only at h
  split at h
  · obtain ⟨_, _, h⟩ := bind_eq_ok.mp h
    obtain ⟨_, _, h⟩ := bind_eq_ok.mp h
    obtain ⟨_, _, h⟩ := bind_eq_ok.mp h
    cases h
    exact ⟨named, outside⟩
  · obtain ⟨_, _, h⟩ := bind_eq_ok.mp h
    obtain ⟨_, _, h⟩ := bind_eq_ok.mp h
    cases h
    exact ⟨named, outside⟩

theorem isDeclared_of_doctype {table : EntityTable}
    (h : r.doctype options = .ok ((type, table), next)) : type.IsDeclared options := by
  obtain ⟨_, _, _, _, -, -, named, outside⟩ := exists_of_doctype h
  exact ⟨(isName_of_name named).1, paired_of_externalId outside⟩

/-- A document type that is read back can be written between double quotes. -/
theorem quotable_of_doctype (declared : type.IsDeclared options) {table : EntityTable}
    (spelled : r.rest = (writeLeaf type.kind).toList ++ tail)
    (h : r.doctype options = .ok ((type, table), next)) : type.IsQuotable := by
  obtain ⟨_, _, word, blank, _, named, rest⟩ := exists_doctypeHead declared.named spelled
  obtain ⟨_, _, _, _, word', blank', named', outside⟩ := exists_of_doctype h
  cases word.symm.trans word'
  cases blank.symm.trans blank'
  cases named.symm.trans named'
  exact free_of_externalId declared.paired rest outside

/-! ## Declarations -/

theorem exists_pseudoValue (free : '"' ∉ literal.toList)
    (spelled : r.rest = '=' :: '"' :: literal.toList ++ '"' :: tail) :
    ∃ next, r.pseudoValue = .ok (literal, next) ∧ next.rest = tail := by
  have solid := (rest_skipBlanks_cons spelled (by decide)).trans spelled
  have rest : (r.skipBlanks.skip 1).rest = '"' :: literal.toList ++ '"' :: tail := by
    rw [rest_skip, solid]
    rfl
  have solid' := (rest_skipBlanks_cons rest (by decide)).trans rest
  obtain ⟨next, read, ends⟩ := exists_quoted free solid'
  exact ⟨next, bind_eq_ok.mpr ⟨_, expect_eq_ok solid, read⟩, ends⟩

theorem free_of_isVersion {version : String} (isVersion : isVersion version = true) :
    '"' ∉ version.toList := by
  unfold Xml.isVersion at isVersion
  split at isVersion
  · rename_i digits spelled
    rw [Bool.and_eq_true, List.all_eq_true] at isVersion
    rw [spelled]
    intro listed
    have digit := isVersion.2 '"' (by simpa using listed)
    exact absurd digit (by decide)
  · cases isVersion

theorem exists_version {version : String} (isVersion : isVersion version = true)
    (spelled : r.rest = "version=\"".toList ++ version.toList ++ '"' :: tail) :
    ∃ next, r.version = .ok (version, next) ∧ next.rest = tail := by
  obtain ⟨first, word, rest⟩ := exists_expectWord (show r.rest =
    "version".toList ++ ('=' :: '"' :: version.toList ++ '"' :: tail) by simpa using spelled)
  obtain ⟨next, read, ends⟩ := exists_pseudoValue (free_of_isVersion isVersion) rest
  refine ⟨next, bind_eq_ok.mpr ⟨_, word, bind_eq_ok.mpr ⟨_, read, ?_⟩⟩, ends⟩
  dsimp only
  rw [if_pos isVersion]
  rfl

/-- A blank and a word come next, with a value for it. -/
theorem exists_pseudoAttribute {word : String} {a : Char} {letters : List Char}
    (begins : word.toList = a :: letters) (solid : Text.isMarkupBlank a = false)
    (free : '"' ∉ literal.toList)
    (spelled : r.rest = ' ' :: word.toList ++ '=' :: '"' :: literal.toList ++ '"' :: tail) :
    r.seesBlank = true ∧ r.skipBlanks.startsWith word = true ∧
      ∃ first, r.skipBlanks.expectWord word = .ok first ∧
        ∃ next, first.pseudoValue = .ok (literal, next) ∧ next.rest = tail := by
  have rest : r.skipBlanks.rest =
      word.toList ++ ('=' :: '"' :: literal.toList ++ '"' :: tail) := by
    have spelled' : r.rest = ' ' :: a :: (letters ++ ('=' :: '"' :: literal.toList ++
        '"' :: tail)) := by
      rw [spelled, begins]
      simp
    rw [(requireBlanks_eq_ok spelled' solid .anywhere).2, begins]
    rfl
  obtain ⟨first, read, after⟩ := exists_expectWord rest
  refine ⟨?_, startsWith_iff.mpr ⟨_, rest.symm⟩, first, read, exists_pseudoValue free after⟩
  rw [seesBlank, spelled]
  rfl

/-- How the encoding is declared: it is always the same one. -/
def writtenEncoding (encoded : Bool) : List Char :=
  if encoded then " encoding=\"UTF-8\"".toList else []

/-- How it is declared whether a document stands alone. -/
def writtenStandalone : Option Bool → List Char
  | some true => " standalone=\"yes\"".toList
  | some false => " standalone=\"no\"".toList
  | none => []

theorem exists_encodingName (encoded : Bool) {standalone : Option Bool}
    (spelled : r.rest = writtenEncoding encoded ++
      (writtenStandalone standalone ++ ("?>".toList ++ tail))) :
    ∃ next, r.encodingName = .ok (if encoded then some "UTF-8" else none, next) ∧
      next.rest = writtenStandalone standalone ++ ("?>".toList ++ tail) := by
  cases encoded with
  | true =>
    obtain ⟨blank, begins, first, word, next, read, ends⟩ :=
      exists_pseudoAttribute rfl (by decide) (by decide)
        (show r.rest = ' ' :: "encoding".toList ++ '=' :: '"' :: "UTF-8".toList ++ '"' :: _
          from spelled)
    refine ⟨next, ?_, ends⟩
    rw [encodingName, if_pos begins, if_pos blank]
    exact bind_eq_ok.mpr ⟨_, word, bind_eq_ok.mpr ⟨_, read, rfl⟩⟩
  | false =>
    refine ⟨r, ?_, spelled⟩
    have other : r.skipBlanks.startsWith "encoding" = false := by
      rw [startsWith, skipBlanks_rest, spelled]
      rcases standalone with _ | _ | _ <;> rfl
    rw [encodingName, if_neg (by simp [other])]
    rfl

theorem exists_standalone (standalone : Option Bool)
    (spelled : r.rest = writtenStandalone standalone ++ ("?>".toList ++ tail)) :
    ∃ next, r.standalone = .ok (standalone, next) ∧ next.rest = "?>".toList ++ tail := by
  match standalone with
  | some true =>
    obtain ⟨blank, begins, first, word, next, read, ends⟩ :=
      exists_pseudoAttribute rfl (by decide) (by decide)
        (show r.rest = ' ' :: "standalone".toList ++ '=' :: '"' :: "yes".toList ++ '"' :: _
          from spelled)
    refine ⟨next, ?_, ends⟩
    rw [Reader.standalone, if_pos begins, if_pos blank]
    exact bind_eq_ok.mpr ⟨_, word, bind_eq_ok.mpr ⟨_, read, rfl⟩⟩
  | some false =>
    obtain ⟨blank, begins, first, word, next, read, ends⟩ :=
      exists_pseudoAttribute rfl (by decide) (by decide)
        (show r.rest = ' ' :: "standalone".toList ++ '=' :: '"' :: "no".toList ++ '"' :: _
          from spelled)
    refine ⟨next, ?_, ends⟩
    rw [Reader.standalone, if_pos begins, if_pos blank]
    exact bind_eq_ok.mpr ⟨_, word, bind_eq_ok.mpr ⟨_, read, rfl⟩⟩
  | none =>
    refine ⟨r, ?_, spelled⟩
    have other : r.skipBlanks.startsWith "standalone" = false := by
      rw [startsWith, skipBlanks_rest, spelled]
      rfl
    rw [Reader.standalone, if_neg (by simp [other])]

/-- A declaration is read back as it is written. -/
theorem exists_head {version : String} (isVersion : isVersion version = true) (encoded : Bool)
    (standalone : Option Bool)
    (spelled : r.rest = "<?xml version=\"".toList ++ version.toList ++ '"' ::
      (writtenEncoding encoded ++ (writtenStandalone standalone ++ ("?>".toList ++ tail)))) :
    ∃ next, r.head =
        .ok (some ⟨version, if encoded then some "UTF-8" else none, standalone⟩, next) ∧
      next.rest = tail := by
  have spelled' : r.rest = "<?xml".toList ++ (' ' :: 'v' :: ("ersion=\"".toList ++ version.toList ++
      '"' :: (writtenEncoding encoded ++ (writtenStandalone standalone ++
        ("?>".toList ++ tail))))) := by simpa using spelled
  obtain ⟨first, word, rest⟩ := exists_expectWord spelled'
  obtain ⟨blank, rest⟩ := requireBlanks_eq_ok rest (by decide) .anywhere
  obtain ⟨second, read, rest⟩ := exists_version isVersion (show _ = _ from rest)
  obtain ⟨third, encoding, rest⟩ := exists_encodingName encoded rest
  obtain ⟨fourth, alone, rest⟩ := exists_standalone standalone rest
  have solid : fourth.skipBlanks.rest = "?>".toList ++ tail :=
    (rest_skipBlanks_cons rest (by decide)).trans rest
  obtain ⟨last, ended, ends⟩ := exists_expectWord solid
  have sees : r.seesDeclaration = true := by
    rw [seesDeclaration, startsWith_iff.mpr ⟨_, spelled'.symm⟩, spelled']
    rfl
  refine ⟨last, ?_, ends⟩
  rw [head, if_pos sees]
  exact bind_eq_ok.mpr ⟨_, bind_eq_ok.mpr ⟨_, word, bind_eq_ok.mpr ⟨_, blank, bind_eq_ok.mpr
    ⟨_, read, bind_eq_ok.mpr ⟨_, encoding, bind_eq_ok.mpr ⟨_, alone, bind_eq_ok.mpr
      ⟨_, ended, rfl⟩⟩⟩⟩⟩⟩, rfl⟩

theorem isVersion_of_head {declaration : Option Declaration}
    (h : r.head = .ok (declaration, next)) :
    ∀ found ∈ declaration, isVersion found.version = true := by
  unfold head at h
  split at h
  · obtain ⟨⟨found, last⟩, read, h⟩ := bind_eq_ok.mp h
    cases h
    obtain ⟨_, _, read⟩ := bind_eq_ok.mp read
    obtain ⟨_, _, read⟩ := bind_eq_ok.mp read
    obtain ⟨⟨version, _⟩, versioned, read⟩ := bind_eq_ok.mp read
    obtain ⟨_, _, read⟩ := bind_eq_ok.mp read
    obtain ⟨_, _, read⟩ := bind_eq_ok.mp read
    obtain ⟨_, _, read⟩ := bind_eq_ok.mp read
    cases read
    obtain ⟨_, _, versioned⟩ := bind_eq_ok.mp versioned
    obtain ⟨⟨value, _⟩, _, versioned⟩ := bind_eq_ok.mp versioned
    dsimp only at versioned
    split at versioned
    · rename_i isVersion
      cases versioned
      simpa using isVersion
    · exact absurd versioned not_fail
  · split at h
    · exact absurd h not_fail
    · cases h
      nofun

end Reader
end Markup.Xml
