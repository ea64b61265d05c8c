import Markup.Proofs.Encoding.Marked
import Markup.Proofs.Xml.Heading
import Markup.Proofs.Xml.Located
import Markup.Proofs.XPath.Scanned

/-!
# The declared encoding

The encoding of bytes is looked for before there is a text, by searching for words and marks. For a
declaration that ends near the start of a text this finds the name that is read of it later.
-/

namespace Markup.Encoding

open XPath (Ends)
open Xml (Clear Declaration Heading PseudoAttribute Reader isEncodingName isVersion)

/-! ## Searching for a word -/

section Search

variable {word text : List Char} {parts : List Char × List Char} {c : Char}

/-- A word begins nowhere in a text before it if its last letter is neither in the text nor
elsewhere in the word. -/
theorem clear_of_last (init : List Char) (once : c ∉ init) (absent : c ∉ text) :
    Clear (init ++ [c]) text := by
  induction text with
  | nil => trivial
  | cons first rest ih =>
    refine ⟨fun begins => ?_, ih fun listed => absent (List.mem_cons_of_mem first listed)⟩
    rw [← List.append_assoc, Xml.prefix_append_right_iff (by simp)] at begins
    have listed := begins.subset (List.mem_append_right init (List.mem_singleton_self c))
    rcases List.mem_append.mp listed with within | within
    · exact absent within
    · exact once within

theorem cut?_of_clear (clear : Clear word text) (nonempty : word ≠ []) (tail : List Char) :
    cut? word (text ++ (word ++ tail)) = some (text, tail) := by
  induction text with
  | nil =>
    obtain ⟨c, letters, rfl⟩ := List.exists_cons_of_ne_nil nonempty
    have begins : (c :: letters).isPrefixOf (c :: (letters ++ tail)) = true :=
      List.isPrefixOf_iff_prefix.mpr ⟨tail, rfl⟩
    rw [List.nil_append, List.cons_append, cut?, if_pos begins]
    simp
  | cons c rest ih =>
    have absent : ¬ word <+: c :: rest ++ word ++ tail :=
      Clear.not_prefix clear (List.cons_ne_nil c rest)
    have later : ¬ word.isPrefixOf (c :: (rest ++ (word ++ tail))) = true := fun begins =>
      absent (by simpa using List.isPrefixOf_iff_prefix.mp begins)
    rw [List.cons_append, cut?, if_neg later, ih clear.2]
    rfl

/-- A word is found only where all its letters are. -/
theorem subset_of_cut? (found : cut? word text = some parts) : word ⊆ text := by
  induction text generalizing parts with
  | nil => cases found
  | cons c rest ih =>
    rw [cut?] at found
    split at found
    · rename_i begins
      exact (List.isPrefixOf_iff_prefix.mp begins).subset
    · obtain ⟨inner, found, -⟩ := Option.map_eq_some_iff.mp found
      exact List.subset_cons_of_subset c (ih found)

end Search

/-! ## What stands in a declaration -/

/-- Characters that stand in a declaration besides the end of its end mark. -/
def isPlain (c : Char) : Bool := c != '>' && c.toNat < 0x80

/-- Characters that stand in a declaration outside the part that names the encoding: the word for it
ends in a letter that no other part has. -/
def isPlainer (c : Char) : Bool := c != 'g' && isPlain c

theorem all_isPlain_of_isPlainer {text : List Char} (plainer : text.all isPlainer = true) :
    text.all isPlain = true := by
  refine List.all_eq_true.mpr fun c listed => ?_
  exact (Bool.and_eq_true_iff.mp (List.all_eq_true.mp plainer c listed)).2

theorem not_mem_of_all_isPlainer {text : List Char} (plainer : text.all isPlainer = true) :
    'g' ∉ text :=
  fun listed => absurd (List.all_eq_true.mp plainer 'g' listed) (by decide)

theorem isPlainer_of_isDigit {c : Char} (digit : c.isDigit = true) : isPlainer c = true := by
  have below : c.toNat ≤ '9'.toNat := by
    rw [Char.isDigit, Bool.and_eq_true, decide_eq_true_eq, decide_eq_true_eq] at digit
    exact digit.2
  have other (d : Char) (above : '9'.toNat < d.toNat) : c ≠ d := by rintro rfl; omega
  simp only [isPlainer, isPlain, Bool.and_eq_true, bne_iff_ne, decide_eq_true_eq]
  exact ⟨other 'g' (by decide), other '>' (by decide), Nat.lt_of_le_of_lt below (by decide)⟩

/-- Letters and digits are plain, and none of them is blank. -/
theorem of_isAsciiAlphanumeric {c : Char} (named : Text.isAsciiAlphanumeric c = true) :
    isPlain c = true ∧ Text.isBlank c = false := by
  have points : 0x30 ≤ c.toNat ∧ c.toNat ≤ 0x39 ∨ 0x41 ≤ c.toNat ∧ c.toNat ≤ 0x7A := by
    simp only [Text.isAsciiAlphanumeric, Char.isAlpha, Char.isUpper, Char.isLower, Char.isDigit,
      Bool.or_eq_true, Bool.and_eq_true, decide_eq_true_eq, ge_iff_le, UInt32.le_iff_toNat_le,
      Char.toNat_val, Char.reduceToNat] at named
    omega
  constructor
  · have other : c ≠ '>' := by
      rintro rfl
      exact absurd points (by decide)
    simp only [isPlain, Bool.and_eq_true, bne_iff_ne, decide_eq_true_eq]
    exact ⟨other, by omega⟩
  · rw [← Bool.not_eq_true]
    simp only [Text.isBlank, Text.inRanges, Text.blankRanges, List.any_cons, List.any_nil,
      Bool.or_eq_true, Bool.and_eq_true, decide_eq_true_eq, Bool.false_eq_true, or_false]
    omega

theorem all_isPlainer_of_isVersion {version : String} (isVersion : isVersion version = true) :
    version.toList.all isPlainer = true := by
  unfold Xml.isVersion at isVersion
  split at isVersion
  · rename_i digits spelled
    rw [Bool.and_eq_true, List.all_eq_true] at isVersion
    rw [spelled, List.all_cons, List.all_cons, List.all_eq_true.mpr fun c listed =>
      isPlainer_of_isDigit (isVersion.2 c listed)]
    decide
  · cases isVersion

/-- The characters of names of encodings are plain, and none of them is blank. -/
theorem of_isEncodingName {name : String} (isName : isEncodingName name = true) :
    ∀ c ∈ name.toList, isPlain c = true ∧ Text.isBlank c = false := by
  unfold isEncodingName at isName
  split at isName
  · cases isName
  · rename_i first rest spelled
    rw [Bool.and_eq_true, List.all_eq_true] at isName
    rw [spelled, List.forall_mem_cons]
    refine ⟨of_isAsciiAlphanumeric (by rw [Text.isAsciiAlphanumeric, isName.1]; rfl), ?_⟩
    intro c listed
    have named := isName.2 c listed
    simp only [Bool.or_eq_true, beq_iff_eq] at named
    rcases named with ((named | rfl) | rfl) | rfl
    · exact of_isAsciiAlphanumeric named
    all_goals decide

section Parts

variable {heading : Heading}

theorem all_front (written : heading.IsWritten) : heading.front.all isPlainer = true := by
  rw [Heading.front, List.all_append, written.version.1.all_text (by decide) (by decide)
    (all_isPlainer_of_isVersion written.version.2)]
  decide

theorem all_back (written : heading.IsWritten) : heading.back.all isPlainer = true := by
  rw [Heading.back, List.all_append, PseudoAttribute.all_blanks written.trail (by decide),
    Bool.and_true]
  cases alone : heading.standalone with
  | none => rfl
  | some attr =>
    obtain ⟨written, value⟩ := written.standalone attr alone
    refine written.all_text (by decide) (by decide) ?_
    rcases value with same | same <;> rw [same] <;> decide

theorem all_text (written : heading.IsWritten) : heading.text.all isPlain = true := by
  rw [Heading.text, List.all_append, List.all_append,
    all_isPlain_of_isPlainer (all_front written), all_isPlain_of_isPlainer (all_back written),
    Bool.and_true, Bool.true_and]
  cases encoded : heading.encoding with
  | none => rfl
  | some attr =>
    obtain ⟨written, isName⟩ := written.encoding attr encoded
    exact written.all_text (by decide) (by decide) <| List.all_eq_true.mpr fun c listed =>
      (of_isEncodingName isName c listed).1

end Parts

/-! ## The label in a declaration -/

section Label

variable {blanks text tail : List Char} {attr : PseudoAttribute}

theorem trimStart_blanks (blank : blanks.all Text.isMarkupBlank = true)
    (ends : Ends Text.isAsciiBlank text) :
    Text.trimStart Text.isAsciiBlank (blanks ++ text) = text := by
  rw [Text.trimStart, List.dropWhile_append_of_pos]
  · cases text with
    | nil => rfl
    | cons c rest => exact List.dropWhile_cons_of_neg (by simp [Ends.cons_iff.mp ends])
  · intro c listed
    have blank := List.all_eq_true.mp blank c listed
    rw [Text.isAsciiBlank, blank]
    rfl

theorem trim_eq_self {blank : Char → Bool} (solid : ∀ c ∈ text, blank c = false) :
    Text.trim blank text = text := by
  have kept : ∀ text : List Char, (∀ c ∈ text, blank c = false) → text.dropWhile blank = text := by
    intro text solid
    cases text with
    | nil => rfl
    | cons c rest => exact List.dropWhile_cons_of_neg (by simp [solid c List.mem_cons_self])
  rw [Text.trim, kept text solid, kept text.reverse (by simpa using solid), List.reverse_reverse]

theorem afterEquals?_assigned (written : attr.IsWritten) (tail : List Char) :
    afterEquals? (attr.assigned ++ tail) =
      some (attr.quote :: (attr.value.toList ++ attr.quote :: tail)) := by
  have solid : Text.isAsciiBlank attr.quote = false := by
    rcases written.quote with same | same <;> rw [same] <;> decide
  have spelled : attr.assigned ++ tail = attr.left ++
      '=' :: (attr.right ++ attr.quote :: (attr.value.toList ++ attr.quote :: tail)) := by
    simp [PseudoAttribute.assigned]
  rw [spelled, afterEquals?, trimStart_blanks written.left (Ends.cons_iff.mpr (by decide))]
  exact congrArg some (trimStart_blanks written.right (Ends.cons_iff.mpr solid))

theorem quotedLabel?_value (written : attr.IsWritten) (isName : isEncodingName attr.value = true)
    (tail : List Char) :
    quotedLabel? (attr.quote :: (attr.value.toList ++ attr.quote :: tail)) =
      some attr.value.toList := by
  have isQuote : (attr.quote == '"' || attr.quote == '\'') = true := by
    rcases written.quote with same | same <;> rw [same] <;> decide
  have inside : (attr.value.toList ++ attr.quote :: tail).takeWhile (· != attr.quote) =
      attr.value.toList :=
    Ends.takeWhile_append (by simp) <| List.all_eq_true.mpr fun c listed =>
      bne_iff_ne.mpr fun same => written.value (same ▸ listed)
  have ascii : attr.value.toList.all (·.toNat < 0x80) = true := List.all_eq_true.mpr fun c listed =>
    (Bool.and_eq_true_iff.mp (of_isEncodingName isName c listed).1).2
  have short : attr.value.toList.length < (attr.value.toList ++ attr.quote :: tail).length := by
    simp
  rw [quotedLabel?, if_pos isQuote, inside]
  simp only [short, ascii, decide_true, Bool.and_self, ↓reduceIte]
  rw [trim_eq_self fun c listed => (of_isEncodingName isName c listed).2]

theorem cut?_end {heading : Heading} (written : heading.IsWritten) (tail : List Char) :
    cut? "?>".toList (heading.text ++ ("?>".toList ++ tail)) = some (heading.text, tail) := by
  refine cut?_of_clear (clear_of_last ['?'] (by decide) fun listed => ?_) (by decide) tail
  exact absurd (List.all_eq_true.mp (all_text written) '>' listed) (by decide)

/-- The word for the encoding is found where the part begins that names it. -/
theorem cut?_encoding {heading : Heading} (written : heading.IsWritten) :
    cut? "encoding".toList heading.text = heading.encoding.map fun attr =>
      (heading.front ++ attr.before, attr.assigned ++ heading.back) := by
  cases encoded : heading.encoding with
  | none =>
    have absent : 'g' ∉ heading.text := by
      rw [Heading.text, encoded]
      refine not_mem_of_all_isPlainer ?_
      rw [List.all_append, all_front written]
      exact all_back written
    cases found : cut? "encoding".toList heading.text with
    | none => rfl
    | some parts => exact absurd (subset_of_cut? found (by decide)) absent
  | some attr =>
    have clear : Clear "encoding".toList (heading.front ++ attr.before) := by
      refine clear_of_last "encodin".toList (by decide) (not_mem_of_all_isPlainer ?_)
      rw [List.all_append, all_front written]
      exact PseudoAttribute.all_blanks (written.encoding attr encoded).1.before (by decide)
    have text_eq : heading.text = (heading.front ++ attr.before) ++
        ("encoding".toList ++ (attr.assigned ++ heading.back)) := by
      simp [Heading.text, encoded, PseudoAttribute.text]
    rw [text_eq]
    exact cut?_of_clear clear (by decide) _

/-- The label that is found in bytes that begin as a declaration is spelled. -/
theorem declaredLabel?_heading {heading : Heading} (written : heading.IsWritten)
    {bytes : List UInt8} (spelled : opening 200 bytes = heading.text ++ ("?>".toList ++ tail)) :
    declaredLabel? bytes = heading.declaration.encoding.map String.toList := by
  have begins : "<?xml".toList.isPrefixOf (opening 200 bytes) = true := by
    rw [spelled, List.isPrefixOf_iff_prefix]
    simp only [Heading.text, Heading.front, List.append_assoc]
    exact List.prefix_append ..
  have label : declaredLabel? bytes = (cut? "encoding".toList heading.text).bind fun parts =>
      (afterEquals? parts.2).bind quotedLabel? := by
    unfold declaredLabel?
    dsimp only
    rw [if_pos begins, spelled, cut?_end written]
    rfl
  rw [label, cut?_encoding written, Heading.declaration]
  cases encoded : heading.encoding with
  | none => rfl
  | some attr =>
    obtain ⟨writtenAttr, isName⟩ := written.encoding attr encoded
    rw [Option.map_some, Option.bind_some, afterEquals?_assigned writtenAttr, Option.bind_some,
      quotedLabel?_value writtenAttr isName]
    rfl

end Label

/-! ## The bytes of a declaration -/

theorem length_flatMap_utf8EncodeChar (text : List Char) :
    (text.flatMap String.utf8EncodeChar).length = Text.byteLength text := by
  induction text with
  | nil => rfl
  | cons c rest ih =>
    rw [List.flatMap_cons, List.length_append, ih, String.length_utf8EncodeChar,
      Text.byteLength_cons]

/-- The bytes of ASCII text are the numbers of its characters. -/
theorem flatMap_utf8EncodeChar {text : List Char} (ascii : text.all (·.toNat < 0x80) = true) :
    text.flatMap String.utf8EncodeChar = text.map fun c => UInt8.ofNat c.toNat := by
  rw [List.map_eq_flatMap]
  refine List.flatMap_congr fun c listed => ?_
  have small : c.toNat < 0x80 := of_decide_eq_true (List.all_eq_true.mp ascii c listed)
  rw [String.utf8EncodeChar]
  exact if_pos (Nat.le_of_lt_succ small)

theorem exists_opening {text : List Char} {count : Nat}
    (ascii : text.all (·.toNat < 0x80) = true)
    (near : (text.flatMap String.utf8EncodeChar).length ≤ count) (following : List UInt8) :
    ∃ more, opening count (text.flatMap String.utf8EncodeChar ++ following) = text ++ more := by
  refine ⟨opening (count - (text.flatMap String.utf8EncodeChar).length) following, ?_⟩
  rw [opening, List.take_append, List.take_of_length_le near, List.map_append,
    flatMap_utf8EncodeChar ascii, List.map_map]
  congr 1
  refine (List.map_congr_left fun c listed => ?_).trans (List.map_id text)
  have small : c.toNat < 0x80 := of_decide_eq_true (List.all_eq_true.mp ascii c listed)
  show Char.ofNat (UInt8.ofNat c.toNat).toNat = c
  rw [UInt8.toNat_ofNat', Nat.mod_eq_of_lt (by omega), Char.ofNat_toNat]

/-- If a declaration ends within the first 200 bytes, then the label that is found in the bytes of
the text, and in any bytes that begin with those of the declaration, is the name of the encoding
that is read of it. -/
theorem declaredLabel_eq_encoding {text : String} {declaration : Declaration} {next : Reader}
    (read : (Reader.ofText text).declaration = .ok (declaration, next))
    (near : next.position.offset ≤ 200) :
    declaredLabel? text.toUTF8.data.toList = declaration.encoding.map String.toList ∧
      ∀ following : List UInt8,
        declaredLabel? (text.toUTF8.data.toList.take next.position.offset ++ following) =
          declaration.encoding.map String.toList := by
  obtain ⟨heading, written, rfl, spelled⟩ := Reader.exists_heading read
  have onward : (Reader.ofText text).Onward next := (Reader.located_declaration _).found read
  obtain ⟨passed, split, position⟩ := onward.read
  obtain rfl : passed = heading.text ++ "?>".toList :=
    List.append_cancel_right (split.symm.trans (spelled.trans (List.append_assoc ..).symm))
  have offset : next.position.offset =
      ((heading.text ++ "?>".toList).flatMap String.utf8EncodeChar).length := by
    rw [position, Position.offset_after, length_flatMap_utf8EncodeChar]
    exact Nat.zero_add _
  -- All of the declaration is ASCII, so that the scan begins with it as it is spelled.
  have ascii : (heading.text ++ "?>".toList).all (·.toNat < 0x80) = true := by
    rw [List.all_append, List.all_eq_true.mpr fun c listed =>
      (Bool.and_eq_true_iff.mp (List.all_eq_true.mp (all_text written) c listed)).2]
    decide
  have found (following : List UInt8) : declaredLabel?
      ((heading.text ++ "?>".toList).flatMap String.utf8EncodeChar ++ following) =
        heading.declaration.encoding.map String.toList := by
    obtain ⟨more, shown⟩ := exists_opening ascii (offset ▸ near) following
    exact declaredLabel?_heading written (shown.trans (List.append_assoc ..))
  have bytes : text.toUTF8.data.toList =
      (heading.text ++ "?>".toList).flatMap String.utf8EncodeChar ++
        next.rest.flatMap String.utf8EncodeChar := by
    rw [← encode_utf8, ← List.flatMap_append, ← split]
    rfl
  rw [bytes, offset, List.take_left]
  exact ⟨found _, found⟩

/-- What follows the declaration need not be bytes of a text. -/
theorem declaredLabel_eq_encoding_cut :
    ∃ next : Reader,
      (Reader.ofText "<?xml version='1.0'\tencoding = \"koi8-r\" ?><é/>").declaration =
          .ok (⟨"1.0", some "koi8-r", none⟩, next) ∧ next.position.offset = 42 ∧
        declaredLabel? ("<?xml version='1.0'\tencoding = \"koi8-r\" ?><é/>".toUTF8.data.toList.take
          42 ++ [0x83, 0xE9]) = some "koi8-r".toList := by
  let next : Reader := ⟨['<', 'é', '/', '>'], ⟨1, 43, 42⟩, none, ⟨[], 0⟩⟩
  have read : (Reader.ofText "<?xml version='1.0'\tencoding = \"koi8-r\" ?><é/>").declaration =
      .ok (⟨"1.0", some "koi8-r", none⟩, next) := rfl
  exact ⟨next, read, rfl, (declaredLabel_eq_encoding read (by decide)).2 [0x83, 0xE9]⟩

end Markup.Encoding
