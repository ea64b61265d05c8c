import Markup.Encoding.Decoder

/-!
# Finding the encoding of bytes

A byte order mark decides. Otherwise the text names its encoding near its start, where every byte
is read as the character of its number: in the declaration of an XML document, or in a `meta` tag.
-/

namespace Markup.Encoding

/-- The encoding that a byte order mark stands for, and its length. Without a mark it is UTF-8. -/
def detect (bytes : List UInt8) : Encoding × Nat :=
  match [utf8, utf16be, utf16le].find? fun encoding => encoding.mark.isPrefixOf bytes with
  | some encoding => (encoding, encoding.mark.length)
  | none => (utf8, 0)

/-- The first bytes, each as the character of its number. -/
def opening (count : Nat) (bytes : List UInt8) : List Char :=
  (bytes.take count).map fun byte => Char.ofNat byte.toNat

/-- A text before and after the first place where a word stands. -/
def cut? (word : List Char) : List Char → Option (List Char × List Char)
  | [] => none
  | c :: rest =>
    if word.isPrefixOf (c :: rest) then some ([], (c :: rest).drop word.length)
    else (cut? word rest).map fun (before, after) => (c :: before, after)

/-- What follows an equals sign and the blanks around it. -/
def afterEquals? (text : List Char) : Option (List Char) :=
  match Text.trimStart Text.isAsciiBlank text with
  | '=' :: rest => some (Text.trimStart Text.isAsciiBlank rest)
  | _ => none

/-- The label in quotes at the front of a text, if it is all ASCII. -/
def quotedLabel? : List Char → Option (List Char)
  | [] => none
  | quote :: rest =>
    if quote == '"' || quote == '\'' then
      let label := rest.takeWhile (· != quote)
      if label.length < rest.length && label.all (·.toNat < 0x80) then
        some (Text.trim Text.isBlank label)
      else none
    else none

/-! ## XML -/

/-- The label in the declaration of an XML document. -/
def declaredLabel? (bytes : List UInt8) : Option (List Char) := do
  let scan := opening 200 bytes
  if "<?xml".toList.isPrefixOf scan then
    let (declaration, _) ← cut? "?>".toList scan
    let (_, after) ← cut? "encoding".toList declaration
    quotedLabel? (← afterEquals? after)
  else none

/-- The encoding of an XML document. A declaration that can be read as ASCII is not believed to
name an encoding in units of sixteen bits. -/
def ofXml (bytes : List UInt8) : Except DecodingFault Encoding :=
  let (marked, length) := detect bytes
  if 0 < length then .ok marked
  else
    match declaredLabel? bytes with
    | none => .ok utf8
    | some label => do
      let encoding ← ofLabel (String.ofList label)
      return if encoding.isWide then utf8 else encoding

/-! ## HTML -/

/-- Whether a character ends a label that stands without quotes. -/
def endsLabel (c : Char) : Bool :=
  Text.isAsciiBlank c || c == '"' || c == '\'' || c == ';' || c == '/'

/-- The label in a `meta` tag, of which the name is read. -/
def labelInTag? (tag : List Char) : Option (List Char) := do
  let (_, after) ← cut? "charset".toList tag
  let value ← afterEquals? after
  let label := (quotedLabel? value).getD (value.takeWhile fun c => !endsLabel c)
  if label.isEmpty then none else some label

theorem length_after_le {word text : List Char} {parts : List Char × List Char}
    (h : cut? word text = some parts) : parts.2.length ≤ text.length := by
  induction text generalizing parts with
  | nil => cases h
  | cons c rest ih =>
    unfold cut? at h
    split at h
    · cases h
      simp
    · simp only [Option.map_eq_some_iff] at h
      obtain ⟨inner, found, rfl⟩ := h
      have shorter := ih found
      exact Nat.le_succ_of_le shorter

theorem length_after_lt {word text : List Char} {parts : List Char × List Char}
    (more : 0 < word.length) (h : cut? word text = some parts) :
    parts.2.length < text.length := by
  cases text with
  | nil => cases h
  | cons c rest =>
    unfold cut? at h
    split at h
    · cases h
      simp only [List.length_drop, List.length_cons]
      omega
    · simp only [Option.map_eq_some_iff] at h
      obtain ⟨inner, found, rfl⟩ := h
      have shorter := length_after_le found
      exact Nat.lt_succ_of_le shorter

-- The equation bound by `match` is what the termination proof needs.
set_option linter.unusedVariables false

/-- The label in the first `meta` tag that has one. -/
def labelInTags? (text : List Char) : Option (List Char) :=
  match h : cut? "<meta".toList text with
  | none => none
  | some (_, after) =>
    labelInTag? (after.takeWhile (· != '>')) <|> labelInTags? (after.dropWhile (· != '>'))
  termination_by text.length
  decreasing_by
    exact Nat.lt_of_le_of_lt (List.dropWhile_sublist _).length_le (length_after_lt (by decide) h)

/-- The encoding of an HTML document. Without a mark or a usable label it is UTF-8 if the bytes can
be read so, and otherwise windows-1252. -/
def ofHtml (bytes : List UInt8) : Encoding :=
  let (marked, length) := detect bytes
  if 0 < length then marked
  else
    match (labelInTags? (Text.lowerAscii (opening 1024 bytes))).bind ofTrimmedLabel? with
    | some encoding => encoding.compatible
    | none => if (utf8.characters bytes).all Option.isSome then utf8 else windows1252

/-! ## Decoding -/

/-- A text and the encoding that it was read in. -/
structure Decoded where
  text : String
  encoding : Encoding
  deriving Repr, DecidableEq

/-- The text of an XML document, in the encoding that a label asks for or that is found. -/
def decodeXml (bytes : List UInt8) (label : Option String) : Except DecodingFault Decoded := do
  let encoding ← match label with
    | some label => ofLabel label
    | none => ofXml bytes
  return ⟨← encoding.decodeStrictly bytes, encoding⟩

/-- The text of an HTML document, in the encoding that a label asks for or that is found. -/
def decodeHtml (bytes : List UInt8) (label : Option String) : Except DecodingFault Decoded := do
  let encoding ← match label with
    | some label => ofLabel label
    | none => pure (ofHtml bytes)
  return ⟨encoding.decodeLeniently bytes, encoding⟩

end Markup.Encoding
