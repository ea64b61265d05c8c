import Markup.Encoding.Detection

/-!
# Decoding what was encoded

UTF-8 and UTF-16 write every character. What they write for a text is decoded as the text again, and
behind a byte order mark it is found to be in the encoding of the mark.
-/

namespace Markup.Encoding

/-! ## Writing -/

/-- An encoding of all characters. -/
inductive Form where
  | utf8
  | utf16 (bigEndian : Bool)
  deriving Repr, DecidableEq

/-- The bytes of a unit of sixteen bits. -/
def unitBytes (bigEndian : Bool) (unit : Nat) : List UInt8 :=
  let high := UInt8.ofNat (unit / 0x100)
  let low := UInt8.ofNat (unit % 0x100)
  if bigEndian then [high, low] else [low, high]

/-- The units of sixteen bits of a character: one, or a leading and a trailing one. -/
def units (c : Char) : List Nat :=
  if c.toNat < 0x10000 then [c.toNat]
  else [0xD800 + (c.toNat - 0x10000) / 0x400, 0xDC00 + (c.toNat - 0x10000) % 0x400]

namespace Form

/-- The encoding under its name. -/
def encoding : Form → Encoding
  | utf8 => .utf8
  | utf16 true => .utf16be
  | utf16 false => .utf16le

/-- The bytes of a character. -/
def encodeChar : Form → Char → List UInt8
  | utf8, c => String.utf8EncodeChar c
  | utf16 bigEndian, c => (units c).flatMap (unitBytes bigEndian)

/-- The bytes of a text. -/
def encode (form : Form) (text : String) : List UInt8 :=
  text.toList.flatMap form.encodeChar

end Form

/-- UTF-8 writes the bytes that a string is made of. -/
theorem encode_utf8 (text : String) : Form.utf8.encode text = text.toUTF8.data.toList := by
  rw [String.toUTF8_eq_toByteArray, ← String.utf8Encode_toList, List.utf8Encode,
    List.toList_data_toByteArray]
  rfl

/-! ## Machines -/

namespace Machine

variable {σ : Type} {machine : Machine σ} {state next : σ} {byte : UInt8} {bytes : List UInt8}
  {c : Char}

/-- From a state, bytes yield one character and lead back to the start. -/
def Yields (machine : Machine σ) (state : σ) (bytes : List UInt8) (c : Char) : Prop :=
  ∀ rest before, machine.runFrom state (bytes ++ rest) before =
    machine.runFrom machine.start rest (some c :: before)

namespace Yields

theorem last (step : machine.step state byte.toNat = ([some c], machine.start)) :
    machine.Yields state [byte] c := by
  intro rest before
  rw [List.singleton_append, runFrom, step]
  rfl

theorem more (step : machine.step state byte.toNat = ([], next))
    (later : machine.Yields next bytes c) : machine.Yields state (byte :: bytes) c := by
  intro rest before
  rw [List.cons_append, runFrom, step]
  exact later rest before

/-- What is written character by character is read so. -/
theorem run_flatMap {write : Char → List UInt8}
    (yields : ∀ c, machine.Yields machine.start (write c) c) (text : List Char) :
    machine.run (text.flatMap write) = text.map some ++ machine.finish machine.start := by
  have ran : ∀ before, machine.runFrom machine.start (text.flatMap write) before =
      before.reverse ++ (text.map some ++ machine.finish machine.start) := by
    induction text with
    | nil => intro before; rfl
    | cons c others ih =>
      intro before
      rw [List.flatMap_cons, yields, ih]
      simp
  exact ran []

end Yields

end Machine

/-- The code points of characters are all but the surrogates. -/
theorem toNat_char (c : Char) :
    c.toNat < 0xD800 ∨ 0xDFFF < c.toNat ∧ c.toNat < 0x110000 := c.valid

/-! ## UTF-8 -/

namespace Utf8State

variable {missing bits low high n : Nat} {state : Utf8State} {bytes : List UInt8} {c : Char}

theorem step_ofNat (small : n < 0x100) :
    utf8Machine.step state (UInt8.ofNat n).toNat = next state n := by
  rw [UInt8.toNat_ofNat', Nat.mod_eq_of_lt small]
  rfl

theorem first_two (within : 0xC2 ≤ n ∧ n ≤ 0xDF) : first n = ([], ⟨1, n - 0xC0, 0x80, 0xBF⟩) := by
  rw [first, if_neg (by omega), if_pos (by simpa using within)]

theorem first_three (within : 0xE0 ≤ n ∧ n ≤ 0xEF) : first n =
    ([], ⟨2, n - 0xE0, if n = 0xE0 then 0xA0 else 0x80, if n = 0xED then 0x9F else 0xBF⟩) := by
  rw [first, if_neg (by omega), if_neg (by simp; omega), if_pos (by simpa using within)]

theorem first_four (within : 0xF0 ≤ n ∧ n ≤ 0xF4) : first n =
    ([], ⟨3, n - 0xF0, if n = 0xF0 then 0x90 else 0x80, if n = 0xF4 then 0x8F else 0xBF⟩) := by
  rw [first, if_neg (by omega), if_neg (by simp; omega), if_neg (by simp; omega),
    if_pos (by simpa using within)]

/-- The first byte of several. -/
theorem yields_first (small : n < 0x100) (step : first n = ([], state))
    (later : utf8Machine.Yields state bytes c) :
    utf8Machine.Yields idle (UInt8.ofNat n :: bytes) c :=
  .more ((step_ofNat small).trans step) later

/-- A byte between the first and the last. -/
theorem yields_middle (bits' : Nat) (within : low ≤ n ∧ n ≤ high) (small : n < 0x100)
    (same : bits * 0x40 + (n - 0x80) = bits')
    (later : utf8Machine.Yields ⟨missing + 1, bits', 0x80, 0xBF⟩ bytes c) :
    utf8Machine.Yields ⟨missing + 2, bits, low, high⟩ (UInt8.ofNat n :: bytes) c := by
  refine .more ((step_ofNat small).trans ?_) later
  simp [next, within, same]

/-- The last byte of several. -/
theorem yields_last (within : low ≤ n ∧ n ≤ high) (small : n < 0x100)
    (same : bits * 0x40 + (n - 0x80) = c.toNat) :
    utf8Machine.Yields ⟨1, bits, low, high⟩ [UInt8.ofNat n] c := by
  refine .last ((step_ofNat small).trans ?_)
  simp [next, within, same]
  rfl

end Utf8State

open Utf8State in
/-- The bytes that UTF-8 writes for a character yield the character. -/
theorem yields_utf8 (c : Char) :
    utf8Machine.Yields utf8Machine.start (String.utf8EncodeChar c) c := by
  have valid := toNat_char c
  show utf8Machine.Yields idle _ c
  unfold String.utf8EncodeChar
  rw [show c.val.toNat = c.toNat from rfl]
  dsimp only
  split
  · refine .last ((step_ofNat (by omega)).trans ?_)
    show first c.toNat = _
    rw [first, if_pos (by omega), Char.ofNat_toNat]
    rfl
  · split
    · exact yields_first (by omega) (first_two (by omega))
        (yields_last (by omega) (by omega) (by omega))
    · split
      · refine yields_first (by omega) (first_three (by omega)) ?_
        -- What the first byte says of the second leaves out longer forms and surrogates.
        refine yields_middle (c.toNat / 0x40) ?_ (by omega) (by omega)
          (yields_last (by omega) (by omega) (by omega))
        split <;> split <;> omega
      · refine yields_first (by omega) (first_four (by omega)) ?_
        refine yields_middle (c.toNat / 0x1000) ?_ (by omega) (by omega)
          (yields_middle (c.toNat / 0x40) (by omega) (by omega) (by omega)
            (yields_last (by omega) (by omega) (by omega)))
        split <;> split <;> omega

/-! ## UTF-16 -/

namespace Utf16State

variable {bigEndian : Bool} {leading : Option Nat} {n : Nat} {bytes : List UInt8} {c : Char}

/-- The two bytes of a unit, of which the first alone yields nothing. -/
theorem step_unitBytes (bigEndian : Bool) (leading : Option Nat) (small : n < 0x10000) :
    ∃ first second half, unitBytes bigEndian n = [first, second] ∧
      (utf16Machine bigEndian).step ⟨none, leading⟩ first.toNat = ([], half) ∧
      (utf16Machine bigEndian).step half second.toNat = unit leading n := by
  have high : (UInt8.ofNat (n / 0x100)).toNat = n / 0x100 := by
    rw [UInt8.toNat_ofNat', Nat.mod_eq_of_lt (by omega)]
  have low : (UInt8.ofNat (n % 0x100)).toNat = n % 0x100 := by
    rw [UInt8.toNat_ofNat', Nat.mod_eq_of_lt (by omega)]
  have whole : n / 0x100 * 0x100 + n % 0x100 = n := by omega
  cases bigEndian with
  | true =>
    refine ⟨_, _, ⟨some (n / 0x100), leading⟩, rfl, by rw [high]; rfl, ?_⟩
    show unit leading (n / 0x100 * 0x100 + _) = _
    rw [low, whole]
  | false =>
    refine ⟨_, _, ⟨some (n % 0x100), leading⟩, rfl, by rw [low]; rfl, ?_⟩
    show unit leading (_ * 0x100 + n % 0x100) = _
    rw [high, whole]

/-- The first unit of two. -/
theorem yields_leading (state : Utf16State) (small : n < 0x10000)
    (step : unit none n = ([], state))
    (later : (utf16Machine bigEndian).Yields state bytes c) :
    (utf16Machine bigEndian).Yields idle (unitBytes bigEndian n ++ bytes) c := by
  obtain ⟨first, second, half, spelled, begins, ends⟩ :=
    step_unitBytes bigEndian none small
  rw [spelled]
  exact .more begins (.more (ends.trans step) later)

/-- The last unit, or the only one. -/
theorem yields_unit (small : n < 0x10000) (step : unit leading n = ([some c], idle)) :
    (utf16Machine bigEndian).Yields ⟨none, leading⟩ (unitBytes bigEndian n) c := by
  obtain ⟨first, second, half, spelled, begins, ends⟩ :=
    step_unitBytes bigEndian leading small
  rw [spelled]
  exact .more begins (.last (ends.trans step))

end Utf16State

open Utf16State in
/-- The bytes that UTF-16 writes for a character yield the character. -/
theorem yields_utf16 (bigEndian : Bool) (c : Char) :
    (utf16Machine bigEndian).Yields (utf16Machine bigEndian).start
      ((units c).flatMap (unitBytes bigEndian)) c := by
  have valid := toNat_char c
  show (utf16Machine bigEndian).Yields idle _ c
  unfold units
  split
  · rw [List.flatMap_singleton]
    refine yields_unit (by omega) ?_
    rw [unit, if_neg (by simp; omega), if_neg (by simp; omega), Char.ofNat_toNat]
    rfl
  · have paired : Char.ofNat (0x10000 + (0xD800 + (c.toNat - 0x10000) / 0x400 - 0xD800) * 0x400 +
        (0xDC00 + (c.toNat - 0x10000) % 0x400 - 0xDC00)) = c := by
      rw [show _ + _ = c.toNat by omega, Char.ofNat_toNat]
    rw [List.flatMap_cons, List.flatMap_singleton]
    refine yields_leading ⟨none, some (0xD800 + (c.toNat - 0x10000) / 0x400)⟩ (by omega)
      ?_ (yields_unit (by omega) ?_)
    · rw [unit, if_pos (by simp; omega)]
      rfl
    · rw [unit, if_neg (by simp; omega), if_pos (by simp; omega), Option.map_some, paired]

/-! ## Behind a byte order mark -/

namespace Form

variable (form : Form) (text : String) (bytes : List UInt8)

/-- What was encoded is decoded without a malformed sequence. -/
theorem characters_encode : form.encoding.characters (form.encode text) = text.toList.map some := by
  rcases form with _ | (_ | _)
  · exact (Machine.Yields.run_flatMap yields_utf8 _).trans (List.append_nil _)
  · exact (Machine.Yields.run_flatMap (yields_utf16 false) _).trans (List.append_nil _)
  · exact (Machine.Yields.run_flatMap (yields_utf16 true) _).trans (List.append_nil _)

theorem detect_mark : detect (form.encoding.mark ++ bytes) =
    (form.encoding, form.encoding.mark.length) := by
  rcases form with _ | (_ | _) <;> rfl

theorem length_mark_pos : 0 < form.encoding.mark.length := by
  rcases form with _ | (_ | _) <;> decide

end Form

/-- One mark is left out, also where the text goes on with another. -/
theorem dropMark_mark (encoding : Encoding) (bytes : List UInt8) :
    encoding.dropMark (encoding.mark ++ bytes) = bytes := by
  rw [dropMark, if_pos (List.isPrefixOf_iff_prefix.mpr (List.prefix_append ..)), List.drop_left]

theorem decodeStrictly_mark (form : Form) (text : String) :
    form.encoding.decodeStrictly (form.encoding.mark ++ form.encode text) = .ok text := by
  rw [decodeStrictly, dropMark_mark, form.characters_encode]
  simp

theorem decodeLeniently_mark (form : Form) (text : String) :
    form.encoding.decodeLeniently (form.encoding.mark ++ form.encode text) = text := by
  rw [decodeLeniently, dropMark_mark, form.characters_encode]
  simp [Function.comp_def]

end Markup.Encoding
