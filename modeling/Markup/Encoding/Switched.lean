import Markup.Encoding.KanjiSet
import Markup.Encoding.Machine

/-!
# Text that switches between sets of characters

ISO-2022-JP writes text in bytes of seven bits, and switches between sets of characters by escape
sequences of three bytes. Two switches with nothing between them are malformed, and so is an escape
byte that begins no switch; what follows that byte is read as if it were not there.
-/

namespace Markup.Encoding

/-- A set of characters that text can switch to. -/
inductive CharSet where
  | ascii
  /-- ASCII but for a yen sign and an overline. -/
  | roman
  /-- Half-width katakana. -/
  | katakana
  /-- The set of two-byte characters. -/
  | kanji
  deriving Repr, DecidableEq

namespace CharSet

/-- Whether a byte has the same meaning as in ASCII. The shift bytes of older sets have none. -/
def isPlainByte (byte : Nat) : Bool := byte < 0x80 && byte != 0x0E && byte != 0x0F

/-- The set that the two bytes after an escape byte switch to. -/
def ofEscape? (first second : Nat) : Option CharSet :=
  match first, second with
  | 0x28, 0x42 => some ascii
  | 0x28, 0x4A => some roman
  | 0x28, 0x49 => some katakana
  | 0x24, 0x40 | 0x24, 0x42 => some kanji
  | _, _ => none

/-- The character of one byte, in the sets of one-byte characters. -/
def character? (set : CharSet) (byte : Nat) : Option Char :=
  match set with
  | ascii => if isPlainByte byte then some (Char.ofNat byte) else none
  | roman =>
    if byte = 0x5C then some '¥'
    else if byte = 0x7E then some '‾'
    else if isPlainByte byte then some (Char.ofNat byte)
    else none
  | katakana =>
    if 0x21 ≤ byte && byte ≤ 0x5F then some (Char.ofNat (0xFF61 + (byte - 0x21))) else none
  | kanji => none

end CharSet

/-- What was read of a character or a switch to come. -/
inductive Unfinished where
  | nothing
  /-- The first byte of a two-byte character. -/
  | lead (byte : Nat)
  | escape
  /-- An escape byte and the first of the two bytes after it. -/
  | escapeWith (byte : Nat)
  deriving Repr, DecidableEq

/-- What was read of text that switches between sets. -/
structure SwitchedState where
  /-- The set that bytes are read in. -/
  set : CharSet
  read : Unfinished
  /-- Whether nothing was read since the last switch. -/
  justSwitched : Bool
  deriving Repr, DecidableEq

namespace SwitchedState

/-- Read a byte outside a switch. The first half of a two-byte character takes the byte with it even
if the two stand for nothing, unless that byte is an escape byte. -/
def plain (state : SwitchedState) (byte : Nat) : List (Option Char) × SwitchedState :=
  let inCell := 0x21 ≤ byte && byte ≤ 0x7E
  match state.read with
  | .lead first =>
    if byte = 0x1B then ([none], { state with read := .escape })
    else
      let found := if inCell then kanji? (first - 0x21) (byte - 0x21) else none
      ([found], { state with read := .nothing })
  | _ =>
    if byte = 0x1B then ([], { state with read := .escape })
    else if state.set = .kanji ∧ inCell then
      ([], { state with read := .lead byte, justSwitched := false })
    else
      ([state.set.character? byte], { state with read := .nothing, justSwitched := false })

/-- Take back an escape byte that begins no switch. -/
def withoutEscape (state : SwitchedState) : SwitchedState :=
  { state with read := .nothing, justSwitched := false }

/-- Read a byte. -/
def next (state : SwitchedState) (byte : Nat) : List (Option Char) × SwitchedState :=
  match state.read with
  | .escape =>
    if byte = 0x24 ∨ byte = 0x28 then ([], { state with read := .escapeWith byte })
    else
      let (found, after) := state.withoutEscape.plain byte
      (none :: found, after)
  | .escapeWith first =>
    match CharSet.ofEscape? first byte with
    | some set =>
      (if state.justSwitched then [none] else [], ⟨set, .nothing, true⟩)
    | none =>
      let (found, after) := state.withoutEscape.plain first
      let (more, after) := after.plain byte
      (none :: (found ++ more), after)
  | _ => state.plain byte

/-- What the end of the bytes yields. -/
def finish (state : SwitchedState) : List (Option Char) :=
  match state.read with
  | .nothing => []
  | .lead _ | .escape => [none]
  | .escapeWith first =>
    let (found, after) := state.withoutEscape.plain first
    none :: (found ++ if after.read = .nothing then [] else [none])

end SwitchedState

/-- The decoder of ISO-2022-JP. -/
def switchedMachine : Machine SwitchedState where
  start := ⟨.ascii, .nothing, false⟩
  step := SwitchedState.next
  finish := SwitchedState.finish

end Markup.Encoding
