import Markup.Encoding.Machine

/-!
# The encodings of all characters

UTF-8 writes a character as one to four bytes, UTF-16 as one or two units of two bytes.
-/

namespace Markup.Encoding

/-! ## UTF-8 -/

/-- The part of a character read so far. -/
structure Utf8State where
  /-- The number of bytes still to come. -/
  missing : Nat
  /-- The bits read so far. -/
  bits : Nat
  /-- The least byte that may come next. -/
  low : Nat
  /-- The greatest byte that may come next. -/
  high : Nat
  deriving Repr, DecidableEq

namespace Utf8State

/-- Between two characters. -/
def idle : Utf8State := ⟨0, 0, 0x80, 0xBF⟩

/-- Read the first byte of a character. -/
def first (byte : Nat) : List (Option Char) × Utf8State :=
  if byte < 0x80 then ([some (Char.ofNat byte)], idle)
  else if 0xC2 ≤ byte && byte ≤ 0xDF then ([], ⟨1, byte - 0xC0, 0x80, 0xBF⟩)
  else if 0xE0 ≤ byte && byte ≤ 0xEF then
    let low := if byte = 0xE0 then 0xA0 else 0x80
    let high := if byte = 0xED then 0x9F else 0xBF
    ([], ⟨2, byte - 0xE0, low, high⟩)
  else if 0xF0 ≤ byte && byte ≤ 0xF4 then
    let low := if byte = 0xF0 then 0x90 else 0x80
    let high := if byte = 0xF4 then 0x8F else 0xBF
    ([], ⟨3, byte - 0xF0, low, high⟩)
  else ([none], idle)

/-- Read a byte. -/
def next (state : Utf8State) (byte : Nat) : List (Option Char) × Utf8State :=
  if state.missing = 0 then first byte
  else if state.low ≤ byte && byte ≤ state.high then
    let bits := state.bits * 0x40 + (byte - 0x80)
    if state.missing = 1 then ([some (Char.ofNat bits)], idle)
    else ([], ⟨state.missing - 1, bits, 0x80, 0xBF⟩)
  else
    let (found, state) := first byte
    (none :: found, state)

end Utf8State

/-- The decoder of UTF-8. -/
def utf8Machine : Machine Utf8State where
  start := .idle
  step := Utf8State.next
  finish state := if state.missing = 0 then [] else [none]

/-! ## UTF-16 -/

/-- What was read of the character to come. -/
structure Utf16State where
  /-- The first byte of a unit. -/
  half : Option Nat
  /-- The first unit of a pair. -/
  leading : Option Nat
  deriving Repr, DecidableEq

namespace Utf16State

/-- Between two characters. -/
def idle : Utf16State := ⟨none, none⟩

/-- Read a unit. -/
def unit (leading : Option Nat) (unit : Nat) : List (Option Char) × Utf16State :=
  let broken := if leading.isSome then [none] else []
  if 0xD800 ≤ unit && unit ≤ 0xDBFF then (broken, ⟨none, some unit⟩)
  else if 0xDC00 ≤ unit && unit ≤ 0xDFFF then
    let pair := leading.map fun leading =>
      Char.ofNat (0x10000 + (leading - 0xD800) * 0x400 + (unit - 0xDC00))
    ([pair], idle)
  else (broken ++ [some (Char.ofNat unit)], idle)

/-- Read a byte. -/
def next (bigEndian : Bool) (state : Utf16State) (byte : Nat) :
    List (Option Char) × Utf16State :=
  match state.half with
  | none => ([], { state with half := some byte })
  | some first =>
    unit state.leading (if bigEndian then first * 0x100 + byte else byte * 0x100 + first)

end Utf16State

/-- The decoder of UTF-16 in either order of bytes. -/
def utf16Machine (bigEndian : Bool) : Machine Utf16State where
  start := .idle
  step := Utf16State.next bigEndian
  finish state := if state.half.isSome || state.leading.isSome then [none] else []

end Markup.Encoding
