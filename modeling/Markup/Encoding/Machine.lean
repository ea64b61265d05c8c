/-!
# Decoding machines

A decoder is a machine that takes one byte at a time and yields characters, and `none` for each
malformed sequence of bytes. A malformed sequence ends before the first byte that cannot continue
it, and that byte is then read afresh.
-/

namespace Markup.Encoding

/-- A machine that turns bytes into characters; `none` stands for a malformed sequence. -/
structure Machine (σ : Type) where
  start : σ
  /-- What one more byte yields. -/
  step : σ → Nat → List (Option Char) × σ
  /-- What the end of the bytes yields. -/
  finish : σ → List (Option Char)

/-- What a machine yields for bytes, after what it yielded before, latest first. -/
def Machine.runFrom {σ : Type} (machine : Machine σ) :
    σ → List UInt8 → List (Option Char) → List (Option Char)
  | state, [], before => before.reverse ++ machine.finish state
  | state, byte :: rest, before =>
    let (found, next) := machine.step state byte.toNat
    machine.runFrom next rest (found.reverse ++ before)

/-- What a machine yields for bytes. -/
def Machine.run {σ : Type} (machine : Machine σ) (bytes : List UInt8) : List (Option Char) :=
  machine.runFrom machine.start bytes []

end Markup.Encoding
