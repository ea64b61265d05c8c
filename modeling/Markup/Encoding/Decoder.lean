import Markup.Encoding.Basic
import Markup.Encoding.Page
import Markup.Encoding.Unicode
import Markup.Encoding.Switched

/-!
# Decoding bytes

What bytes stand for in each encoding, and the text of bytes, read strictly or leniently. A byte
order mark is left out if it is one of the encoding in question.
-/

namespace Markup.Encoding

/-- The code page of an encoding. Of encodings without one here only ASCII is read. -/
def page : Encoding → Page
  | latin2 => latin2Page
  | latin9 => latin9Page
  | koi8r => koi8rPage
  | macintosh => macintoshPage
  | windows1251 => windows1251Page
  | windows1252 => windows1252Page
  | userDefined => [(0xF780, 0x80)]
  | _ => []

/-- The character that a byte stands for on a code page. -/
def Page.character? (page : Page) (byte : Nat) : Option Char :=
  if byte < 0x80 then some (Char.ofNat byte) else (page.get? (byte - 0x80)).map Char.ofNat

/-- What bytes stand for; `none` stands for a malformed sequence. The encoding called replacement
reads any bytes as one malformed sequence. -/
def characters (encoding : Encoding) (bytes : List UInt8) : List (Option Char) :=
  match encoding with
  | utf8 => utf8Machine.run bytes
  | utf16be => (utf16Machine true).run bytes
  | utf16le => (utf16Machine false).run bytes
  | iso2022Jp => switchedMachine.run bytes
  | replacement => if bytes.isEmpty then [] else [none]
  | other => bytes.map fun byte => other.page.character? byte.toNat

/-- The byte order mark of an encoding. -/
def mark : Encoding → List UInt8
  | utf8 => [0xEF, 0xBB, 0xBF]
  | utf16be => [0xFE, 0xFF]
  | utf16le => [0xFF, 0xFE]
  | _ => []

/-- Bytes without the byte order mark of an encoding at their start. -/
def dropMark (encoding : Encoding) (bytes : List UInt8) : List UInt8 :=
  if encoding.mark.isPrefixOf bytes then bytes.drop encoding.mark.length else bytes

/-- The text of bytes, which fails at a malformed sequence. A byte order mark is left out. -/
def decodeStrictly (encoding : Encoding) (bytes : List UInt8) : Except DecodingFault String :=
  let found := encoding.characters (encoding.dropMark bytes)
  if found.all Option.isSome then .ok (String.ofList (found.filterMap id))
  else .error (.malformed encoding.name)

/-- The text of bytes, with U+FFFD for each malformed sequence. A byte order mark is left out. -/
def decodeLeniently (encoding : Encoding) (bytes : List UInt8) : String :=
  String.ofList ((encoding.characters (encoding.dropMark bytes)).map fun c => c.getD '\ufffd')

/-- The text of bytes in the encoding that a label stands for. -/
def transcode (bytes : List UInt8) (label : String) : Except DecodingFault String := do
  (← ofLabel label).decodeStrictly bytes

end Markup.Encoding
