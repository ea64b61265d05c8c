import Markup.Document.Draft
import Markup.Encoding.Detection
import Markup.Xml.Parser

/-!
# Documents from text and bytes

A byte order mark at the start of a text is no part of the document. The encoding of a document
read from bytes is the declared one or else the one it was decoded with.
-/

namespace Markup.Document

/-- A text without the byte order mark at its start. -/
def dropMark (text : String) : String :=
  match text.toList with
  | '\ufeff' :: rest => String.ofList rest
  | _ => text

/-- Read a text as XML, exactly as it stands. -/
def ofXml (options : Xml.ParseOptions) (text : String) : Except ParseFailure Document :=
  (Xml.parse options text).map ofDraft

/-- Read a text as XML. -/
def ofText (text : String) : Except ParseFailure Document :=
  ofXml {} (dropMark text)

/-- Read bytes as XML in the encoding that is found. -/
def ofBytes (bytes : List UInt8) : Except ParseFailure Document :=
  match Encoding.decodeXml bytes none with
  | .error fault => .error (.ofWhole (.undecodable fault))
  | .ok decoded =>
    (ofXml {} decoded.text).map fun doc =>
      { doc with encoding := doc.encoding <|> some decoded.encoding.name }

end Markup.Document
