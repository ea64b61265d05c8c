import Markup.Tree
import Markup.Text.Ascii
import Markup.Text.Blank

/-!
# Writing trees as text

Text and attribute values are escaped so that reading them again gives the same characters. With
indentation an element whose children are elements, but no text worth keeping, has each child on a
line of its own; all other content is written as it stands.
-/

namespace Markup.Xml

/-- How a tree is to be written. -/
structure WriteOptions where
  /-- Put the children of an element on lines of their own where that changes no content. -/
  indent : Bool := false
  /-- What a line is indented by at each level. -/
  unit : String := "  "
  /-- Begin a whole document with its declaration. -/
  declaration : Bool := true
  deriving Repr, DecidableEq

/-! ## Escaping -/

/-- A character reference by hexadecimal number. -/
def hexReference (c : Char) : List Char :=
  "&#x".toList ++ (Text.upperHex 0 c.toNat).toList ++ [';']

/-- A character of text as it is written. -/
def escapeTextChar (c : Char) : List Char :=
  if c == '&' then "&amp;".toList
  else if c == '<' then "&lt;".toList
  else if c == '>' then "&gt;".toList
  else if c == '\r' then "&#13;".toList
  else if c == '\t' || c == '\n' then [c]
  else if c.toNat < 0x20 then hexReference c
  else [c]

/-- A character of an attribute value as it is written between double quotes. -/
def escapeAttributeChar (c : Char) : List Char :=
  if c == '&' then "&amp;".toList
  else if c == '<' then "&lt;".toList
  else if c == '>' then "&gt;".toList
  else if c == '"' then "&quot;".toList
  else if c == '\t' then "&#9;".toList
  else if c == '\n' then "&#10;".toList
  else if c == '\r' then "&#13;".toList
  else if c.toNat < 0x20 then hexReference c
  else [c]

/-- Text as it is written. -/
def escapeText (text : String) : String :=
  String.ofList (text.toList.flatMap escapeTextChar)

/-- An attribute value as it is written between double quotes. -/
def escapeAttribute (value : String) : String :=
  String.ofList (value.toList.flatMap escapeAttributeChar)

/-- The content of a CDATA section with every section end spread over two sections. -/
def splitSections : List Char → List Char
  | ']' :: ']' :: '>' :: rest => "]]]]><![CDATA[>".toList ++ splitSections rest
  | c :: rest => c :: splitSections rest
  | [] => []

/-! ## Markup -/

/-- An attribute as it is written in a tag, with the blank before it. -/
def writeAttribute (attr : Attribute) : String :=
  s!" {attr.name.toText}=\"{escapeAttribute attr.value}\""

/-- The declarations that bind prefixes, or the default namespace, to namespaces. -/
def declarationsOf (bindings : List (Option String × String)) : List Attribute :=
  bindings.map fun (nsPrefix, uri) => .declaration nsPrefix uri

/-- The identifiers of a document type declaration as they are written. -/
def writeIdentifiers : (publicId systemId : Option String) → String
  | some publicId, some systemId => s!" PUBLIC \"{publicId}\" \"{systemId}\""
  | some publicId, none => s!" PUBLIC \"{publicId}\""
  | none, some systemId => s!" SYSTEM \"{systemId}\""
  | none, none => ""

/-- A node that is no element as it is written; a document node is written by its children. -/
def writeLeaf : NodeKind → String
  | .text content => escapeText content
  | .cdata content => s!"<![CDATA[{String.ofList (splitSections content.toList)}]]>"
  | .comment content => s!"<!--{content}-->"
  | .instruction target none => s!"<?{target}?>"
  | .instruction target (some data) => s!"<?{target} {data}?>"
  | .doctype name publicId systemId => s!"<!DOCTYPE {name}{writeIdentifiers publicId systemId}>"
  | .document | .element .. => ""

/-- Whether a node is text that holds nothing but blanks. -/
def isBlankText : NodeKind → Bool
  | .text content => Text.isAllBlank content
  | _ => false

/-- Whether a node is character data that indentation could change. -/
def isSolidText : NodeKind → Bool
  | .text content => !Text.isAllBlank content
  | .cdata _ => true
  | _ => false

/-- Whether there are elements among the children of an element, but no text worth keeping. -/
def isElementOnly (children : List Tree) : Bool :=
  (children.any fun child => child.kind.isElement) &&
    !children.any fun child => isSolidText child.kind

namespace WriteOptions

/-- The blanks before a line at some level, if lines are indented here. -/
def margin (options : WriteOptions) (pretty : Bool) (level : Nat) : String :=
  if pretty then String.join (List.replicate level options.unit) else ""

/-- The end of a line, if lines are indented here. -/
def lineEnd (pretty : Bool) : String := if pretty then "\n" else ""

end WriteOptions

mutual

/-- A tree as it is written, `level` levels down, on a line of its own if `pretty`. If its topmost
node is an element, it makes declarations for some more bindings. -/
def write (options : WriteOptions) (level : Nat) (pretty : Bool)
    (bindings : List (Option String × String)) : Tree → String
  | .node .document children => writeAll options level pretty false children
  | .node (.element name _ attributes) children =>
    let head := "<" ++ name.toText ++
      String.join ((declarationsOf bindings ++ attributes).map writeAttribute)
    if children.isEmpty then
      options.margin pretty level ++ head ++ "/>" ++ WriteOptions.lineEnd pretty
    else
      let inner := options.indent && isElementOnly children
      options.margin pretty level ++ head ++ ">" ++ WriteOptions.lineEnd inner ++
        writeAll options (level + 1) inner inner children ++
        options.margin inner level ++ "</" ++ name.toText ++ ">" ++ WriteOptions.lineEnd pretty
  | .node (.text content) _ => writeLeaf (.text content)
  | .node (.cdata content) _ => writeLeaf (.cdata content)
  | .node (.doctype name publicId systemId) _ =>
    writeLeaf (.doctype name publicId systemId) ++ WriteOptions.lineEnd pretty
  | .node kind _ => options.margin pretty level ++ writeLeaf kind ++ WriteOptions.lineEnd pretty

/-- Several trees as they are written, one after the other; `dropBlanks` leaves blank text out. -/
def writeAll (options : WriteOptions) (level : Nat) (pretty dropBlanks : Bool) :
    List Tree → String
  | [] => ""
  | tree :: rest =>
    (if dropBlanks && isBlankText tree.kind then "" else write options level pretty [] tree) ++
      writeAll options level pretty dropBlanks rest

end

end Markup.Xml
