/-!
# Kinds of elements

What the content model says of an element by its tag: whether it can have content, whether its
content is markup, where it belongs, and which tags end it.
-/

namespace Markup.Html

/-- Whether an element never has content. -/
def isVoid (tag : String) : Bool :=
  ["area", "base", "basefont", "br", "col", "embed", "frame", "hr", "img", "input", "isindex",
    "link", "meta", "param", "source", "track", "wbr"].contains tag

/-- Whether the content of an element is text without markup. -/
def holdsRawText (tag : String) : Bool :=
  tag == "script" || tag == "style"

/-- Whether an element belongs into the head as long as no body is open. -/
def belongsToHead (tag : String) : Bool :=
  ["title", "meta", "link", "base", "style", "script", "noscript"].contains tag

/-- Whether an element is part of the structure that every document has. -/
def isStructural (tag : String) : Bool :=
  tag == "html" || tag == "head" || tag == "body"

/-- The tags that end a paragraph. -/
def paragraphEnders : List String :=
  ["p", "div", "ul", "ol", "dl", "pre", "table", "blockquote", "address", "h1", "h2", "h3", "h4",
    "h5", "h6", "hr", "form", "section", "article", "aside", "header", "footer", "nav", "figure",
    "main"]

/-- The tags that end an open element without an end tag of its own. -/
def enders (opened : String) : List String :=
  match opened with
  | "p" => paragraphEnders
  | "li" => ["li"]
  | "dt" | "dd" => ["dt", "dd"]
  | "tr" => ["tr"]
  | "td" | "th" => ["td", "th", "tr"]
  | "thead" | "tbody" => ["tbody", "tfoot"]
  | "option" => ["option", "optgroup"]
  | "head" => ["body"]
  | _ => []

/-- Whether a start tag ends an open element. -/
def ends (tag opened : String) : Bool := (enders opened).contains tag

end Markup.Html
