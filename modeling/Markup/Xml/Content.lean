import Markup.Xml.Delimited
import Markup.Xml.Draft
import Markup.Xml.Tag

/-!
# Content of elements

Content is read by one loop over the text. It keeps the nodes read so far at the level it has
reached, the elements opened above that level, and the character data not yet made into a node.
Replacement text is read by the same loop in a context where its entity is open, and what it yields
is copied in. Every round either shortens the text, or closes an element at the end of the text, or
opens an entity that was not open.
-/

namespace Markup.Xml

/-- Where a piece of content stands: the depth of the element that holds it, and the bindings in
scope. -/
structure Level where
  depth : Nat
  scope : Scope

/-- An element whose end is not yet read. -/
structure OpenElement where
  tag : StartTag
  /-- The nodes before the element in its parent, latest first. -/
  before : List Draft

/-- Close an element, given its children, latest first. -/
def OpenElement.close (element : OpenElement) (children : List Draft) : List Draft :=
  .written element.tag.kind children.reverse :: element.before

/-- The level inside the innermost of the elements opened above a level, innermost first. -/
def Level.inside (base : Level) (path : List OpenElement) : Level :=
  ⟨base.depth + path.length, (path.head?.map (·.tag.scope)).getD base.scope⟩

/-- Character data that is not yet made into a node. -/
structure Pending where
  /-- The characters, latest first. -/
  chars : List Char
  /-- Their length in bytes. -/
  length : Nat

namespace Pending

/-- No character data. -/
def empty : Pending := ⟨[], 0⟩

/-- Character data followed by more. -/
def add (pending : Pending) (content : List Char) : Pending :=
  ⟨content.reverse ++ pending.chars, pending.length + Text.byteLength content⟩

/-- Make character data into a node after earlier nodes, latest first. -/
def flush (pending : Pending) (options : ParseOptions) (before : List Draft) : List Draft :=
  Draft.addText options.noBlanks (String.ofList pending.chars.reverse) before

end Pending

/-- Whether replacement text holds no markup, so that it is character data as it stands. -/
def isPlainText (replacement : String) : Bool :=
  replacement.toList.all fun c => c != '<' && c != '&'

/-- A piece of markup other than an end tag. -/
inductive Item where
  /-- A node without children. -/
  | leaf (kind : NodeKind)
  /-- The start of an element whose content follows. -/
  | start (tag : StartTag)

namespace Reader

/-- Read a piece of markup that is no end tag, in the content of an element at a given level. -/
def item (r : Reader) (cx : Context) (level : Level) : Except ParseFailure (Item × Reader) :=
  if r.startsWith "<![CDATA[" then do
    let (content, r) ← r.cdataSection cx.options
    return (.leaf (.cdata content), r)
  else if r.startsWith "<!--" then do
    let (content, r) ← r.comment cx.options
    return (.leaf (.comment content), r)
  else if r.startsWith "<?" then do
    let ((target, data), r) ← r.instruction cx.options
    return (.leaf (.instruction target data), r)
  else do
    let (tag, r) ← r.startTag cx (level.depth + 1) level.scope
    return (if tag.closed then .leaf tag.kind else .start tag, r)

theorem length_lt_of_item {r next : Reader} {cx : Context} {level : Level} {found : Item}
    (h : r.item cx level = .ok (found, next)) : next.rest.length < r.rest.length := by
  unfold item at h
  split at h
  · obtain ⟨⟨_, r₁⟩, read, h⟩ := exists_of_bind_ok h
    cases h
    exact length_lt_of_cdataSection read
  · split at h
    · obtain ⟨⟨_, r₁⟩, read, h⟩ := exists_of_bind_ok h
      cases h
      exact length_lt_of_comment read
    · split at h
      · obtain ⟨⟨_, r₁⟩, read, h⟩ := exists_of_bind_ok h
        cases h
        exact length_lt_of_instruction read
      · obtain ⟨⟨_, r₁⟩, read, h⟩ := exists_of_bind_ok h
        cases h
        exact length_lt_of_startTag read

/-- Add to character data, within the limit on its length. -/
def extend (r : Reader) (options : ParseOptions) (pending : Pending) (content : List Char) :
    Except ParseFailure Pending :=
  let pending := pending.add content
  if pending.length > options.maxTextLength then r.fail (.textTooLong options.maxTextLength)
  else .ok pending

-- The equations bound by `match` are what the termination proofs need.
set_option linter.unusedVariables false

/-- Read content up to the end of the text, or up to an end tag that closes no element opened here.
`here` are the nodes read so far at the innermost level, latest first, and `path` the elements
opened here, innermost first. -/
def content (cx : Context) (base : Level) (r : Reader) (here : List Draft)
    (path : List OpenElement) (pending : Pending) : Except ParseFailure (List Draft × Reader) :=
  match more : r.rest with
  | [] =>
    match path with
    | [] => .ok ((pending.flush cx.options here).reverse, r)
    | element :: path =>
      match h : r.report cx.options (.endOfText (some .elementContent)) with
      | .error failure => .error failure
      | .ok next =>
        content cx base next (element.close (pending.flush cx.options here)) path .empty
  | c :: _ =>
    if c == '<' then
      if r.startsWith "</" then
        match path with
        | [] => .ok ((pending.flush cx.options here).reverse, r)
        | element :: path =>
          match h : r.endTag cx.options element.tag.name with
          | .error failure => .error failure
          | .ok next =>
            content cx base next (element.close (pending.flush cx.options here)) path .empty
      else
        match h : r.item cx (base.inside path) with
        | .error failure => .error failure
        | .ok (.leaf kind, next) =>
          content cx base next (.written kind [] :: (pending.flush cx.options here)) path .empty
        | .ok (.start tag, next) =>
          content cx base next [] (⟨tag, pending.flush cx.options here⟩ :: path) .empty
    else if c == '&' then
      match h : r.reference cx with
      | .error failure => .error failure
      | .ok (.text found, next) =>
        match next.extend cx.options pending found with
        | .error failure => .error failure
        | .ok pending => content cx base next here path pending
      | .ok (.entity entity replacement, next) =>
        if isPlainText replacement then
          match next.extend cx.options pending replacement.toList with
          | .error failure => .error failure
          | .ok pending => content cx base next here path pending
        else
          match content (cx.opening entity) (base.inside path) (next.enter replacement) [] []
              .empty with
          | .error failure => .error failure
          | .ok (children, inner) =>
            if inner.atEnd then
              let here := pending.flush cx.options here
              content cx base (next.resume inner)
                (Draft.addCopies cx.options.noBlanks here children) path .empty
            else inner.fail (.endTagInEntity entity)
    else if r.startsWith "]]>" then
      match h : r.report cx.options .sectionEndInText with
      | .error failure => .error failure
      | .ok next =>
        match (next.skip 3).extend cx.options pending "]]>".toList with
        | .error failure => .error failure
        | .ok pending => content cx base (next.skip 3) here path pending
    else
      match h : r.char cx.options with
      | .error failure => .error failure
      | .ok (c, next) =>
        match next.extend cx.options pending [c] with
        | .error failure => .error failure
        | .ok pending => content cx base next here path pending
  termination_by (cx.unopened, r.rest.length, path.length)
  decreasing_by
    · rw [rest_report h]; exact .right _ (.right _ (Nat.lt_succ_self _))
    · exact .right _ (.left _ _ (length_lt_of_endTag h))
    · exact .right _ (.left _ _ (length_lt_of_item h))
    · exact .right _ (.left _ _ (length_lt_of_item h))
    · exact .right _ (.left _ _ (length_lt_of_reference h))
    · exact .right _ (.left _ _ (length_lt_of_reference h))
    · exact .left _ _ (unopened_lt_of_reference h)
    · exact .right _ (.left _ _ (by simpa using length_lt_of_reference h))
    · refine .right _ (.left _ _ ?_)
      have nonempty : next.rest ≠ [] := by rw [rest_report h, more]; nofun
      have shorter : (next.skip 3).rest.length < next.rest.length :=
        length_skip_lt (by decide) nonempty
      rwa [rest_report h] at shorter
    · exact .right _ (.left _ _ (length_lt_of_char h))

/-- Read an element at the top level of a document. -/
def rootElement (r : Reader) (cx : Context) : Except ParseFailure (Draft × Reader) := do
  let (tag, r) ← r.startTag cx 1 Scope.initial
  if tag.closed then return (.written tag.kind [], r)
  else
    let (children, r) ← content cx ⟨1, tag.scope⟩ r [] [] .empty
    let element := .written tag.kind children
    if r.atEnd then
      return (element, ← r.report cx.options (.endOfText (some .elementContent)))
    else return (element, ← r.endTag cx.options tag.name)

end Reader
end Markup.Xml
