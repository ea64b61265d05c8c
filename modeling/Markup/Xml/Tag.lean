import Markup.Xml.Entity
import Markup.Tree

/-!
# Tags

A start tag names an element, lists its attributes and declares namespaces, which hold for the
names of the tag itself. An end tag repeats the name.
-/

namespace Markup.Xml

/-- The bindings of prefixes to namespaces where a tag stands, nearest first. The prefix `none` is
the default namespace. -/
abbrev Scope := List (Option String × String)

namespace Scope

/-- The one binding that every document has. -/
def initial : Scope := [(some "xml", xmlNamespace)]

/-- The scope inside a tag with given attributes. -/
def declare (scope : Scope) (attributes : List Attribute) : Scope :=
  attributes.foldl (fun scope attr =>
    match attr.declared? with
    | some nsPrefix => (nsPrefix, attr.value) :: scope
    | none => scope) scope

/-- What a prefix is bound to; a binding to the empty text takes an outer binding away. -/
def resolve (scope : Scope) (nsPrefix : Option String) : Option String :=
  (scope.lookup nsPrefix).filter fun uri => !uri.isEmpty

end Scope

/-- A start tag with its names resolved. -/
structure StartTag where
  name : QName
  uri : Option String
  attributes : List Attribute
  /-- The bindings inside the element. -/
  scope : Scope
  /-- Whether the tag closes its element at once. -/
  closed : Bool

/-- The node that a start tag opens. -/
def StartTag.kind (tag : StartTag) : NodeKind := .element tag.name tag.uri tag.attributes

namespace Reader

/-- Read an attribute; its namespace is found when the whole tag is read. -/
def attr (r : Reader) (cx : Context) : Except ParseFailure (Attribute × Reader) := do
  let (name, r) ← r.name cx.options
  let r ← r.skipBlanks.expect '='
  let (value, r) ← r.skipBlanks.attributeValue cx
  return (⟨QName.ofText name, none, value⟩, r)

/-- Keep an attribute unless its name is taken, which is reported. -/
def keepAttribute (r : Reader) (options : ParseOptions) (found : List Attribute)
    (attr : Attribute) : Except ParseFailure (List Attribute × Reader) :=
  if found.any (·.name == attr.name) then do
    return (found, ← r.report options (.duplicateAttribute attr.name.toText))
  else .ok (attr :: found, r)

/-- Whether the attributes of a tag end here. -/
def seesTagEnd (r : Reader) : Bool := r.atEnd || r.sees '>' || r.startsWith "/>"

/-! ## How far each step goes -/

theorem length_le_of_attributeText {cx : Context} {quote : Option Char} {r next : Reader}
    {before value : List Char} (h : attributeText cx quote r before = .ok (value, next)) :
    next.rest.length ≤ r.rest.length := by
  fun_induction attributeText cx quote r before generalizing value next with
  | case1 => exact absurd h not_fail
  | case2 => cases h; exact Nat.le_refl _
  | case3 => cases h; exact length_skip_le ..
  | case4 => exact absurd h not_fail
  | case5 => cases h
  | case6 =>
    rename_i read ih
    exact Nat.le_trans (ih h) (Nat.le_of_lt (length_lt_of_reference read))
  | case7 => exact absurd h not_fail
  | case8 => cases h
  | case9 =>
    rename_i middle read _ _ inner _ _ ih
    have rest : (middle.resume inner).rest.length = middle.rest.length := rfl
    exact Nat.le_trans (rest ▸ ih h) (Nat.le_of_lt (length_lt_of_reference read))
  | case10 => cases h
  | case11 =>
    rename_i read ih
    exact Nat.le_trans (ih h) (Nat.le_of_lt (length_lt_of_char read))

theorem length_lt_of_attributeValue {r next : Reader} {cx : Context} {value : String}
    (h : r.attributeValue cx = .ok (value, next)) : next.rest.length < r.rest.length := by
  obtain ⟨⟨_, r₁⟩, opened, h⟩ := exists_of_bind_ok h
  obtain ⟨⟨_, r₂⟩, read, h⟩ := exists_of_bind_ok h
  cases h
  exact Nat.lt_of_le_of_lt (length_le_of_attributeText read) (length_lt_of_openQuote opened)

theorem length_lt_of_attr {r next : Reader} {cx : Context} {found : Attribute}
    (h : r.attr cx = .ok (found, next)) : next.rest.length < r.rest.length := by
  obtain ⟨⟨_, r₁⟩, named, h⟩ := exists_of_bind_ok h
  obtain ⟨r₂, equals, h⟩ := exists_of_bind_ok h
  obtain ⟨⟨_, r₃⟩, value, h⟩ := exists_of_bind_ok h
  cases h
  exact Nat.lt_trans (Nat.lt_of_lt_of_le (length_lt_of_attributeValue value)
    (length_skipBlanks_le _)) <| Nat.lt_trans (Nat.lt_of_lt_of_le (length_lt_of_expect equals)
    (length_skipBlanks_le _)) (length_lt_of_name named)

theorem rest_of_keepAttribute {r next : Reader} {options : ParseOptions}
    {found kept : List Attribute} {attr : Attribute}
    (h : r.keepAttribute options found attr = .ok (kept, next)) : next.rest = r.rest := by
  unfold keepAttribute at h
  split at h
  · obtain ⟨r₁, reported, h⟩ := exists_of_bind_ok h
    cases h
    exact rest_report reported
  · cases h; rfl

/-! ## Attributes and names of a start tag -/

-- The equations bound by `match` are what the termination proofs need.
set_option linter.unusedVariables false

/-- Read the attributes of a tag, latest first. -/
def attributes (cx : Context) (r : Reader) (found : List Attribute) :
    Except ParseFailure (List Attribute × Reader) :=
  if r.skipBlanks.seesTagEnd then .ok (found, r.skipBlanks)
  else if !r.seesBlank then r.skipBlanks.fail (.blankRequired .betweenAttributes)
  else
    match read : r.skipBlanks.attr cx with
    | .error failure => .error failure
    | .ok (attr, next) =>
      match kept : next.keepAttribute cx.options found attr with
      | .error failure => .error failure
      | .ok (found, next) => attributes cx next found
  termination_by r.rest.length
  decreasing_by
    rw [rest_of_keepAttribute kept]
    exact Nat.lt_of_lt_of_le (length_lt_of_attr read) (length_skipBlanks_le r)

/-- What a prefix is bound to; an unbound prefix is reported and stands for no namespace. -/
def boundUri (r : Reader) (options : ParseOptions) (scope : Scope) (nsPrefix : String) :
    Except ParseFailure (Option String × Reader) :=
  match scope.resolve (some nsPrefix) with
  | some uri => .ok (some uri, r)
  | none => do return (none, ← r.report options (.undeclaredPrefix nsPrefix))

/-- The namespace of an element. -/
def elementUri (r : Reader) (options : ParseOptions) (scope : Scope) (name : QName) :
    Except ParseFailure (Option String × Reader) :=
  match name.nsPrefix with
  | none => .ok (scope.resolve none, r)
  | some nsPrefix => r.boundUri options scope nsPrefix

/-- An attribute with its namespace. Declarations and attributes without a prefix have none. -/
def resolveAttribute (r : Reader) (options : ParseOptions) (scope : Scope) (attr : Attribute) :
    Except ParseFailure (Attribute × Reader) :=
  match attr.isDeclaration, attr.name.nsPrefix with
  | false, some nsPrefix => do
    let (uri, r) ← r.boundUri options scope nsPrefix
    return ({ attr with uri }, r)
  | _, _ => .ok (attr, r)

/-- The attributes of a tag with their namespaces. -/
def resolveAttributes (options : ParseOptions) (scope : Scope) (r : Reader) :
    List Attribute → Except ParseFailure (List Attribute × Reader)
  | [] => .ok ([], r)
  | attr :: rest => do
    let (attr, r) ← r.resolveAttribute options scope attr
    let (rest, r) ← resolveAttributes options scope r rest
    return (attr :: rest, r)

/-- Read the end of a start tag. -/
def tagEnd (r : Reader) : Except ParseFailure (Bool × Reader) :=
  if r.startsWith "/>" then .ok (true, r.skip 2)
  else if r.sees '>' then .ok (false, r.skip 1)
  else r.fail (.endOfText (some .startTag))

/-- Read the start tag of an element at a given depth. -/
def startTag (r : Reader) (cx : Context) (depth : Nat) (scope : Scope) :
    Except ParseFailure (StartTag × Reader) :=
  if depth > cx.options.maxDepth then r.fail (.tooDeep cx.options.maxDepth)
  else do
    let r ← r.expect '<'
    let (written, r) ← r.name cx.options
    let (found, r) ← attributes cx r []
    let scope := scope.declare found.reverse
    let name := QName.ofText written
    let (uri, r) ← r.elementUri cx.options scope name
    let (attributes, r) ← resolveAttributes cx.options scope r found.reverse
    let (closed, r) ← r.tagEnd
    return (⟨name, uri, attributes, scope, closed⟩, r)

/-- Read an end tag; one that does not repeat the name of the element is reported. -/
def endTag (r : Reader) (options : ParseOptions) (name : QName) : Except ParseFailure Reader := do
  let r ← r.expectWord "</"
  let (written, r) ← r.name options
  let r ← r.skipBlanks.expect '>'
  if written == name.toText then return r
  else r.report options (.mismatchedEndTag name.toText written)

/-! ## How far the tags go -/

theorem length_le_of_attributes {cx : Context} {r next : Reader} {before found : List Attribute}
    (h : attributes cx r before = .ok (found, next)) : next.rest.length ≤ r.rest.length := by
  fun_induction attributes cx r before with
  | case1 => cases h; exact length_skipBlanks_le _
  | case2 => exact absurd h not_fail
  | case3 => cases h
  | case4 => cases h
  | case5 =>
    rename_i read _ _ kept ih
    refine Nat.le_trans (ih h) ?_
    rw [rest_of_keepAttribute kept]
    exact Nat.le_trans (Nat.le_of_lt (length_lt_of_attr read)) (length_skipBlanks_le _)

theorem rest_of_boundUri {r next : Reader} {options : ParseOptions} {scope : Scope}
    {nsPrefix : String} {uri : Option String}
    (h : r.boundUri options scope nsPrefix = .ok (uri, next)) : next.rest = r.rest := by
  unfold boundUri at h
  split at h
  · cases h; rfl
  · obtain ⟨r₁, reported, h⟩ := exists_of_bind_ok h
    cases h
    exact rest_report reported

theorem rest_of_elementUri {r next : Reader} {options : ParseOptions} {scope : Scope}
    {name : QName} {uri : Option String} (h : r.elementUri options scope name = .ok (uri, next)) :
    next.rest = r.rest := by
  unfold elementUri at h
  split at h
  · cases h; rfl
  · exact rest_of_boundUri h

theorem rest_of_resolveAttribute {r next : Reader} {options : ParseOptions} {scope : Scope}
    {attr found : Attribute} (h : r.resolveAttribute options scope attr = .ok (found, next)) :
    next.rest = r.rest := by
  unfold resolveAttribute at h
  split at h
  · obtain ⟨⟨_, r₁⟩, bound, h⟩ := exists_of_bind_ok h
    cases h
    exact rest_of_boundUri bound
  · cases h; rfl

theorem rest_of_resolveAttributes {options : ParseOptions} {scope : Scope}
    {attributes found : List Attribute} {r next : Reader}
    (h : resolveAttributes options scope r attributes = .ok (found, next)) :
    next.rest = r.rest := by
  induction attributes generalizing r found with
  | nil => cases h; rfl
  | cons attr rest ih =>
    obtain ⟨⟨_, r₁⟩, first, h⟩ := exists_of_bind_ok h
    obtain ⟨⟨_, r₂⟩, others, h⟩ := exists_of_bind_ok h
    cases h
    exact (ih others).trans (rest_of_resolveAttribute first)

theorem length_le_of_tagEnd {r next : Reader} {closed : Bool}
    (h : r.tagEnd = .ok (closed, next)) : next.rest.length ≤ r.rest.length := by
  unfold tagEnd at h
  split at h
  · cases h; exact length_skip_le ..
  · split at h
    · cases h; exact length_skip_le ..
    · exact absurd h not_fail

theorem length_lt_of_startTag {r next : Reader} {cx : Context} {depth : Nat} {scope : Scope}
    {tag : StartTag} (h : r.startTag cx depth scope = .ok (tag, next)) :
    next.rest.length < r.rest.length := by
  unfold startTag at h
  split at h
  · exact absurd h not_fail
  · obtain ⟨r₁, opened, h⟩ := exists_of_bind_ok h
    obtain ⟨⟨_, r₂⟩, named, h⟩ := exists_of_bind_ok h
    obtain ⟨⟨_, r₃⟩, listed, h⟩ := exists_of_bind_ok h
    obtain ⟨⟨_, r₄⟩, element, h⟩ := exists_of_bind_ok h
    obtain ⟨⟨_, r₅⟩, resolved, h⟩ := exists_of_bind_ok h
    obtain ⟨⟨_, r₆⟩, ended, h⟩ := exists_of_bind_ok h
    cases h
    refine Nat.lt_of_le_of_lt (length_le_of_tagEnd ended) ?_
    rw [rest_of_resolveAttributes resolved, rest_of_elementUri element]
    exact Nat.lt_of_le_of_lt (length_le_of_attributes listed) <|
      Nat.lt_trans (length_lt_of_name named) (length_lt_of_expect opened)

theorem length_lt_of_endTag {r next : Reader} {options : ParseOptions} {name : QName}
    (h : r.endTag options name = .ok next) : next.rest.length < r.rest.length := by
  obtain ⟨r₁, word, h⟩ := exists_of_bind_ok h
  obtain ⟨⟨written, r₂⟩, named, h⟩ := exists_of_bind_ok h
  obtain ⟨r₃, ended, h⟩ := exists_of_bind_ok h
  have final : next.rest = r₃.rest := by
    split at h
    · cases h; rfl
    · exact rest_report h
  rw [final]
  exact Nat.lt_trans (Nat.lt_of_lt_of_le (length_lt_of_expect ended) (length_skipBlanks_le _)) <|
    Nat.lt_of_lt_of_le (length_lt_of_name named) (length_le_of_expectAll word)

end Reader
end Markup.Xml
