import Markup.Proofs.Xml.Recovery

/-!
# The rounds of a parse

A parse reads attribute values and content in loops, and no other loop goes into replacement text.
Here the parser is run together with the list of all rounds of these loops, of which each shows the
entities that are open in it and the one that it expands. The count that the reader keeps is not
looked at. What the parser yields is left as it is, and a run that fails has the rounds up to its
failure.
-/

namespace Markup.Xml

/-- A round of the loops over attribute values and content. -/
structure Round where
  /-- The entities whose replacement text is being read, innermost first. -/
  opened : List String
  /-- The entity that the round expands, if there is one. -/
  expanded : Option String
  deriving Repr, DecidableEq

/-- A computation together with the rounds that it takes. -/
structure Traced (α : Type) where
  rounds : List Round
  outcome : Except ParseFailure α

namespace Traced

variable {α β : Type}

/-- How many references are expanded. -/
def expansions (run : Traced α) : Nat := run.rounds.countP (·.expanded.isSome)

/-- A computation without rounds. -/
def quiet (outcome : Except ParseFailure α) : Traced α := ⟨[], outcome⟩

/-- One computation after another, which may rely on what the first one found. -/
def follow (first : Traced α) (next : (a : α) → first.outcome = .ok a → Traced β) : Traced β :=
  match ran : first.outcome with
  | .error failure => ⟨first.rounds, .error failure⟩
  | .ok a => ⟨first.rounds ++ (next a ran).rounds, (next a ran).outcome⟩

instance : Monad Traced where
  pure a := quiet (.ok a)
  bind first next := first.follow fun a _ => next a

/-- A round that expands nothing, and what it goes on with. -/
def inRound (cx : Context) (run : Traced α) : Traced α :=
  ⟨⟨cx.opened, none⟩ :: run.rounds, run.outcome⟩

/-- The entity that a reference expands. -/
def expandedBy : Except ParseFailure (Reference × Reader) → Option String
  | .ok (.entity name _, _) => some name
  | _ => none

/-- A round that reads a reference. -/
def reference (r : Reader) (cx : Context) : Traced (Reference × Reader) :=
  ⟨[⟨cx.opened, expandedBy (r.reference cx)⟩], r.reference cx⟩

theorem outcome_follow {first : Traced α} {next : (a : α) → first.outcome = .ok a → Traced β}
    {step : Except ParseFailure α} {rest : α → Except ParseFailure β} (same : first.outcome = step)
    (same' : ∀ a ran, (next a ran).outcome = rest a) :
    (first.follow next).outcome = step >>= rest := by
  unfold follow
  split
  · rename_i failure ran
    rw [← same, ran]
    rfl
  · rename_i a ran
    refine (same' a ran).trans ?_
    rw [← same, ran]
    rfl

theorem outcome_ite {condition : Prop} [Decidable condition] {run other : Traced α}
    {step step' : Except ParseFailure α} (yes : condition → run.outcome = step)
    (no : ¬condition → other.outcome = step') :
    (if condition then run else other).outcome = if condition then step else step' := by
  split
  · exact yes ‹_›
  · exact no ‹_›

-- The equations bound by `follow` are what the termination proofs need.
set_option linter.unusedVariables false

/-! ## Attributes -/

/-- Read attribute text, round by round. -/
def attributeText (cx : Context) (quote : Option Char) (r : Reader) (value : List Char) :
    Traced (List Char × Reader) :=
  match r.rest with
  | [] =>
    inRound cx <| quiet <|
      if quote.isSome then r.fail (.endOfText (some .attributeValue)) else .ok (value, r)
  | c :: _ =>
    if quote == some c then inRound cx <| quiet <| .ok (value, r.skip 1)
    else if c == '<' && quote.isSome then inRound cx <| quiet <| r.fail .lessThanInAttribute
    else if c == '&' then
      (reference r cx).follow fun
        | (.text content, next), h => attributeText cx quote next (content.reverse ++ value)
        | (.entity entity replacement, next), h =>
          if replacement.toList.contains '<' then quiet <| next.fail (.entityBringsLessThan entity)
          else do
            let (value, inner) ←
              attributeText (cx.opening entity) none (next.enter replacement) value
            attributeText cx quote (next.resume inner) value
    else
      inRound cx <| (quiet <| r.char cx.options).follow fun
        | (c, next), h => attributeText cx quote next (Reader.attributeChar c :: value)
  termination_by (cx.unopened, r.rest.length)
  decreasing_by
    · exact .right _ (Reader.length_lt_of_reference h)
    · exact .left _ _ (Reader.unopened_lt_of_reference h)
    · exact .right _ (by simpa using Reader.length_lt_of_reference h)
    · exact .right _ (Reader.length_lt_of_char h)

theorem outcome_attributeText (cx : Context) (quote : Option Char) (r : Reader)
    (value : List Char) :
    (attributeText cx quote r value).outcome = r.attributeText cx quote value := by
  rw [attributeText, Reader.attributeText_eq]
  cases r.rest with
  | nil => rfl
  | cons c tail =>
    refine outcome_ite (fun _ => rfl) fun _ => outcome_ite (fun _ => rfl) fun _ =>
      outcome_ite (fun _ => outcome_follow rfl fun found read => ?_) fun _ =>
        outcome_follow rfl fun found read => outcome_attributeText cx quote found.2 _
    rcases found with ⟨content | ⟨entity, replacement⟩, next⟩
    · exact outcome_attributeText cx quote next _
    · exact outcome_ite (fun _ => rfl) fun _ => outcome_follow
        (outcome_attributeText (cx.opening entity) none (next.enter replacement) value)
        fun ⟨value, inner⟩ _ => outcome_attributeText cx quote (next.resume inner) value
  termination_by (cx.unopened, r.rest.length)
  decreasing_by
    · exact .right _ (Reader.length_lt_of_reference read)
    · exact .left _ _ (Reader.unopened_lt_of_reference read)
    · exact .right _ (by simpa using Reader.length_lt_of_reference read)
    · exact .right _ (Reader.length_lt_of_char read)

/-- Read a quoted attribute value. -/
def attributeValue (r : Reader) (cx : Context) : Traced (String × Reader) := do
  let (quote, r) ← quiet <| r.openQuote .attributeValue
  let (value, r) ← attributeText cx (some quote) r []
  return (String.ofList value.reverse, r)

theorem outcome_attributeValue (r : Reader) (cx : Context) :
    (attributeValue r cx).outcome = r.attributeValue cx :=
  outcome_follow rfl fun ⟨_, _⟩ _ => outcome_follow (outcome_attributeText ..) fun ⟨_, _⟩ _ => rfl

/-! ## Tags -/

/-- Read an attribute. -/
def attr (r : Reader) (cx : Context) : Traced (Attribute × Reader) := do
  let (name, r) ← quiet <| r.name cx.options
  let r ← quiet <| r.skipBlanks.expect '='
  let (value, r) ← attributeValue r.skipBlanks cx
  return (⟨QName.ofText name, none, value⟩, r)

theorem outcome_attr (r : Reader) (cx : Context) : (attr r cx).outcome = r.attr cx :=
  outcome_follow rfl fun ⟨_, _⟩ _ => outcome_follow rfl fun _ _ =>
    outcome_follow (outcome_attributeValue ..) fun ⟨_, _⟩ _ => rfl

/-- Read the attributes of a tag, latest first. -/
def attributes (cx : Context) (r : Reader) (found : List Attribute) :
    Traced (List Attribute × Reader) :=
  if r.skipBlanks.seesTagEnd then quiet <| .ok (found, r.skipBlanks)
  else if !r.seesBlank then quiet <| r.skipBlanks.fail (.blankRequired .betweenAttributes)
  else
    (attr r.skipBlanks cx).follow fun
      | (attr, next), read => (quiet <| next.keepAttribute cx.options found attr).follow fun
        | (found, next), kept => attributes cx next found
  termination_by r.rest.length
  decreasing_by
    rw [Reader.rest_of_keepAttribute kept]
    rw [outcome_attr] at read
    exact Nat.lt_of_lt_of_le (Reader.length_lt_of_attr read) (Reader.length_skipBlanks_le r)

theorem outcome_attributes (cx : Context) (r : Reader) (found : List Attribute) :
    (attributes cx r found).outcome = Reader.attributes cx r found := by
  rw [attributes, Reader.attributes_eq]
  refine outcome_ite (fun _ => rfl) fun _ => outcome_ite (fun _ => rfl) fun _ =>
    outcome_follow (outcome_attr ..) fun found read => outcome_follow rfl fun kept listed => ?_
  exact outcome_attributes cx kept.2 kept.1
  termination_by r.rest.length
  decreasing_by
    rw [Reader.rest_of_keepAttribute listed]
    rw [outcome_attr] at read
    exact Nat.lt_of_lt_of_le (Reader.length_lt_of_attr read) (Reader.length_skipBlanks_le r)

/-- Read the start tag of an element at a given depth. -/
def startTag (r : Reader) (cx : Context) (depth : Nat) (scope : Scope) :
    Traced (StartTag × Reader) :=
  if depth > cx.options.maxDepth then quiet <| r.fail (.tooDeep cx.options.maxDepth)
  else do
    let r ← quiet <| r.expect '<'
    let (written, r) ← quiet <| r.name cx.options
    let (found, r) ← attributes cx r []
    let scope := scope.declare found.reverse
    let name := QName.ofText written
    let (uri, r) ← quiet <| r.elementUri cx.options scope name
    let (attributes, r) ← quiet <| Reader.resolveAttributes cx.options scope r found.reverse
    let (closed, r) ← quiet r.tagEnd
    return (⟨name, uri, attributes, scope, closed⟩, r)

theorem outcome_startTag (r : Reader) (cx : Context) (depth : Nat) (scope : Scope) :
    (startTag r cx depth scope).outcome = r.startTag cx depth scope :=
  outcome_ite (fun _ => rfl) fun _ => outcome_follow rfl fun _ _ =>
    outcome_follow rfl fun ⟨_, _⟩ _ => outcome_follow (outcome_attributes ..) fun ⟨_, _⟩ _ =>
      outcome_follow rfl fun ⟨_, _⟩ _ => outcome_follow rfl fun ⟨_, _⟩ _ =>
        outcome_follow rfl fun ⟨_, _⟩ _ => rfl

/-! ## Content -/

/-- Read a piece of markup that is no end tag. -/
def item (r : Reader) (cx : Context) (level : Level) : Traced (Item × Reader) :=
  if r.startsWith "<![CDATA[" then do
    let (content, r) ← quiet <| r.cdataSection cx.options
    return (.leaf (.cdata content), r)
  else if r.startsWith "<!--" then do
    let (content, r) ← quiet <| r.comment cx.options
    return (.leaf (.comment content), r)
  else if r.startsWith "<?" then do
    let ((target, data), r) ← quiet <| r.instruction cx.options
    return (.leaf (.instruction target data), r)
  else do
    let (tag, r) ← startTag r cx (level.depth + 1) level.scope
    return (if tag.closed then .leaf tag.kind else .start tag, r)

theorem outcome_item (r : Reader) (cx : Context) (level : Level) :
    (item r cx level).outcome = r.item cx level :=
  outcome_ite (fun _ => outcome_follow rfl fun ⟨_, _⟩ _ => rfl)
    fun _ => outcome_ite (fun _ => outcome_follow rfl fun ⟨_, _⟩ _ => rfl)
    fun _ => outcome_ite (fun _ => outcome_follow rfl fun ⟨⟨_, _⟩, _⟩ _ => rfl)
    fun _ => outcome_follow (outcome_startTag ..) fun ⟨_, _⟩ _ => rfl

/-- Read content, round by round. -/
def content (cx : Context) (base : Level) (r : Reader) (here : List Draft)
    (path : List OpenElement) (pending : Pending) : Traced (List Draft × Reader) :=
  match more : r.rest with
  | [] =>
    match path with
    | [] => inRound cx <| quiet <| .ok ((pending.flush cx.options here).reverse, r)
    | element :: path =>
      inRound cx <|
        (quiet <| r.report cx.options (.endOfText (some .elementContent))).follow fun next h =>
          content cx base next (element.close (pending.flush cx.options here)) path .empty
  | c :: _ =>
    if c == '<' then
      if r.startsWith "</" then
        match path with
        | [] => inRound cx <| quiet <| .ok ((pending.flush cx.options here).reverse, r)
        | element :: path =>
          inRound cx <| (quiet <| r.endTag cx.options element.tag.name).follow fun next h =>
            content cx base next (element.close (pending.flush cx.options here)) path .empty
      else
        inRound cx <| (item r cx (base.inside path)).follow fun
          | (.leaf kind, next), h =>
            content cx base next (.written kind [] :: (pending.flush cx.options here)) path .empty
          | (.start tag, next), h =>
            content cx base next [] (⟨tag, pending.flush cx.options here⟩ :: path) .empty
    else if c == '&' then
      (reference r cx).follow fun
        | (.text found, next), h => do
          let pending ← quiet <| next.extend cx.options pending found
          content cx base next here path pending
        | (.entity entity replacement, next), h =>
          if isPlainText replacement then do
            let pending ← quiet <| next.extend cx.options pending replacement.toList
            content cx base next here path pending
          else do
            let (children, inner) ←
              content (cx.opening entity) (base.inside path) (next.enter replacement) [] [] .empty
            if inner.atEnd then
              content cx base (next.resume inner)
                (Draft.addCopies cx.options.noBlanks (pending.flush cx.options here) children) path
                .empty
            else quiet <| inner.fail (.endTagInEntity entity)
    else if r.startsWith "]]>" then
      inRound cx <| (quiet <| r.report cx.options .sectionEndInText).follow fun next h => do
        let pending ← quiet <| (next.skip 3).extend cx.options pending "]]>".toList
        content cx base (next.skip 3) here path pending
    else
      inRound cx <| (quiet <| r.char cx.options).follow fun
        | (c, next), h => do
          let pending ← quiet <| next.extend cx.options pending [c]
          content cx base next here path pending
  termination_by (cx.unopened, r.rest.length, path.length)
  decreasing_by
    · rw [Reader.rest_report h]; exact .right _ (.right _ (Nat.lt_succ_self _))
    · exact .right _ (.left _ _ (Reader.length_lt_of_endTag h))
    · exact .right _ (.left _ _ (Reader.length_lt_of_item (outcome_item r .. ▸ h)))
    · exact .right _ (.left _ _ (Reader.length_lt_of_item (outcome_item r .. ▸ h)))
    · exact .right _ (.left _ _ (Reader.length_lt_of_reference h))
    · exact .right _ (.left _ _ (Reader.length_lt_of_reference h))
    · exact .left _ _ (Reader.unopened_lt_of_reference h)
    · exact .right _ (.left _ _ (by simpa using Reader.length_lt_of_reference h))
    · refine .right _ (.left _ _ ?_)
      rw [← Reader.rest_report h]
      exact Reader.length_skip_lt (by decide) (by simp [Reader.rest_report h, more])
    · exact .right _ (.left _ _ (Reader.length_lt_of_char h))

theorem outcome_content (cx : Context) (base : Level) (r : Reader) (here : List Draft)
    (path : List OpenElement) (pending : Pending) :
    (content cx base r here path pending).outcome = r.content cx base here path pending := by
  rw [content.eq_def, Reader.content_eq]
  cases more : r.rest with
  | nil =>
    cases path with
    | nil => rfl
    | cons element path =>
      exact outcome_follow rfl fun next noted => outcome_content cx base next ..
  | cons c tail =>
    refine outcome_ite (fun _ => outcome_ite (fun _ => ?_) fun _ => ?_) fun _ =>
      outcome_ite (fun _ => ?_) fun _ => outcome_ite (fun _ => ?_) fun _ => ?_
    · cases path with
      | nil => rfl
      | cons element path =>
        exact outcome_follow rfl fun next closed => outcome_content cx base next ..
    · refine outcome_follow (outcome_item ..) fun found read => ?_
      rcases found with ⟨kind | tag, next⟩
      · exact outcome_content cx base next ..
      · exact outcome_content cx base next ..
    · refine outcome_follow rfl fun found read => ?_
      rcases found with ⟨found | ⟨entity, replacement⟩, next⟩
      · exact outcome_follow rfl fun pending _ => outcome_content cx base next ..
      · exact outcome_ite
          (fun _ => outcome_follow rfl fun pending _ => outcome_content cx base next ..)
          fun _ => outcome_follow (outcome_content (cx.opening entity) (base.inside path)
            (next.enter replacement) [] [] .empty) fun ⟨children, inner⟩ _ =>
              outcome_ite (fun _ => outcome_content cx base (next.resume inner) ..) fun _ => rfl
    · refine outcome_follow rfl fun next noted => outcome_follow rfl fun pending _ => ?_
      have shorter : (next.skip 3).rest.length < r.rest.length := by
        rw [← Reader.rest_report noted]
        exact Reader.length_skip_lt (by decide) (by simp [Reader.rest_report noted, more])
      exact outcome_content cx base (next.skip 3) ..
    · exact outcome_follow rfl fun read found => outcome_follow rfl fun pending _ =>
        outcome_content cx base read.2 ..
  termination_by (cx.unopened, r.rest.length, path.length)
  decreasing_by
    · rw [Reader.rest_report noted]
      exact .right _ (.right _ (Nat.lt_succ_self _))
    · exact .right _ (.left _ _ (Reader.length_lt_of_endTag closed))
    · exact .right _ (.left _ _ (Reader.length_lt_of_item (outcome_item r .. ▸ read)))
    · exact .right _ (.left _ _ (Reader.length_lt_of_item (outcome_item r .. ▸ read)))
    · exact .right _ (.left _ _ (Reader.length_lt_of_reference read))
    · exact .right _ (.left _ _ (Reader.length_lt_of_reference read))
    · exact .left _ _ (Reader.unopened_lt_of_reference read)
    · exact .right _ (.left _ _ (by simpa using Reader.length_lt_of_reference read))
    · exact .right _ (.left _ _ shorter)
    · exact .right _ (.left _ _ (Reader.length_lt_of_char found))

/-- Read an element at the top level of a document. -/
def rootElement (r : Reader) (cx : Context) : Traced (Draft × Reader) := do
  let (tag, r) ← startTag r cx 1 Scope.initial
  if tag.closed then return (.written tag.kind [], r)
  else
    let (children, r) ← content cx ⟨1, tag.scope⟩ r [] [] .empty
    let element := .written tag.kind children
    if r.atEnd then
      return (element, ← quiet <| r.report cx.options (.endOfText (some .elementContent)))
    else return (element, ← quiet <| r.endTag cx.options tag.name)

theorem outcome_rootElement (r : Reader) (cx : Context) :
    (rootElement r cx).outcome = r.rootElement cx :=
  outcome_follow (outcome_startTag ..) fun ⟨_, _⟩ _ => outcome_ite (fun _ => rfl) fun _ =>
    outcome_follow (outcome_content ..) fun ⟨_, _⟩ _ => outcome_ite
      (fun _ => outcome_follow rfl fun _ _ => rfl) fun _ => outcome_follow rfl fun _ _ => rfl

/-! ## Whole documents -/

/-- Parse a text, round by round. -/
def parse (options : ParseOptions) (text : String) : Traced DocumentDraft := do
  let (declaration, r) ← quiet <| (Reader.ofText text).head
  let (nodes, r) ← quiet <| Reader.misc options r []
  let ((nodes, table), r) ← quiet <| r.typeDeclaration options nodes
  if r.atEnd then quiet <| r.fail .noRoot
  else if !r.sees '<' then quiet <| r.fail .contentBeforeRoot
  else
    let (root, r) ← rootElement r ⟨options, table, []⟩
    let (nodes, r) ← quiet <| Reader.misc options r (root :: nodes)
    let r ← if r.atEnd then pure r else quiet <| r.report options .contentAfterRoot
    return {
      version := declaration.map (·.version)
      encoding := declaration.bind (·.encoding)
      standalone := declaration.bind (·.standalone)
      diagnostics := r.diagnostics
      nodes := nodes.reverse }

/-- The rounds are those of the parse. -/
theorem outcome_parse (options : ParseOptions) (text : String) :
    (parse options text).outcome = Xml.parse options text :=
  outcome_follow rfl fun ⟨_, _⟩ _ => outcome_follow rfl fun ⟨_, _⟩ _ =>
    outcome_follow rfl fun ⟨⟨_, _⟩, _⟩ _ => outcome_ite (fun _ => rfl) fun _ =>
      outcome_ite (fun _ => rfl) fun _ => outcome_follow (outcome_rootElement ..) fun ⟨_, _⟩ _ =>
        outcome_follow rfl fun ⟨_, _⟩ _ =>
          outcome_ite (fun _ => rfl) fun _ => outcome_follow rfl fun _ _ => rfl

end Traced
end Markup.Xml
