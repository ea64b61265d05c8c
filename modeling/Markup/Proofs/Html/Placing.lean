import Markup.Proofs.Html.Built
import Markup.Proofs.Html.Growth
import Markup.Proofs.Store.Nesting

/-!
# What a token comes to

A start tag is placed in three steps: what it ends is closed, the part of the structure that it goes
into is made, and then its element is created, unless too many elements are open. No other token
can fail.
-/

namespace Markup.Html

namespace Builder

open Document

variable {options : ParseOptions} {b b' : Builder} {lexeme : Lexeme} {failure : ParseFailure}
  {parent : NodeId} {kind : NodeKind}

/-- The builder with what was noted while a token was read. -/
def hear (b : Builder) (lexeme : Lexeme) : Builder :=
  { b with reports := lexeme.reports.reverse ++ b.reports }

/-- The builder as a start tag finds it: what the tag ends is closed, and the part of the structure
that it goes into is made. -/
def ready (options : ParseOptions) (b : Builder) (tag : String) : Builder :=
  if options.noImplied then b.closeEnded tag else (b.closeEnded tag).prepare tag

/-- A start tag is met with as many elements open as there may be. Tags of the structure open no
element of their own. -/
def MeetsLimit (b : Builder) (options : ParseOptions) (lexeme : Lexeme) : Prop :=
  ∃ tag attributes closed rawText, lexeme.token = .start tag attributes closed rawText ∧
    (!options.noImplied && isStructural tag) = false ∧
    options.maxDepth ≤ ((b.hear lexeme).ready options tag).opened.length

theorem placeElement_eq_error {position : Position} {tag rawText : String}
    {attributes : List Attribute} {closed : Bool} :
    placeElement options b position tag attributes closed rawText = .error failure ↔
      options.maxDepth ≤ (b.ready options tag).opened.length ∧
        failure = ⟨.tooDeep options.maxDepth, some position, []⟩ := by
  unfold placeElement
  dsimp only
  rw [← ready]
  split
  · rename_i deep
    simp [deep, eq_comm]
  · rename_i shallow
    simp only [shallow, false_and, iff_false]
    split
    · exact nofun
    · split <;> exact nofun

/-- A token fails only if it is a start tag that would nest too deeply. -/
theorem place_eq_error : place options b lexeme = .error failure ↔
    b.MeetsLimit options lexeme ∧
      failure = ⟨.tooDeep options.maxDepth, some lexeme.position, []⟩ := by
  unfold place MeetsLimit
  dsimp only
  split <;> rename_i shown
  · simp [shown]
  · rename_i tag attributes closed rawText
    split
    · rename_i folded
      refine iff_of_false nofun ?_
      rintro ⟨⟨_, _, _, _, same, separate, -⟩, -⟩
      cases shown.symm.trans same
      exact absurd (folded.symm.trans separate) nofun
    · rename_i separate
      rw [placeElement_eq_error]
      constructor
      · rintro ⟨deep, rfl⟩
        exact ⟨⟨tag, attributes, closed, rawText, shown, Bool.not_eq_true _ ▸ separate, deep⟩, rfl⟩
      · rintro ⟨⟨_, _, _, _, same, -, deep⟩, rfl⟩
        cases shown.symm.trans same
        exact ⟨deep, rfl⟩
  all_goals simp [shown]

/-- What a start tag comes to: an element that is left without content, one that holds the raw text
after the tag, or one that is opened. -/
theorem of_placeElement {position : Position} {tag rawText : String} {attributes : List Attribute}
    {closed : Bool}
    (placed : placeElement options b position tag attributes closed rawText = .ok b') :
    (b.ready options tag).opened.length < options.maxDepth ∧
      ∃ made, made = (b.ready options tag).append (b.ready options tag).current
          (.element (Cursor.splitName tag) none attributes) ∧
        (b' = made.2 ∨ isVoid tag = false ∧
          (b' = (made.2.append made.1 (.text rawText)).2 ∨ b' = made.2.push made.1 tag)) := by
  unfold placeElement at placed
  dsimp only at placed
  rw [← ready] at placed
  split at placed
  · cases placed
  · rename_i shallow
    refine ⟨Nat.lt_of_not_le shallow, _, rfl, ?_⟩
    split at placed
    · exact .inl (Except.ok.inj placed).symm
    · rename_i content
      have solid : isVoid tag = false := by simp_all
      split at placed
      · obtain rfl := Except.ok.inj placed
        split
        · exact .inl rfl
        · exact .inr ⟨solid, .inl rfl⟩
      · exact .inr ⟨solid, .inr (Except.ok.inj placed).symm⟩

/-- Text is left out, or put where new nodes go, or put into the body. -/
theorem placeText_cases (options : ParseOptions) (b : Builder) (content : String) :
    placeText options b content = b ∨ placeText options b content = b.add (.text content) ∨
      options.noImplied = false ∧
        placeText options b content = b.body.2.add (.text content) := by
  unfold placeText
  dsimp only
  split_ifs with _ _ _ only
  · exact .inl rfl
  · exact .inl rfl
  · exact .inr (.inl rfl)
  · exact .inr (.inr ⟨Bool.not_eq_true _ ▸ only, rfl⟩)
  · exact .inl rfl
  · exact .inr (.inl rfl)

/-- What a token that is placed comes to, once it is heard of. -/
inductive Places (options : ParseOptions) (b : Builder) (lexeme : Lexeme) : Builder → Prop
  | doctype {name : String} {publicId systemId : Option String}
    (shown : lexeme.token = .doctype name publicId systemId) :
    Places options b lexeme (b.append root (.doctype name publicId systemId)).2
  | part {tag rawText : String} {attributes : List Attribute} {closed : Bool}
    (shown : lexeme.token = .start tag attributes closed rawText)
    (implied : options.noImplied = false) :
    Places options b lexeme (b.placeStructural lexeme.position tag attributes)
  | element {tag rawText : String} {attributes : List Attribute} {closed : Bool} {b' : Builder}
    (shown : lexeme.token = .start tag attributes closed rawText)
    (separate : options.noImplied = true ∨ isStructural tag = false)
    (placed : placeElement options b lexeme.position tag attributes closed rawText = .ok b') :
    Places options b lexeme b'
  | finish {tag : String} (shown : lexeme.token = .finish tag) :
    Places options b lexeme (placeEnd options b lexeme.position tag)
  | text {content : String} (shown : lexeme.token = .text content) :
    Places options b lexeme (placeText options b content)
  | comment {content : String} (shown : lexeme.token = .comment content) :
    Places options b lexeme (b.add (.comment content))
  | skipped (shown : lexeme.token = .skipped) : Places options b lexeme b

theorem places_of_place (placed : place options b lexeme = .ok b') :
    Places options (b.hear lexeme) lexeme b' := by
  unfold place at placed
  dsimp only at placed
  rw [← hear] at placed
  generalize b.hear lexeme = b at placed ⊢
  split at placed <;> rename_i shown
  · exact Except.ok.inj placed ▸ .doctype shown
  · split at placed <;> rename_i folded
    · have implied : options.noImplied = false := by simp_all
      exact Except.ok.inj placed ▸ .part shown implied
    · refine .element shown ?_ placed
      cases only : options.noImplied <;> simp_all
  · exact Except.ok.inj placed ▸ .finish shown
  · exact Except.ok.inj placed ▸ .text shown
  · exact Except.ok.inj placed ▸ .comment shown
  · exact Except.ok.inj placed ▸ .skipped shown

theorem isSound_hear (sound : b.IsSound) : (b.hear lexeme).IsSound :=
  ⟨sound.linked, sound.hung, sound.top, sound.opened⟩

theorem top_append (linked : b.doc.WellLinked) (live : b.doc.IsLive parent) :
    (b.append parent kind).2.doc.elements root = b.doc.elements root ++
      if parent = root ∧ kind.isElement = true then [(b.append parent kind).1] else [] := by
  have more : Extended b.doc (b.append parent kind).2.doc parent (b.append parent kind).1 kind :=
    extended_grow linked live kind
  by_cases top : parent = root
  · subst top
    rw [more.elements_parent linked live]
    simp
  · rw [more.elements_kept linked linked.root_live (Ne.symm top)]
    simp [top]

theorem doc_closeAll (b : Builder) (position : Position) : (b.closeAll position).doc = b.doc := by
  unfold closeAll
  rw [doc_reports _ _ fun b entry => by split <;> rfl]

end Builder

/-! ## Texts -/

/-- The tokens of a text, of which a document type declaration can only be the first. -/
def lexemesOf (text : String) : List Lexeme :=
  let c := (Cursor.ofText text).skipBlanks
  if c.startsIgnoringCase "<!doctype" then c.doctype.1 :: c.doctype.2.lexemes else c.lexemes

variable {options : ParseOptions} {text : String}

theorem parse_eq : parse options text =
    let c := (Cursor.ofText text).skipBlanks
    if c.rest.isEmpty then .error ⟨.emptyDocument, some c.position, []⟩
    else (lexemesOf text).foldlM (Builder.place options) .empty >>= fun built =>
      built.finish options (c.position.after c.rest) := rfl

end Markup.Html
