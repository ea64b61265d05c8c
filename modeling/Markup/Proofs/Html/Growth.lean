import Markup.Html.Parser
import Markup.Proofs.Outcome
import Markup.Proofs.Store.Growth

/-!
# What lenient parsing keeps

A lenient parse builds its document by growth alone. The attributes that come in are those of start
tags, and these are in no namespace, whatever prefixes they are written with.
-/

namespace Markup.Html

/-! ## Attributes of start tags -/

/-- The attributes of a start tag. -/
def Token.attributes : Token → List Attribute
  | .start _ attributes _ _ => attributes
  | _ => []

namespace Cursor

/-- Whether no attribute is in a namespace. -/
def AreBare (attributes : List Attribute) : Prop := ∀ attr ∈ attributes, attr.uri = none

theorem areBare_addAttribute (c : Cursor) {before : List Attribute} (bare : AreBare before)
    (name value : String) : AreBare (c.addAttribute before name value).1 := by
  unfold addAttribute
  split
  · exact bare
  · exact List.forall_mem_cons.mpr ⟨rfl, bare⟩

theorem areBare_attributes (c : Cursor) {before : List Attribute} (bare : AreBare before) :
    AreBare (c.attributes before).1 := by
  fun_induction attributes c before with
  | case1 | case2 | case3 => exact fun attr member => bare attr (List.mem_reverse.mp member)
  | case4 c before _ _ _ _ _ _ ih => exact ih bare
  | case5 c before _ _ _ _ _ _ read ih =>
    refine ih ?_
    exact areBare_addAttribute _ bare _ _

theorem areBare_lexeme (c : Cursor) : AreBare c.lexeme.1.token.attributes := by
  have commented : ∀ c : Cursor, AreBare c.comment.1.token.attributes := by
    intro c
    unfold comment
    dsimp only
    split <;> exact nofun
  have started : ∀ c : Cursor, AreBare c.startTag.1.token.attributes := fun c =>
    areBare_attributes (c.skip 1).tagName.2 nofun
  unfold lexeme
  dsimp only
  split_ifs
  · exact commented _
  · exact nofun
  · exact nofun
  · exact nofun
  · exact started _
  · exact nofun

theorem attributes_doctype (c : Cursor) : c.doctype.1.token.attributes = [] := rfl

/-- The attributes of all start tags are in no namespace. -/
theorem areBare_lexemes (c : Cursor) : ∀ lexeme ∈ c.lexemes, AreBare lexeme.token.attributes := by
  fun_induction lexemes c with
  | case1 => exact nofun
  | case2 c more ih => exact List.forall_mem_cons.mpr ⟨c.areBare_lexeme, ih⟩

end Cursor

/-! ## Builders -/

namespace Builder

open Document

variable {sort : Attribute → Prop} {motive : Document → Prop} {b b' : Builder}
  {options : ParseOptions}

section

variable (kept : IsKept sort motive) (before : motive b.doc)
include kept before

theorem kept_html : motive b.html.2.doc := by
  unfold html
  split
  · exact before
  · exact kept.grow before nofun

theorem kept_head : motive b.head.2.doc := by
  have before := kept_html kept before
  unfold head
  dsimp only
  split
  · exact before
  · split
    · exact kept.insertBefore _ _ (kept.create before nofun)
    · exact kept.grow before nofun

theorem kept_openHead : motive b.openHead.2.doc := by
  have before := kept_head kept before
  unfold openHead
  dsimp only
  split <;> exact before

theorem kept_body : motive b.body.2.doc := by
  have before := kept_html kept before
  unfold body
  dsimp only
  split
  · exact before
  · exact kept.grow before nofun

theorem kept_addMissing (id : NodeId) {attributes : List Attribute}
    (only : ∀ attr ∈ attributes, sort attr) : motive (addMissing b.doc id attributes) := by
  unfold addMissing
  generalize b.doc = doc at before ⊢
  induction attributes generalizing doc with
  | nil => exact before
  | cons attr rest ih =>
    obtain ⟨first, later⟩ := List.forall_mem_cons.mp only
    rw [List.foldl_cons]
    apply ih later
    split
    · exact before
    · exact kept.setAttribute id before first

theorem kept_placeStructural (position : Position) (tag : String) {attributes : List Attribute}
    (only : ∀ attr ∈ attributes, sort attr) :
    motive (b.placeStructural position tag attributes).doc := by
  unfold placeStructural
  split
  · exact kept_addMissing kept (kept_html kept before) _ only
  · split
    · exact kept_addMissing kept (kept_body kept before) _ only
    · split
      · exact before
      · exact kept_addMissing kept (kept_openHead kept before) _ only

theorem kept_placeElement {position : Position} {tag rawText : String}
    {attributes : List Attribute} {closed : Bool} (only : ∀ attr ∈ attributes, sort attr)
    (placed : placeElement options b position tag attributes closed rawText = .ok b') :
    motive b'.doc := by
  unfold placeElement at placed
  dsimp only at placed
  have ready : motive (if options.noImplied then b.closeEnded tag
      else (b.closeEnded tag).prepare tag).doc := by
    split
    · exact before
    · unfold prepare
      split
      · exact kept_openHead kept before
      · exact kept_body kept before
  generalize (if options.noImplied then b.closeEnded tag
    else (b.closeEnded tag).prepare tag) = prepared at placed ready
  have added : motive (prepared.doc.grow prepared.current
      (.element (Cursor.splitName tag) none attributes)) := kept.grow ready only
  split at placed
  · cases placed
  · split at placed
    · exact Except.ok.inj placed ▸ added
    · split at placed
      · obtain rfl := Except.ok.inj placed
        split
        · exact added
        · exact kept.grow added nofun
      · exact Except.ok.inj placed ▸ added

theorem kept_placeText (content : String) : motive (placeText options b content).doc := by
  unfold placeText
  dsimp only
  split_ifs
  · exact before
  · exact before
  · exact kept.grow before nofun
  · exact kept.grow (kept_body kept before) nofun
  · exact before
  · exact kept.grow before nofun

omit kept before in
theorem doc_reports {α : Type} (entries : List α) (step : Builder → α → Builder)
    (only : ∀ b entry, (step b entry).doc = b.doc) (b : Builder) :
    (entries.foldl step b).doc = b.doc := by
  induction entries generalizing b with
  | nil => rfl
  | cons entry rest ih => exact (ih _).trans (only b entry)

omit kept before in
theorem doc_placeEnd (position : Position) (tag : String) :
    (placeEnd options b position tag).doc = b.doc := by
  unfold placeEnd
  split
  · rfl
  · split
    · rfl
    · split
      · rfl
      · refine (doc_reports _ _ ?_ _).trans rfl
        exact fun _ _ => rfl

theorem kept_place {lexeme : Lexeme} (only : ∀ attr ∈ lexeme.token.attributes, sort attr)
    (placed : place options b lexeme = .ok b') : motive b'.doc := by
  unfold place at placed
  have reported : motive
      { b with reports := lexeme.reports.reverse ++ b.reports : Builder }.doc := before
  generalize { b with reports := lexeme.reports.reverse ++ b.reports } = b₁ at placed reported
  clear before
  have before := reported
  dsimp only at placed
  split at placed
  · exact Except.ok.inj placed ▸ kept.grow before nofun
  · rename_i shown
    rw [shown] at only
    split at placed
    · exact Except.ok.inj placed ▸ kept_placeStructural kept before _ _ only
    · exact kept_placeElement kept before only placed
  · rw [← Except.ok.inj placed, doc_placeEnd]
    exact before
  · exact Except.ok.inj placed ▸ kept_placeText kept before _
  · exact Except.ok.inj placed ▸ kept.grow before nofun
  · exact Except.ok.inj placed ▸ before

theorem kept_places {lexemes : List Lexeme}
    (only : ∀ lexeme ∈ lexemes, ∀ attr ∈ lexeme.token.attributes, sort attr)
    (placed : lexemes.foldlM (place options) b = .ok b') : motive b'.doc := by
  induction lexemes generalizing b with
  | nil => exact Except.ok.inj placed ▸ before
  | cons lexeme rest ih =>
    obtain ⟨first, later⟩ := List.forall_mem_cons.mp only
    rw [List.foldlM_cons] at placed
    obtain ⟨middle, one, others⟩ := bind_eq_ok.mp placed
    exact ih (kept_place kept before first one) later others

/-- What is finished is a document that was built, with the reports. -/
theorem kept_finish {position : Position} {doc : Document}
    (finished : b.finish options position = .ok doc) :
    ∃ built, motive built ∧ doc = { built with diagnostics := doc.diagnostics } := by
  have closed : motive (b.closeAll position).doc := by
    unfold closeAll
    rw [doc_reports]
    · exact before
    · intro b entry
      split <;> rfl
  unfold finish at finished
  dsimp only at finished
  split at finished
  · obtain rfl := Except.ok.inj finished
    exact ⟨_, closed, rfl⟩
  · split at finished
    · cases finished
    · obtain rfl := Except.ok.inj finished
      exact ⟨_, kept_body kept closed, rfl⟩

end

end Builder

/-- What growth keeps, if all attributes in no namespace may come in, holds of a document that was
parsed leniently, up to the reports. -/
theorem kept_parse {sort : Attribute → Prop} {motive : Document → Prop}
    (kept : Document.IsKept sort motive) (bare : ∀ attr, attr.uri = none → sort attr)
    (start : motive .empty) {options : ParseOptions} {text : String} {doc : Document}
    (parsed : parse options text = .ok doc) :
    ∃ built, motive built ∧ doc = { built with diagnostics := doc.diagnostics } := by
  unfold parse at parsed
  dsimp only at parsed
  split at parsed
  · cases parsed
  · obtain ⟨built, placed, finished⟩ := bind_eq_ok.mp parsed
    refine Builder.kept_finish kept (Builder.kept_places kept start ?_ placed) finished
    have only : ∀ c : Cursor, ∀ lexeme ∈ c.lexemes, ∀ attr ∈ lexeme.token.attributes, sort attr :=
      fun c lexeme member attr listed => bare attr (c.areBare_lexemes lexeme member attr listed)
    split
    · refine List.forall_mem_cons.mpr ⟨?_, only _⟩
      rw [Cursor.attributes_doctype]
      exact nofun
    · exact only _

end Markup.Html
