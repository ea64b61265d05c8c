import Markup.Proofs.Xml.Inlining
import Markup.Proofs.Xml.Located

/-!
# Problems in replacement text

What the parser reports is at a place of the text that it was given, told by the bytes, the line
feeds, and the characters after the last of them that stand before it. What it meets in replacement
text, in however many entities inside of one another, is reported just after the outermost
reference: the reader of replacement text covers no other place. Where such a reading fails, the
reading around it fails with the same report.
-/

namespace Markup

/-! ## What positions tell -/

namespace Position

variable {position : Position} {before : List Char}

/-- A position tells how much text stands before it. -/
structure Tells (position : Position) (before : List Char) : Prop where
  offset : position.offset = Text.byteLength before
  line : position.line = 1 + before.count '\n'
  column : position.column = 1 + (before.reverse.takeWhile (· != '\n')).length

theorem Tells.next (tells : position.Tells before) (c : Char) :
    (position.next c).Tells (before ++ [c]) where
  offset := by
    have moved := offset_after position [c]
    rw [after_cons, after_nil] at moved
    rw [moved, tells.offset, Text.byteLength_append]
  line := by
    rw [Position.next, List.count_append, ← Nat.add_assoc, ← tells.line]
    split <;> rename_i feed <;> simp_all
  column := by
    rw [Position.next, List.reverse_append, List.reverse_singleton, List.singleton_append]
    split <;> rename_i feed
    · rw [List.takeWhile_cons_of_neg (by simpa using feed)]
      rfl
    · rw [List.takeWhile_cons_of_pos (by simpa using feed), List.length_cons, ← Nat.add_assoc,
        ← tells.column]

theorem tells_start_after (before : List Char) : (start.after before).Tells before := by
  have general (text : List Char) : ∀ {position : Position} {before : List Char},
      position.Tells before → (position.after text).Tells (before ++ text) := by
    induction text with
    | nil => simp
    | cons c rest ih =>
      intro position before tells
      simpa using ih (tells.next c)
  exact general before (show start.Tells [] from ⟨rfl, rfl, rfl⟩)

/-- A position is that of a place between two characters of a text, and tells what stands before. -/
structure IsTrue (position : Position) (text : String) : Prop where
  inside : position.offset ≤ Text.byteLength text.toList
  tells : ∃ before behind, text.toList = before ++ behind ∧ position.Tells before

theorem isTrue_start_after {text : String} {before behind : List Char}
    (split : text.toList = before ++ behind) : (start.after before).IsTrue text where
  inside := by
    rw [(tells_start_after before).offset, split, Text.byteLength_append]
    exact Nat.le_add_right ..
  tells := ⟨before, behind, split, tells_start_after before⟩

end Position

namespace Xml

open Reaching (reached)

open Reader

/-- A reader in the replacement text of entities inside of one another, how many there are, and the
text up to the end of the outermost reference. -/
inductive Expanding (text : String) : Nat → Reader → List Char → Prop
  | outermost {r next : Reader} {before : List Char} {cx : Context} {entity replacement : String}
      (come : (Reader.ofText text).Onward r) (split : text.toList = before ++ r.rest)
      (read : r.reference cx = .ok (.entity entity replacement, next)) :
      Expanding text 1 (next.enter replacement) (before ++ '&' :: (entity.toList ++ [';']))
  | nested {depth : Nat} {r next : Reader} {front : List Char} {cx : Context}
      {entity replacement : String} (within : Expanding text depth r front)
      (read : r.reference cx = .ok (.entity entity replacement, next)) :
      Expanding text (depth + 1) (next.enter replacement) front
  | onward {depth : Nat} {r next : Reader} {front : List Char}
      (within : Expanding text depth r front) (onward : r.Onward next) :
      Expanding text depth next front

/-- What was reported up to the end of a step, or up to where it stopped. -/
def reported {α : Type} [Reaching α] : Except ParseFailure α → List Diagnostic
  | .error failure => failure.diagnostics
  | .ok a => (reached a).diagnostics

/-- A step that reports what it meets just after some text. -/
structure Pinned {α : Type} [Reaching α] (front : List Char) (r : Reader)
    (step : Except ParseFailure α) : Prop where
  failed {failure : ParseFailure} : step = .error failure →
    ∃ position, failure.position = some position ∧ position.Tells front
  reports : ∃ more, reported step = r.diagnostics ++ more ∧
    ∀ report ∈ more, report.position.Tells front

/-- A step that fails as a part of it does, and reports what that reports. -/
structure Surfaces {α β : Type} [Reaching α] [Reaching β] (part : Except ParseFailure α)
    (step : Except ParseFailure β) : Prop where
  failed {failure : ParseFailure} : part = .error failure → step = .error failure
  reports : reported part <+: reported step

variable {text : String} {front : List Char} {depth : Nat} {r next : Reader} {cx : Context}
  {entity replacement : String}

/-! ## Places in replacement text -/

theorem Located.adds {α : Type} [Reaching α] {step : Except ParseFailure α}
    (located : Located r step) : r.Adds (reported step) := by
  cases step with
  | error failure => exact (located.failed rfl).reports
  | ok a => exact Onward.reports (located.found rfl)

namespace Expanding

/-- Everything in replacement text is reported at one place, just after the outermost reference. -/
theorem exists_origin (expanding : Expanding text depth r front) :
    front <+: text.toList ∧ ∃ position, r.origin = some position ∧ position.Tells front := by
  induction expanding with
  | @outermost r next before cx entity replacement come split read =>
    have whole : text.toList = before ++ '&' :: (entity.toList ++ [';']) ++ next.rest := by
      rw [split, spelled_of_reference read]
      simp
    have onward : (Reader.ofText text).Onward next :=
      come.trans ((located_reference r cx).found read)
    obtain ⟨passed, rest, moved⟩ := onward.read
    have same : passed = before ++ '&' :: (entity.toList ++ [';']) :=
      List.append_cancel_right (rest.symm.trans whole)
    have outside : next.place = next.position := by
      rw [Reader.place, onward.origin]
      rfl
    refine ⟨⟨next.rest, whole.symm⟩, next.place, rfl, ?_⟩
    rw [outside, moved, ← same]
    exact Position.tells_start_after passed
  | @nested depth r next front cx entity replacement within read ih =>
    obtain ⟨inside, position, origin, tells⟩ := ih
    have onward : r.Onward next := (located_reference r cx).found read
    have place : next.place = position := by
      rw [Reader.place, onward.origin, origin]
      rfl
    exact ⟨inside, next.place, rfl, place ▸ tells⟩
  | onward within onward ih =>
    obtain ⟨inside, position, origin, tells⟩ := ih
    exact ⟨inside, position, onward.origin.trans origin, tells⟩

theorem tells_of_covers (expanding : Expanding text depth r front) {position : Position}
    (covered : r.Covers position) : position.Tells front := by
  obtain ⟨-, place, origin, tells⟩ := expanding.exists_origin
  cases covered with
  | origin inside => exact Option.some.inj (origin.symm.trans inside) ▸ tells
  | ahead outside => cases outside.symm.trans origin

theorem pinned {α : Type} [Reaching α] {step : Except ParseFailure α}
    (expanding : Expanding text depth r front) (located : Located r step) :
    Pinned front r step where
  failed stopped := by
    obtain ⟨position, placed, covered⟩ := (located.failed stopped).position
    exact ⟨position, placed, expanding.tells_of_covers covered⟩
  reports := by
    obtain ⟨more, grown, covered⟩ := located.adds
    exact ⟨more, grown, fun report member => expanding.tells_of_covers (covered report member)⟩

end Expanding

/-! ## From replacement text to the text around it -/

theorem Surfaces.of_bind {α β : Type} [Reaching α] [Reaching β] {part : Except ParseFailure α}
    {rest : α → Except ParseFailure β} {step : Except ParseFailure β} (steps : step = part >>= rest)
    (kept : ∀ a, part = .ok a → (reached a).diagnostics <+: reported (rest a)) :
    Surfaces part step where
  failed stopped := by
    rw [steps, stopped]
    rfl
  reports := by
    rw [steps]
    cases ran : part with
    | error failure => exact List.prefix_rfl
    | ok a => exact kept a ran

theorem Located.prefix_reported {α : Type} [Reaching α] {step : Except ParseFailure α}
    (located : Located r step) : r.diagnostics <+: reported step := by
  obtain ⟨more, grown, -⟩ := located.adds
  exact ⟨more, grown.symm⟩

namespace Reader

theorem surfaces_attributeText (read : r.reference cx = .ok (.entity entity replacement, next))
    {quote : Option Char} (other : quote ≠ some '&')
    (plain : replacement.toList.contains '<' = false) (value : List Char) :
    Surfaces ((next.enter replacement).attributeText (cx.opening entity) none value)
      (r.attributeText cx quote value) := by
  have steps : r.attributeText cx quote value =
      (next.enter replacement).attributeText (cx.opening entity) none value >>= fun inside =>
        (next.resume inside.2).attributeText cx quote inside.1 := by
    rw [attributeText_eq, spelled_of_reference read]
    dsimp only
    rw [if_neg (by simpa using other), if_neg (by simp), if_pos (by decide), read]
    exact if_neg (Bool.eq_false_iff.mp plain)
  exact .of_bind steps fun inside _ =>
    (located_attributeText cx quote (next.resume inside.2) inside.1).prefix_reported

theorem surfaces_content (read : r.reference cx = .ok (.entity entity replacement, next))
    (markup : isPlainText replacement = false) (base : Level) (here : List Draft)
    (path : List OpenElement) (pending : Pending) :
    Surfaces (content (cx.opening entity) (base.inside path) (next.enter replacement) [] [] .empty)
      (content cx base r here path pending) := by
  have steps : content cx base r here path pending =
      content (cx.opening entity) (base.inside path) (next.enter replacement) [] [] .empty >>=
        fun inside =>
          if inside.2.atEnd then
            content cx base (next.resume inside.2)
              (Draft.addCopies cx.options.noBlanks (pending.flush cx.options here) inside.1)
              path .empty
          else inside.2.fail (.endTagInEntity entity) := by
    rw [content_eq, spelled_of_reference read]
    dsimp only
    rw [if_neg (by decide), if_pos (by decide), read]
    exact if_neg (by simp [markup])
  refine .of_bind steps fun inside _ => ?_
  split
  · exact (located_content cx base (next.resume inside.2) ..).prefix_reported
  · exact List.prefix_rfl

end Reader

/-! ## Whole documents -/

theorem isTrue_of_covers {position : Position} (covered : (Reader.ofText text).Covers position) :
    position.IsTrue text := by
  cases covered with
  | origin inside => cases inside
  | ahead outside split => exact Position.isTrue_start_after split

theorem isTrue_of_adds {reports : List Diagnostic} (added : (Reader.ofText text).Adds reports)
    {report : Diagnostic} (member : report ∈ reports) : report.position.IsTrue text := by
  obtain ⟨more, rfl, covered⟩ := added
  exact isTrue_of_covers (covered report member)

end Xml

namespace Document

open Xml Reader

end Document

/-! ## An element that is left open in replacement text -/

namespace Xml

open Reader

/-- A text is not parsed if its root element is not read. -/
theorem parse_eq_error {options : ParseOptions} {declaration : Option Declaration}
    {nodes : List Draft} {table : EntityTable} {start : Reader} {failure : ParseFailure}
    (opens : Opens options text declaration nodes table start) (begins : start.sees '<' = true)
    (stopped : start.rootElement ⟨options, table, []⟩ = .error failure) :
    parse options text = .error failure := by
  obtain ⟨r₁, early, r₂, headed, between, type⟩ := opens
  simp only [parse, headed, between, type, atEnd_of_sees begins, begins, stopped, bind, Except.bind]
  rfl

theorem Opens.onward {options : ParseOptions} {declaration : Option Declaration}
    {nodes : List Draft} {table : EntityTable} {start : Reader}
    (opens : Opens options text declaration nodes table start) :
    (Reader.ofText text).Onward start := by
  obtain ⟨r₁, early, r₂, headed, between, type⟩ := opens
  exact ((located_head _).found headed).trans (((located_misc ..).found between).trans
    ((located_typeDeclaration ..).found type))

/-- A text that declares an entity with a start tag in it, and refers to it. -/
def brokenText : String := "<!DOCTYPE a [<!ENTITY e \"<b>\">]><a\n>&e;</a>"

/-- What the content of the text is read against. -/
def broken : Context := ⟨{}, ⟨[("e", "<b>")], [], false⟩, []⟩

theorem exists_opens_broken : ∃ start,
    Opens {} brokenText none [.written (.doctype "a" none none) []] broken.entities start ∧
      start.rest = "<a\n>&e;</a>".toList ∧ start.log.expansions = 0 := by
  have named : IsName {} "a" := ⟨by decide, List.all_eq_true.mp (by decide), by decide⟩
  have declarable : IsDeclarable {} "e" "<b>" := {
    named := ⟨by decide, List.all_eq_true.mp (by decide), by decide⟩
    local_ := by decide
    free := rfl
    legal := List.all_eq_true.mp (by decide)
    plain := by simp }
  have spelled : brokenText.toList =
      writtenSubset "a" "e" "<b>" ++ '<' :: 'a' :: "\n>&e;</a>".toList := by decide
  exact exists_opens_subset named declarable spelled ⟨'a', _, rfl, by decide⟩

/-- The replacement text ends before the element that it begins. -/
theorem exists_content_broken (place : Position) (reports : List Diagnostic) : ∃ failure,
    content (broken.opening "e") ⟨1, .initial⟩
      ⟨"<b>".toList, .start, some place, ⟨reports, 1⟩⟩ [] [] .empty = .error failure := by
  let inside : Reader := ⟨"<b>".toList, .start, some place, ⟨reports, 1⟩⟩
  let last : Reader := ⟨[], Position.start.after "<b>".toList, some place, ⟨reports, 1⟩⟩
  have tag : inside.startTag (broken.opening "e") 2 .initial =
      .ok (⟨⟨none, "b"⟩, none, [], .initial, false⟩, last) := by cbv
  have item : inside.item (broken.opening "e") ⟨1, .initial⟩ =
      .ok (.start ⟨⟨none, "b"⟩, none, [], .initial, false⟩, last) := by
    rw [Reader.item, if_neg (by exact Bool.eq_false_iff.mp rfl),
      if_neg (by exact Bool.eq_false_iff.mp rfl), if_neg (by exact Bool.eq_false_iff.mp rfl)]
    exact bind_eq_ok.mpr ⟨_, tag, rfl⟩
  refine ⟨⟨.endOfText (some .elementContent), some place, reports.reverse⟩, ?_⟩
  show content _ _ inside _ _ _ = _
  rw [content_markup rfl, if_neg (by exact Bool.eq_false_iff.mp rfl)]
  refine (congrArg (· >>= _) item).trans ?_
  show content _ _ last _ _ _ = _
  rw [content_eq]
  rfl

/-- The document fails as the replacement text does. -/
theorem exists_broken : ∃ first next failure,
    (Reader.ofText brokenText).Onward first ∧ first.rest = "&e;</a>".toList ∧
    first.reference broken = .ok (.entity "e" "<b>", next) ∧
    content (broken.opening "e") ⟨1, .initial⟩ (next.enter "<b>") [] [] .empty = .error failure ∧
    (content broken ⟨1, .initial⟩ first [] [] .empty = .error failure →
      Document.ofXml {} brokenText = .error failure) := by
  obtain ⟨start, opens, rest, fresh⟩ := exists_opens_broken
  obtain ⟨_, position, origin, reports, _⟩ := start
  obtain rfl := rest
  obtain rfl := fresh
  let start : Reader := ⟨"<a\n>&e;</a>".toList, position, origin, ⟨reports, 0⟩⟩
  let first : Reader := ⟨"&e;</a>".toList, position.after "<a\n>".toList, origin, ⟨reports, 0⟩⟩
  let next : Reader := ⟨"</a>".toList, (position.after "<a\n>".toList).after "&e;".toList, origin,
    ⟨reports, 1⟩⟩
  have tag : start.startTag broken 1 .initial =
      .ok (⟨⟨none, "a"⟩, none, [], .initial, false⟩, first) := by cbv
  have read : first.reference broken = .ok (.entity "e" "<b>", next) := by cbv
  obtain ⟨failure, stopped⟩ := exists_content_broken next.place reports
  refine ⟨first, next, failure, opens.onward.trans ((located_startTag ..).found tag), rfl, read,
    stopped, fun surfaced => map_eq_error.mpr (parse_eq_error opens rfl ?_)⟩
  show start.rootElement broken = _
  rw [rootElement, tag]
  show content broken ⟨1, .initial⟩ first [] [] .empty >>= _ = _
  rw [surfaced]
  rfl

end Xml

namespace Document

open Xml Reader

end Document
end Markup
