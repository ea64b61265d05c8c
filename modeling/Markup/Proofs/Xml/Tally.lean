import Markup.Proofs.Xml.Events
import Markup.Proofs.Xml.Parsed

/-!
# How much text is built

Where blank text is kept, nothing that was read as character data is lost: whatever each character
counts for, the text nodes that are built count for as much as the events they are built from.
-/

namespace Markup

namespace Text

/-- What a text counts for, given what each character does. -/
def tally (weight : Char → Nat) (text : List Char) : Nat := (text.map weight).sum

variable {weight : Char → Nat} {left right : List Char}

@[simp] theorem tally_nil : tally weight [] = 0 := rfl

@[simp] theorem tally_append :
    tally weight (left ++ right) = tally weight left + tally weight right := by
  rw [tally, List.map_append, List.sum_append_nat]
  rfl

@[simp] theorem tally_reverse : tally weight left.reverse = tally weight left := by
  rw [tally, List.map_reverse, List.sum_reverse, tally]

end Text

mutual

/-- What the text nodes of a tree count for. -/
def Tree.tally (weight : Char → Nat) : Tree → Nat
  | .node (.text content) _ => Text.tally weight content.toList
  | .node _ children => tallyAll weight children

/-- What the text nodes of some trees count for. -/
def Tree.tallyAll (weight : Char → Nat) : List Tree → Nat
  | [] => 0
  | tree :: rest => tally weight tree + tallyAll weight rest

end

namespace Xml

mutual

/-- What the character data of an event counts for. -/
def Event.tally (weight : Char → Nat) : Event → Nat
  | .text content => Text.tally weight content
  | .leaf kind => (Tree.leaf kind).tally weight
  | .copied inside => tallyAll weight inside
  | _ => 0

/-- What the character data of events counts for. -/
def Event.tallyAll (weight : Char → Nat) : List Event → Nat
  | [] => 0
  | event :: rest => tally weight event + tallyAll weight rest

end

/-- What the text of drafts counts for. -/
def Draft.tallies (weight : Char → Nat) (drafts : List Draft) : Nat :=
  (drafts.map (·.toTree.tally weight)).sum

namespace Growth

/-- What all text counts for that was built so far. -/
def tally (weight : Char → Nat) (g : Growth) : Nat :=
  Draft.tallies weight g.here + (g.path.map (Draft.tallies weight ·.before)).sum +
    Text.tally weight g.pending.chars

end Growth

namespace Draft

variable {weight : Char → Nat} {draft : Draft} {drafts copies : List Draft}

@[simp] theorem tallies_nil : tallies weight [] = 0 := rfl

@[simp] theorem tallies_cons :
    tallies weight (draft :: drafts) = draft.toTree.tally weight + tallies weight drafts := rfl

theorem tallies_append {others : List Draft} :
    tallies weight (drafts ++ others) = tallies weight drafts + tallies weight others := by
  rw [tallies, List.map_append, List.sum_append_nat]
  rfl

@[simp] theorem tallies_reverse : tallies weight drafts.reverse = tallies weight drafts := by
  rw [tallies, List.map_reverse, List.sum_reverse, tallies]

theorem tallyAll_toTrees : Tree.tallyAll weight (toTrees drafts) = tallies weight drafts := by
  induction drafts with
  | nil => rfl
  | cons draft rest ih => rw [toTrees, Tree.tallyAll, ih, tallies_cons]

@[simp] theorem tally_text {content : String} {children : List Draft} :
    (written (.text content) children).toTree.tally weight = Text.tally weight content.toList := rfl

theorem tallies_addText {content : String} :
    tallies weight (addText false content drafts) =
      tallies weight drafts + Text.tally weight content.toList := by
  unfold addText
  split
  · rename_i nothing
    have empty : content = "" := by simpa using nothing
    simp [empty]
  · split
    · simp only [tallies_cons, tally_text, String.toList_append, Text.tally_append]
      omega
    · rw [tallies_cons, tally_text]
      omega

theorem tallies_addCopies :
    tallies weight (addCopies false drafts copies) =
      tallies weight drafts + tallies weight copies := by
  fun_induction addCopies false drafts copies with
  | case1 => rfl
  | case2 drafts content children rest ih =>
    rw [ih, tallies_addText, tallies_cons, tally_text]
    omega
  | case3 drafts draft rest other ih =>
    rw [ih, tallies_cons, tallies_cons, toTree]
    omega

end Draft

namespace Growth

variable {weight : Char → Nat} {options : ParseOptions} {g : Growth}

theorem tallies_flush (weight : Char → Nat) (g : Growth) (keeps : options.noBlanks = false) :
    Draft.tallies weight (g.flush options) =
      Draft.tallies weight g.here + Text.tally weight g.pending.chars := by
  rw [flush, Pending.flush, keeps, Draft.tallies_addText, String.toList_ofList, Text.tally_reverse]

theorem tally_close (keeps : options.noBlanks = false) :
    (g.close options).tally weight = g.tally weight := by
  obtain ⟨here, path, pending⟩ := g
  cases path with
  | nil => rfl
  | cons element path =>
    have flushed : Draft.tallies weight (pending.flush options here) = _ :=
      tallies_flush weight ⟨here, element :: path, pending⟩ keeps
    have inside : Tree.tallyAll weight (Draft.toTrees (pending.flush options here).reverse) = _ :=
      Draft.tallyAll_toTrees.trans Draft.tallies_reverse
    have closed : ((Growth.mk here (element :: path) pending).close options).tally weight =
        Tree.tallyAll weight (Draft.toTrees (pending.flush options here).reverse) +
          Draft.tallies weight element.before +
          (path.map (Draft.tallies weight ·.before)).sum := rfl
    rw [closed, inside, flushed, tally, List.map_cons, List.sum_cons]
    omega

theorem tally_result (keeps : options.noBlanks = false) (outside : g.path = []) :
    Draft.tallies weight (g.result options) = g.tally weight := by
  rw [result, Draft.tallies_reverse, tallies_flush weight g keeps, tally, outside]
  rfl

end Growth

variable {weight : Char → Nat} {options : ParseOptions} {g : Growth}

theorem tally_of_empty_pending {here : List Draft} {path : List OpenElement} :
    (Growth.mk here path .empty).tally weight =
      Draft.tallies weight here + (path.map (Draft.tallies weight ·.before)).sum := rfl

theorem tally_grow_text (content : List Char) :
    (Event.grow options g (.text content)).tally weight =
      g.tally weight + Text.tally weight content := by
  rw [Event.grow, Growth.tally, Growth.tally, Pending.chars_add, Text.tally_append,
    Text.tally_reverse]
  dsimp only
  omega

/-- A round adds to what is built what the round finds. -/
theorem tally_grow_of_advance (keeps : options.noBlanks = false) {cx : Context} {base : Level}
    {s t : Spot} {event : Event} (advance : Advance cx base s event t) :
    (event.grow options g).tally weight = g.tally weight + event.tally weight := by
  have flushed := Growth.tallies_flush weight g keeps
  cases advance with
  | reference | plain | sectionEnd | character => exact tally_grow_text _
  | leaf =>
    rw [Event.grow, tally_of_empty_pending, Draft.tallies_cons, flushed, Growth.tally, Event.tally,
      Draft.toTree, Draft.toTrees, Tree.leaf]
    omega
  | start =>
    rw [Event.grow, tally_of_empty_pending, List.map_cons, List.sum_cons, flushed, Growth.tally]
    simp only [Draft.tallies_nil, Event.tally]
    omega
  | stop | cut => exact Growth.tally_close keeps

/-- A run adds to what is built what its events count for. -/
theorem tally_growAll_of_run {cx : Context} {base : Level} {s t : Spot} {events : List Event}
    (keeps : cx.options.noBlanks = false) (run : Run cx base s events t) (g : Growth)
    (tags : g.tags = s.tags) :
    (growAll cx.options g events).tally weight = g.tally weight + Event.tallyAll weight events := by
  induction run generalizing g with
  | nil => rfl
  | advance first _ ih =>
    obtain ⟨tags', -⟩ := Reader.grow_of_advance first tags _
    rw [growAll, ih keeps _ tags', tally_grow_of_advance keeps first, Event.tallyAll]
    omega
  | @copied cx base r next last open_ t entity replacement inside events amp read markup run done _
      inner ih =>
    obtain ⟨closed, -⟩ := Reader.contentFrom_of_run (g := .empty) run rfl
    have outside : (growAll cx.options .empty inside).path = [] := List.map_eq_nil_iff.mp closed
    have nothing : Growth.empty.tally weight = 0 := rfl
    have within : (growAll cx.options .empty inside).tally weight =
      Growth.empty.tally weight + Event.tallyAll weight inside := inner keeps .empty rfl
    have flushed := Growth.tallies_flush weight g keeps
    have copied : (Event.grow cx.options g (.copied inside)).tally weight =
        g.tally weight + Event.tallyAll weight inside := by
      rw [Event.grow, tally_of_empty_pending, keeps, Draft.tallies_addCopies, flushed,
        Growth.tally_result keeps outside, within, nothing, Growth.tally]
      omega
    rw [growAll, ih keeps (Event.grow cx.options g (.copied inside)) tags, copied, Event.tallyAll,
      Event.tally]
    omega

end Xml
end Markup
