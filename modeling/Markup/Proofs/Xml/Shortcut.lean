import Markup.Proofs.Xml.Normal
import Markup.Proofs.Xml.Subset
import Markup.Proofs.Xml.Tally

/-!
# Replacement text without markup

Replacement text without markup is kept as it stands, and not read as content. The two differ in
nothing but this: read as content, its carriage returns become line feeds, and the end of a CDATA
section in it is an error.
-/

namespace Markup.Xml

open Reader

/-! ## Text character by character -/

/-- The events of text that is read one character after the other. -/
def letters (text : List Char) : List Event := text.map fun c => .text [c]

theorem growAll_letters (options : ParseOptions) (g : Growth) (text : List Char) :
    growAll options g (letters text) = { g with pending := g.pending.add text } := by
  induction text generalizing g with
  | nil => rw [Pending.add_nil]; rfl
  | cons c text ih =>
    rw [letters, List.map_cons, growAll, ← letters, ih, Event.grow, Pending.add_add]
    rfl

theorem fitsAll_letters {limit length : Nat} {text : List Char}
    (room : length + Text.byteLength text ≤ limit) : FitsAll limit length (letters text) := by
  induction text generalizing length with
  | nil => trivial
  | cons c text ih =>
    rw [Text.byteLength_cons] at room
    have one : Text.byteLength [c] = c.utf8Size := by simp
    refine ⟨?_, ih ?_⟩
    · show length + Text.byteLength [c] ≤ limit
      omega
    · show length + Text.byteLength [c] + Text.byteLength text ≤ limit
      omega

/-- Less text before events leaves them within the limit. -/
theorem FitsAll.mono {limit length less : Nat} {events : List Event}
    (fits : FitsAll limit length events) (le : less ≤ length) : FitsAll limit less events := by
  induction events generalizing length less with
  | nil => trivial
  | cons event rest ih =>
    obtain ⟨first, others⟩ := fits
    cases event with
    | text content =>
      have first : length + Text.byteLength content ≤ limit := first
      exact ⟨Nat.le_trans (Nat.add_le_add_right le _) first, ih others (Nat.add_le_add_right le _)⟩
    | leaf | start | stop | copied => exact ⟨first, others⟩

theorem byteLength_lineEnds_le (text : List Char) :
    Text.byteLength (lineEnds text) ≤ Text.byteLength text := by
  have feed : '\n'.utf8Size = 1 := rfl
  have carriage : '\r'.utf8Size = 1 := rfl
  fun_induction lineEnds text with
  | case1 rest ih => simp only [Text.byteLength_cons]; omega
  | case2 rest _ ih => simp only [Text.byteLength_cons]; omega
  | case3 c rest _ _ ih => simp only [Text.byteLength_cons]; omega
  | case4 => exact Nat.le_refl _

/-- Legal text without markup in which no end of a CDATA section begins, and of which no line end
goes on after it. -/
structure IsLettered (text tail : List Char) : Prop where
  legal : IsLegal text
  markup : ∀ c ∈ text, c ≠ '<' ∧ c ≠ '&'
  clear : ∀ left, left <:+ text → left ≠ [] → ¬ "]]>".toList <+: left ++ tail
  single : '\r' ∈ text → tail.head? ≠ some '\n'

theorem IsLettered.suffix (front : List Char) {rest tail : List Char}
    (lettered : IsLettered (front ++ rest) tail) :
    IsLettered rest tail where
  legal := (isLegal_append.mp lettered.legal).2
  markup c mem := lettered.markup c (List.mem_append_right _ mem)
  clear left suffix := lettered.clear left (suffix.trans (List.suffix_append ..))
  single mem := lettered.single (List.mem_append_right _ mem)

namespace Reader

variable {cx : Context} {base : Level} {r next : Reader} {g : Growth} {tags : List StartTag}
  {text tail : List Char}

/-- One character goes before others that are read. -/
theorem exists_run_letters_cons (front : List Char) {rest : List Char} {c : Char}
    (lettered : IsLettered (front ++ rest) tail) (solid : front ≠ [])
    (spelled : r.rest = front ++ rest ++ tail)
    (read : r.char cx.options = .ok (c, r.skip front.length))
    (others : ∃ last,
      Run cx base ⟨r.skip front.length, tags⟩ (letters (lineEnds rest)) ⟨last, tags⟩ ∧
      last.rest = tail ∧ last.log = r.log) :
    ∃ last, Run cx base ⟨r, tags⟩ (letters (c :: lineEnds rest)) ⟨last, tags⟩ ∧ last.rest = tail ∧
      last.log = r.log := by
  obtain ⟨last, run, ends, log⟩ := others
  obtain ⟨d, more, rfl⟩ := List.exists_cons_of_ne_nil solid
  have markup := lettered.markup d (by simp)
  have open_ : r.startsWith "]]>" = false := by
    rw [← Bool.not_eq_true, startsWith_iff, spelled]
    exact lettered.clear _ (List.suffix_refl _) (by simp)
  refine ⟨last, .advance (.character ?_ ?_ open_ read) run, ends, log⟩
  · simp [sees, spelled, markup.1]
  · simp [sees, spelled, markup.2]

/-- Such text is read character by character, with its line ends turned into line feeds. -/
theorem exists_run_letters (cx : Context) (base : Level) (tags : List StartTag)
    (lettered : IsLettered text tail) (spelled : r.rest = text ++ tail) :
    ∃ last, Run cx base ⟨r, tags⟩ (letters (lineEnds text)) ⟨last, tags⟩ ∧ last.rest = tail ∧
      last.log = r.log := by
  fun_induction lineEnds text generalizing r with
  | case1 rest ih =>
    refine exists_run_letters_cons ['\r', '\n'] lettered (List.cons_ne_nil _ _) spelled
      (char_feed (by rw [spelled]; rfl)) ?_
    exact ih (lettered.suffix ['\r', '\n']) (by simp [spelled])
  | case2 rest alone ih =>
    have single : (rest ++ tail).head? ≠ some '\n' := by
      intro feed
      cases rest with
      | nil => exact lettered.single List.mem_cons_self feed
      | cons d rest => exact alone rest (by simpa using feed)
    refine exists_run_letters_cons ['\r'] lettered (List.cons_ne_nil _ _) spelled
      (char_return (by rw [spelled]; rfl) single) ?_
    exact ih (lettered.suffix ['\r']) (by simp [spelled])
  | case3 c rest _ plain ih =>
    have legal := (isLegal_cons.mp lettered.legal).1
    refine exists_run_letters_cons [c] lettered (List.cons_ne_nil _ _) spelled
      (char_eq_ok (by rw [spelled]; rfl) legal plain) ?_
    exact ih (lettered.suffix [c]) (by simp [spelled])
  | case4 => exact ⟨r, .nil, spelled, rfl⟩

end Reader

/-! ## Growth that goes on alike -/

/-- Two computations that succeed alike: either both fail, or both yield the same. -/
def SucceedAlike {α : Type} (first second : Except ParseFailure α) : Prop :=
  ∀ result, first = .ok result ↔ second = .ok result

/-- Two states of building with the same open elements, and the same nodes once all text is made
into nodes. -/
structure Growth.Alike (options : ParseOptions) (g g' : Growth) : Prop where
  path : g.path = g'.path
  flush : g.flush options = g'.flush options

namespace Draft

variable {before : List Draft} {content : String}

theorem addText_empty : addText false "" before = before := rfl

/-- Character data goes into the text before it, or is a text of its own. -/
theorem addText_of_ne (solid : content ≠ "") : addText false content before =
    match before with
    | written (.text earlier) _ :: rest => written (.text (earlier ++ content)) [] :: rest
    | _ => written (.text content) [] :: before :=
  if_neg (by simpa using solid)

theorem addText_addText (first second : String) :
    addText false second (addText false first before) = addText false (first ++ second) before := by
  by_cases nothing : first = ""
  · rw [nothing, addText_empty, String.empty_append]
  by_cases last : second = ""
  · rw [last, addText_empty, String.append_empty]
  rw [addText_of_ne last, addText_of_ne nothing, addText_of_ne (by simp [nothing])]
  match before with
  | written (.text earlier) children :: rest => simp only [String.append_assoc]
  | written .document _ :: _ | written (.element ..) _ :: _ | written (.cdata _) _ :: _
  | written (.comment _) _ :: _ | written (.instruction ..) _ :: _ | written (.doctype ..) _ :: _
  | copied _ :: _ | [] => rfl

/-- A text that replacement text yields goes where text goes. -/
theorem addCopies_addText :
    addCopies false before (addText false content []).reverse = addText false content before := by
  by_cases nothing : content = ""
  · rw [nothing]
    rfl
  · rw [addText_of_ne nothing]
    rfl

end Draft

namespace Growth

variable {options : ParseOptions} {g g' : Growth}

/-- Text that is added goes behind the text that was made into a node. -/
theorem flush_text (keeps : options.noBlanks = false) (content : List Char) :
    (Event.grow options g (.text content)).flush options =
      Draft.addText false (String.ofList content) (g.flush options) := by
  rw [flush, flush, Pending.flush, Pending.flush, keeps, Draft.addText_addText,
    ← String.ofList_append]
  simp [Event.grow, Pending.add]

theorem Alike.grow (alike : Alike options g g') (keeps : options.noBlanks = false) (event : Event) :
    Alike options (event.grow options g) (event.grow options g') := by
  cases event with
  | text content => exact ⟨alike.path, by rw [flush_text keeps, flush_text keeps, alike.flush]⟩
  | leaf | start | copied => simp only [Event.grow, alike.path, alike.flush]; exact ⟨rfl, rfl⟩
  | stop =>
    obtain ⟨here, path, pending⟩ := g
    obtain ⟨here', path', pending'⟩ := g'
    obtain rfl : path = path' := alike.path
    cases path with
    | nil => exact alike
    | cons element path =>
      have closed : (Growth.mk here (element :: path) pending).close options =
          (Growth.mk here' (element :: path) pending').close options :=
        congrArg (fun drafts => Growth.mk (element.close drafts) path .empty) alike.flush
      exact ⟨congrArg Growth.path closed, congrArg (Growth.flush · options) closed⟩

theorem Alike.growAll (alike : Alike options g g') (keeps : options.noBlanks = false)
    (events : List Event) :
    Alike options (growAll options g events) (growAll options g' events) := by
  induction events generalizing g g' with
  | nil => exact alike
  | cons event rest ih => exact ih (alike.grow keeps event)

theorem Alike.result_eq (alike : Alike options g g') : g.result options = g'.result options := by
  rw [result, result, alike.flush]

end Growth

namespace Reader

variable {cx : Context} {base : Level} {r next : Reader} {g g' : Growth} {text tail : List Char}

/-- Where the loop does not stop at the limit on text, what it reads is within that limit. -/
theorem fitsAll_of_room {s t : Spot} {events : List Event} (run : Run cx base s events t)
    (tags : g.tags = s.tags)
    (room : ∀ failure, contentFrom cx base s.reader g = .error failure →
      failure.problem ≠ .textTooLong cx.options.maxTextLength) :
    FitsAll cx.options.maxTextLength g.pending.length events := by
  obtain ⟨-, -, stops⟩ := contentFrom_of_run run tags
  by_contra tight
  obtain ⟨failure, stopped, problem⟩ := stops tight
  exact room failure stopped problem

/-- Where building goes on alike, less text not yet made into a node makes no difference, unless
more of it would go beyond the limit. -/
theorem contentFrom_iff_of_alike (keeps : cx.options.noBlanks = false)
    (alike : g.Alike cx.options g') (less : g.pending.length ≤ g'.pending.length)
    (fits : ∀ events last, Run cx base ⟨r, g'.tags⟩ events ⟨last, []⟩ →
      FitsAll cx.options.maxTextLength g'.pending.length events) :
    SucceedAlike (contentFrom cx base r g) (contentFrom cx base r g') := by
  rintro ⟨children, last⟩
  have same : g.tags = g'.tags := by rw [Growth.tags, Growth.tags, alike.path]
  rw [contentFrom_eq_ok_iff, contentFrom_eq_ok_iff]
  constructor
  · rintro ⟨events, run, ends, -, built⟩
    rw [same] at run
    exact ⟨events, run, ends, fits events last run,
      built.trans (alike.growAll keeps events).result_eq⟩
  · rintro ⟨events, run, ends, within, built⟩
    rw [← same] at run
    exact ⟨events, run, ends, within.mono less,
      built.trans (alike.growAll keeps events).result_eq.symm⟩

end Reader

/-! ## Replacement text without markup, read as content -/

/-- The first place where a word stands in a text. -/
theorem exists_first_of_infix {word text : List Char} (solid : word ≠ [])
    (inside : word <:+: text) :
    ∃ before after, text = before ++ (word ++ after) ∧
      ∀ left, left <:+ before → left ≠ [] → ¬ word <+: left ++ (word ++ after) := by
  induction text with
  | nil => exact absurd (List.infix_nil.mp inside) solid
  | cons c rest ih =>
    by_cases here : word <+: c :: rest
    · obtain ⟨after, spelled⟩ := here
      exact ⟨[], after, spelled.symm,
        fun left suffix other => absurd (List.suffix_nil.mp suffix) other⟩
    · obtain ⟨before, after, spelled, first⟩ :=
        ih ((List.infix_cons_iff.mp inside).resolve_left here)
      refine ⟨c :: before, after, by rw [spelled]; rfl, fun left suffix other => ?_⟩
      rcases List.suffix_cons_iff.mp suffix with rfl | later
      · rwa [List.cons_append, ← spelled]
      · exact first left later other

namespace Reader

variable {cx : Context} {base : Level} {r next : Reader} {g : Growth}
  {entity replacement : String}

/-- What the loop does with replacement text that it reads as content. -/
def expanded (cx : Context) (base : Level) (next : Reader) (g : Growth)
    (entity replacement : String) : Except ParseFailure (List Draft × Reader) :=
  contentFrom (cx.opening entity) (base.within g.tags) (next.enter replacement) .empty >>=
    fun inside =>
      if inside.2.atEnd then
        contentFrom cx base (next.resume inside.2)
          ⟨Draft.addCopies cx.options.noBlanks (g.flush cx.options) inside.1, g.path, .empty⟩
      else inside.2.fail (.endTagInEntity entity)

theorem markup_of_isPlainText (plain : isPlainText replacement = true) :
    ∀ c ∈ replacement.toList, c ≠ '<' ∧ c ≠ '&' := fun c mem => by
  simpa using List.all_eq_true.mp plain c mem

/-- Replacement text without markup is kept as it stands. -/
theorem contentFrom_of_plain (amp : r.sees '&' = true)
    (read : r.reference cx = .ok (.entity entity replacement, next))
    (plain : isPlainText replacement = true)
    (room : g.pending.length + Text.byteLength replacement.toList ≤ cx.options.maxTextLength) :
    contentFrom cx base r g =
      contentFrom cx base next (Event.grow cx.options g (.text replacement.toList)) := by
  have advance : Advance cx base ⟨r, g.tags⟩ _ ⟨next, g.tags⟩ := .plain amp read plain
  exact (contentFrom_of_advance advance rfl).1 room

/-- A strict reading stops at the end of a CDATA section in text. -/
theorem contentFrom_of_sectionEnd (strict : cx.options.recover = false)
    (begins : r.startsWith "]]>" = true) : contentFrom cx base r g = r.fail .sectionEndInText := by
  have seen : r.sees ']' = true := sees_of_startsWith rfl begins
  have stops : r.report cx.options .sectionEndInText = r.fail .sectionEndInText :=
    if_neg (by simp [strict])
  rw [contentFrom_eq]
  simp only [atEnd_of_sees seen, sees_of_sees seen, Bool.false_eq_true, ↓reduceIte,
    show (']' == '<') = false from rfl, show (']' == '&') = false from rfl, begins, stops]
  rfl

/-- The end of a CDATA section in replacement text without markup stops its reading as content. -/
theorem expanded_of_sectionEnd (strict : cx.options.recover = false)
    (legal : IsLegal replacement.toList) (plain : isPlainText replacement = true)
    (short : Text.byteLength replacement.toList ≤ cx.options.maxTextLength)
    (inside : "]]>".toList <:+: replacement.toList) :
    ∃ failure, expanded cx base next g entity replacement = .error failure ∧
      failure.problem = .sectionEndInText := by
  obtain ⟨before, after, spelled, first⟩ := exists_first_of_infix (by decide) inside
  have lettered : IsLettered before ("]]>".toList ++ after) := {
    legal := (isLegal_append.mp (spelled ▸ legal)).1
    markup := fun c mem => markup_of_isPlainText plain c (spelled ▸ List.mem_append_left _ mem)
    clear := first
    single := fun _ => by simp }
  obtain ⟨last, run, ends, -⟩ := exists_run_letters (cx.opening entity) (base.within g.tags) []
    (r := next.enter replacement) lettered spelled
  have fits : FitsAll cx.options.maxTextLength 0 (letters (lineEnds before)) := by
    apply fitsAll_letters
    have shorter := byteLength_lineEnds_le before
    rw [spelled, Text.byteLength_append] at short
    omega
  have begins : last.startsWith "]]>" = true := startsWith_iff.mpr ⟨after, ends.symm⟩
  obtain ⟨-, goes, -⟩ := contentFrom_of_run (g := .empty) run rfl
  have stops : contentFrom (cx.opening entity) (base.within g.tags) (next.enter replacement)
      .empty = last.fail .sectionEndInText :=
    (goes fits).trans (contentFrom_of_sectionEnd strict begins)
  exact ⟨_, by rw [expanded, stops]; rfl, rfl⟩

/-- Replacement text with neither markup nor the end of a CDATA section, read as content, is text
with its line ends turned into line feeds. -/
theorem expanded_of_lettered (keeps : cx.options.noBlanks = false)
    (lettered : IsLettered replacement.toList [])
    (short : Text.byteLength replacement.toList ≤ cx.options.maxTextLength) :
    expanded cx base next g entity replacement = contentFrom cx base next
      ⟨Draft.addText false (String.ofList (lineEnds replacement.toList)) (g.flush cx.options),
        g.path, .empty⟩ := by
  obtain ⟨last, run, ends, log⟩ := exists_run_letters (cx.opening entity) (base.within g.tags) []
    (r := next.enter replacement) lettered (List.append_nil _).symm
  have fits : FitsAll cx.options.maxTextLength 0 (letters (lineEnds replacement.toList)) := by
    apply fitsAll_letters
    have shorter := byteLength_lineEnds_le replacement.toList
    omega
  have done : last.atEnd = true := by simp [atEnd, ends]
  have resumed : next.resume last = next := by rw [resume, log]; rfl
  obtain ⟨tags, goes, -⟩ := contentFrom_of_run (g := .empty) run rfl
  have inner : contentFrom (cx.opening entity) (base.within g.tags) (next.enter replacement)
      .empty = .ok ((growAll cx.options .empty (letters (lineEnds replacement.toList))).result
        cx.options, last) :=
    (goes fits).trans (contentFrom_of_isLast (s := ⟨last, []⟩) ⟨rfl, .inl done⟩ tags)
  have result : (growAll cx.options .empty (letters (lineEnds replacement.toList))).result
      cx.options =
        (Draft.addText false (String.ofList (lineEnds replacement.toList)) []).reverse := by
    rw [growAll_letters, Growth.result, Growth.flush, Pending.flush, keeps, Pending.chars_add]
    simp [Growth.empty, Pending.empty]
  rw [expanded, inner, result]
  dsimp only [bind, Except.bind]
  rw [if_pos done, resumed, keeps, Draft.addCopies_addText]

/-- What is built of some text and the events after it counts for as much as they do. -/
theorem tallies_result_of_text (weight : Char → Nat) (keeps : cx.options.noBlanks = false)
    {events : List Event} {last : Reader} (run : Run cx base ⟨next, g.tags⟩ events ⟨last, []⟩)
    (content : List Char) :
    Draft.tallies weight ((growAll cx.options g (.text content :: events)).result cx.options) =
      g.tally weight + Text.tally weight content + Event.tallyAll weight events := by
  have tags : (growAll cx.options g (.text content :: events)).tags = [] :=
    (contentFrom_of_run (g := Event.grow cx.options g (.text content)) run rfl).1
  rw [Growth.tally_result keeps (List.map_eq_nil_iff.mp tags), growAll,
    tally_growAll_of_run keeps run (Event.grow cx.options g (.text content)) rfl, tally_grow_text]

/-- Content that is read after some text is read after shorter text as well, by the same events. -/
theorem exists_contentFrom_of_text {more fewer : List Char} {children : List Draft} {last : Reader}
    (shorter : Text.byteLength fewer ≤ Text.byteLength more)
    (read : contentFrom cx base next (Event.grow cx.options g (.text more)) =
      .ok (children, last)) :
    ∃ events, Run cx base ⟨next, g.tags⟩ events ⟨last, []⟩ ∧
      children = (growAll cx.options g (.text more :: events)).result cx.options ∧
      contentFrom cx base next (Event.grow cx.options g (.text fewer)) =
        .ok ((growAll cx.options g (.text fewer :: events)).result cx.options, last) := by
  obtain ⟨events, run, ends, fits, built⟩ := contentFrom_eq_ok_iff.mp read
  refine ⟨events, run, built, contentFrom_eq_ok_iff.mpr ⟨events, run, ends, ?_, rfl⟩⟩
  exact fits.mono (Nat.add_le_add_left shorter _)

/-- Carriage returns in text make a difference to what is built. -/
theorem not_mem_of_contentFrom_eq (keeps : cx.options.noBlanks = false)
    {content : List Char} {result : List Draft × Reader}
    (read : contentFrom cx base next (Event.grow cx.options g (.text content)) = .ok result)
    (other : contentFrom cx base next (Event.grow cx.options g (.text (lineEnds content))) =
      .ok result) : '\r' ∉ content := by
  obtain ⟨children, last⟩ := result
  obtain ⟨events, run, built, alike⟩ :=
    exists_contentFrom_of_text (byteLength_lineEnds_le content) read
  obtain ⟨same, -⟩ := Prod.mk.inj (Except.ok.inj (alike.symm.trans other))
  let weight (c : Char) : Nat := if c = '\r' then 1 else 0
  have counted (text : List Char) : Text.tally weight text = 0 ↔ '\r' ∉ text := by
    simp [Text.tally, weight, List.sum_eq_zero_iff, List.forall_mem_ne']
  have first := tallies_result_of_text weight keeps run content
  have second := tallies_result_of_text weight keeps run (lineEnds content)
  rw [← built] at first
  rw [same, (counted _).mpr (not_mem_lineEnds content)] at second
  exact (counted content).mp (by omega)

/-- A reference begins with an ampersand. -/
theorem sees_of_reference {found : Reference} (read : r.reference cx = .ok (found, next)) :
    r.sees '&' = true := by
  obtain ⟨first, begins, -⟩ := bind_eq_ok.mp read
  by_contra other
  rw [expect, if_neg other] at begins
  exact not_fail begins

/-- Replacement text without markup is kept as it stands where the content is read to its end. Read
as content, the end of a CDATA section in it is an error, and its line ends become line feeds. So
the two agree exactly where content is not read to its end at all, or there is neither in it. -/
theorem plain_expansion_iff (strict : cx.options.recover = false)
    (keeps : cx.options.noBlanks = false) {first second : Reader} {before nodes : List Draft}
    (declared : first.typeDeclaration cx.options before = .ok ((nodes, cx.entities), second))
    (read : r.reference cx = .ok (.entity entity replacement, next))
    (plain : isPlainText replacement = true)
    (room : ∀ failure, contentFrom cx base r g = .error failure →
      failure.problem ≠ .textTooLong cx.options.maxTextLength) :
    contentFrom cx base r g =
      contentFrom cx base next (Event.grow cx.options g (.text replacement.toList)) ∧
    ("]]>".toList <:+: replacement.toList →
      ∃ failure, expanded cx base next g entity replacement = .error failure ∧
        failure.problem = .sectionEndInText) ∧
    (¬ "]]>".toList <:+: replacement.toList →
      SucceedAlike (expanded cx base next g entity replacement)
        (contentFrom cx base next (Event.grow cx.options g (.text (lineEnds replacement.toList))))) ∧
    (SucceedAlike (contentFrom cx base r g) (expanded cx base next g entity replacement) ↔
      (∀ result, contentFrom cx base r g ≠ .ok result) ∨
        '\r' ∉ replacement.toList ∧ ¬ "]]>".toList <:+: replacement.toList) := by
  have legal : IsLegal replacement.toList :=
    (exists_of_typeDeclaration strict declared).1 _ (mem_of_reference read)
  have amp := sees_of_reference read
  have advance : Advance cx base ⟨r, g.tags⟩ (.text replacement.toList) ⟨next, g.tags⟩ :=
    .plain amp read plain
  have fits : g.pending.length + Text.byteLength replacement.toList ≤ cx.options.maxTextLength := by
    by_contra tight
    obtain ⟨failure, stopped, problem⟩ := (contentFrom_of_advance advance rfl).2 tight
    exact room failure stopped problem
  have short : Text.byteLength replacement.toList ≤ cx.options.maxTextLength :=
    Nat.le_trans (Nat.le_add_left ..) fits
  have shorter := byteLength_lineEnds_le replacement.toList
  have kept : contentFrom cx base r g =
      contentFrom cx base next (Event.grow cx.options g (.text replacement.toList)) :=
    contentFrom_of_plain amp read plain fits
  rw [kept] at room ⊢
  have stops (inside : "]]>".toList <:+: replacement.toList) :
      ∃ failure, expanded cx base next g entity replacement = .error failure ∧
        failure.problem = .sectionEndInText :=
    expanded_of_sectionEnd strict legal plain short inside
  have room {events : List Event} {last : Reader}
      (run : Run cx base ⟨next, g.tags⟩ events ⟨last, []⟩) :
      FitsAll cx.options.maxTextLength (g.pending.length + Text.byteLength replacement.toList)
        events :=
    fitsAll_of_room (g := Event.grow cx.options g (.text replacement.toList)) run rfl room
  have goes (clear : ¬ "]]>".toList <:+: replacement.toList) :
      SucceedAlike (expanded cx base next g entity replacement) (contentFrom cx base next
        (Event.grow cx.options g (.text (lineEnds replacement.toList)))) := by
    have lettered : IsLettered replacement.toList [] := {
      legal := legal
      markup := markup_of_isPlainText plain
      clear := fun left suffix _ within => clear <|
        (List.append_nil left ▸ within.isInfix).trans suffix.isInfix
      single := fun _ => nofun }
    rw [expanded_of_lettered keeps lettered short]
    refine contentFrom_iff_of_alike keeps ⟨rfl, ?_⟩ (Nat.zero_le _) fun events last run => ?_
    · rw [Growth.flush_text keeps, Growth.flush, Pending.flush, keeps]
      rfl
    · exact (room run).mono (Nat.add_le_add_left shorter _)
  refine ⟨rfl, stops, goes, fun agree => ?_, ?_⟩
  · by_contra differ
    obtain ⟨never, within⟩ := not_or.mp differ
    obtain ⟨result, found⟩ := not_forall_not.mp never
    have clear : ¬ "]]>".toList <:+: replacement.toList := by
      intro inside
      obtain ⟨failure, stopped, -⟩ := stops inside
      cases stopped.symm.trans ((agree result).mp found)
    refine within ⟨?_, clear⟩
    exact not_mem_of_contentFrom_eq keeps found ((goes clear result).mp ((agree result).mp found))
  · rintro (never | ⟨plainEnds, clear⟩) result
    · -- Where the content is not read to its end, what is read of it as content is not either.
      refine ⟨fun found => absurd found (never result), fun found => ?_⟩
      have clear : ¬ "]]>".toList <:+: replacement.toList := by
        intro inside
        obtain ⟨failure, stopped, -⟩ := stops inside
        cases stopped.symm.trans found
      obtain ⟨children, last⟩ := result
      obtain ⟨events, run, ends, -, -⟩ := contentFrom_eq_ok_iff.mp ((goes clear _).mp found)
      have whole : Reads cx base next (Event.grow cx.options g (.text replacement.toList)) events
          _ last := ⟨run, ends, room run, rfl⟩
      exact absurd (contentFrom_eq_ok_iff.mpr ⟨events, whole⟩) (never _)
    · rw [goes clear result, lineEnds_eq_self plainEnds]

/-! ## The end of a CDATA section as replacement text -/

/-- A strict reading where one entity stands for the end of a CDATA section. -/
def sectioned : Context := ⟨{}, ⟨[("e", "]]>")], [], false⟩, []⟩

theorem isDeclarable_sectioned : IsDeclarable {} "e" "]]>" where
  named := ⟨by decide, List.all_eq_true.mp (by decide), by decide⟩
  local_ := by decide
  free := rfl
  legal := List.all_eq_true.mp (by decide)
  plain := by simp

/-- The entity is declared where it is written down. -/
theorem exists_typeDeclaration_sectioned : ∃ nodes second,
    (Reader.ofText "<!DOCTYPE a [<!ENTITY e \"]]>\">]><a>&e;</a>").typeDeclaration {} [] =
      .ok ((nodes, sectioned.entities), second) := by
  have named : IsName {} "a" := ⟨by decide, List.all_eq_true.mp (by decide), by decide⟩
  have spelled : (Reader.ofText "<!DOCTYPE a [<!ENTITY e \"]]>\">]><a>&e;</a>").rest =
      writtenSubset "a" "e" "]]>" ++ '<' :: 'a' :: ">&e;</a>".toList := by decide
  obtain ⟨second, read, -⟩ := exists_typeDeclaration_subset named isDeclarable_sectioned [] spelled
    ⟨'a', _, rfl, by decide⟩
  exact ⟨_, second, read⟩

/-- A reference to the entity is read. -/
theorem reference_sectioned : (Reader.ofText "&e;</a>").reference sectioned =
    .ok (.entity "e" "]]>", ⟨"</a>".toList, ⟨1, 4, 3⟩, none, ⟨[], 1⟩⟩) := by cbv

/-- The content with the reference is read to its end. -/
theorem contentFrom_sectioned :
    contentFrom sectioned ⟨1, .initial⟩ (Reader.ofText "&e;</a>") .empty =
      .ok ([.written (.text "]]>") []], ⟨"</a>".toList, ⟨1, 4, 3⟩, none, ⟨[], 1⟩⟩) := by
  rw [contentFrom_of_plain (by decide) reference_sectioned (by decide) (by decide)]
  exact contentFrom_of_isLast (s := ⟨⟨"</a>".toList, ⟨1, 4, 3⟩, none, ⟨[], 1⟩⟩, []⟩)
    ⟨rfl, .inr (by decide)⟩ rfl

theorem room_sectioned (failure : ParseFailure)
    (stopped : contentFrom sectioned ⟨1, .initial⟩ (Reader.ofText "&e;</a>") .empty =
      .error failure) : failure.problem ≠ .textTooLong sectioned.options.maxTextLength := by
  cases contentFrom_sectioned.symm.trans stopped

/-- The end of a CDATA section is kept as it stands, but cannot be read as content. -/
theorem plain_expansion_iff_sectioned :
    (∃ nodes second, (Reader.ofText "<!DOCTYPE a [<!ENTITY e \"]]>\">]><a>&e;</a>").typeDeclaration
      sectioned.options [] = .ok ((nodes, sectioned.entities), second)) ∧
    contentFrom sectioned ⟨1, .initial⟩ (Reader.ofText "&e;</a>") .empty =
      .ok ([.written (.text "]]>") []], ⟨"</a>".toList, ⟨1, 4, 3⟩, none, ⟨[], 1⟩⟩) ∧
    (∃ failure, expanded sectioned ⟨1, .initial⟩ ⟨"</a>".toList, ⟨1, 4, 3⟩, none, ⟨[], 1⟩⟩ .empty
      "e" "]]>" = .error failure ∧ failure.problem = .sectionEndInText) ∧
    ¬ SucceedAlike (contentFrom sectioned ⟨1, .initial⟩ (Reader.ofText "&e;</a>") .empty)
      (expanded sectioned ⟨1, .initial⟩ ⟨"</a>".toList, ⟨1, 4, 3⟩, none, ⟨[], 1⟩⟩ .empty "e"
        "]]>") := by
  obtain ⟨nodes, second, declared⟩ := exists_typeDeclaration_sectioned
  obtain ⟨-, stops, -, agree⟩ := plain_expansion_iff rfl rfl declared reference_sectioned
    (by decide) room_sectioned
  refine ⟨⟨nodes, second, declared⟩, contentFrom_sectioned, stops ⟨[], [], rfl⟩, fun alike => ?_⟩
  rcases agree.mp alike with never | ⟨-, clear⟩
  · exact never _ contentFrom_sectioned
  · exact clear ⟨[], [], rfl⟩

/-- Keeping replacement text without markup as it stands does not always do what reading it as
content does. -/
theorem not_forall_succeedAlike : ¬ ∀ (cx : Context) (base : Level) (r next : Reader) (g : Growth)
    (entity replacement : String), cx.options.recover = false → cx.options.noBlanks = false →
    (∃ text nodes second, (Reader.ofText text).typeDeclaration cx.options [] =
      .ok ((nodes, cx.entities), second)) →
    r.reference cx = .ok (.entity entity replacement, next) → isPlainText replacement = true →
    (∀ failure, contentFrom cx base r g = .error failure →
      failure.problem ≠ .textTooLong cx.options.maxTextLength) →
    SucceedAlike (contentFrom cx base r g) (expanded cx base next g entity replacement) := by
  intro agree
  obtain ⟨nodes, second, declared⟩ := exists_typeDeclaration_sectioned
  have alike := agree sectioned ⟨1, .initial⟩ (Reader.ofText "&e;</a>") _ .empty "e" "]]>" rfl rfl
    ⟨_, nodes, second, declared⟩ reference_sectioned (by decide) room_sectioned
  have stops : ∃ failure, expanded sectioned ⟨1, .initial⟩
      ⟨"</a>".toList, ⟨1, 4, 3⟩, none, ⟨[], 1⟩⟩ .empty "e" "]]>" = .error failure ∧
        failure.problem = .sectionEndInText :=
    expanded_of_sectionEnd rfl isDeclarable_sectioned.legal (by decide) (by decide) ⟨[], [], rfl⟩
  obtain ⟨failure, stopped, -⟩ := stops
  cases stopped.symm.trans ((alike _).mp contentFrom_sectioned)

end Reader
end Markup.Xml
