import Markup.Proofs.Xml.Atoms
import Markup.Proofs.Xml.Reading
import Markup.Proofs.Xml.Shortcut

/-!
# Replacement text in the place of its reference

Replacement text is read as content of its own, and what it yields is copied into the content around
the reference. A text with the replacement text itself in that place is read by the same rounds, one
after the other, and yields the same tree, if the two seams cannot be seen.
-/

namespace Markup

theorem Text.byteLength_eq_tally (text : List Char) :
    byteLength text = tally Char.utf8Size text := by
  induction text with
  | nil => rfl
  | cons c text ih => rw [byteLength_cons, ih]; rfl

namespace Xml

open Reader

/-! ## Replacement text without visible seams -/

/-- Replacement text of which no character, taken together with any text around it, ends a CDATA
section or a line otherwise than alone. -/
structure IsSeamless (replacement : String) : Prop where
  solid : replacement ≠ ""
  carriage : '\r' ∉ replacement.toList
  bracket : ']' ∉ replacement.toList
  feed : replacement.toList.head? ≠ some '\n'
  greater : replacement.toList.head? ≠ some '>'

namespace IsSeamless

variable {replacement : String}

theorem exists_cons (seamless : IsSeamless replacement) : ∃ c rest,
    replacement.toList = c :: rest ∧ c ≠ '\n' ∧ c ≠ '>' ∧ c ≠ ']' := by
  obtain ⟨c, rest, spelled⟩ := List.exists_cons_of_ne_nil
    (show replacement.toList ≠ [] by simpa using seamless.solid)
  have feed := seamless.feed
  have greater := seamless.greater
  have bracket := seamless.bracket
  rw [spelled] at feed greater bracket
  refine ⟨c, rest, spelled, by simpa using feed, by simpa using greater, ?_⟩
  exact fun same => bracket (same ▸ List.mem_cons_self)

/-- In front of the replacement text, it makes no difference that it stands there. -/
theorem joins_before (seamless : IsSeamless replacement) (tail after text : List Char) :
    Joins tail (replacement.toList ++ after) text := by
  obtain ⟨c, rest, spelled, feed, greater, bracket⟩ := seamless.exists_cons
  rw [spelled]
  refine ⟨fun left _ solid begins => ?_, fun _ same => absurd (Option.some.inj same) feed⟩
  simp only [String.reduceToList] at begins ⊢
  match left, solid with
  | [a], _ =>
    simp only [List.cons_append, List.nil_append, List.cons_prefix_cons] at begins
    exact absurd begins.2.1.symm bracket
  | [a, b], _ =>
    simp only [List.cons_append, List.nil_append, List.cons_prefix_cons] at begins
    exact absurd begins.2.2.1.symm greater
  | a :: b :: d :: left, _ =>
    simp only [List.cons_append, List.cons_prefix_cons, List.nil_prefix, and_true] at begins ⊢
    exact begins

/-- The end of a CDATA section does not begin in the replacement text. -/
theorem clear (seamless : IsSeamless replacement) (after left : List Char)
    (suffix : left <:+ replacement.toList) (solid : left ≠ []) :
    ¬ "]]>".toList <+: left ++ after := by
  intro begins
  obtain ⟨c, rest, rfl⟩ := List.exists_cons_of_ne_nil solid
  simp only [String.reduceToList, List.cons_append, List.cons_prefix_cons] at begins
  exact absurd (suffix.subset (begins.1 ▸ List.mem_cons_self)) seamless.bracket

/-- Inside of the replacement text, it makes no difference what stands after it. -/
theorem joins_after (seamless : IsSeamless replacement) (tail after : List Char) :
    Joins tail after replacement.toList where
  clear left suffix solid begins := absurd begins (seamless.clear after left suffix solid)
  single carriage := absurd carriage seamless.carriage

theorem isLettered (seamless : IsSeamless replacement) (legal : IsLegal replacement.toList)
    (plain : isPlainText replacement = true) (after : List Char) :
    IsLettered replacement.toList after where
  legal := legal
  markup := markup_of_isPlainText plain
  clear := seamless.clear after
  single carriage := absurd carriage seamless.carriage

end IsSeamless

/-! ## What the text of events counts for -/

theorem tallyAll_append (weight : Char → Nat) (events others : List Event) :
    Event.tallyAll weight (events ++ others) =
      Event.tallyAll weight events + Event.tallyAll weight others := by
  induction events with
  | nil => simp [Event.tallyAll]
  | cons event rest ih => rw [List.cons_append, Event.tallyAll, ih, Event.tallyAll, Nat.add_assoc]

theorem tallyAll_letters (weight : Char → Nat) (text : List Char) :
    Event.tallyAll weight (letters text) = Text.tally weight text := by
  induction text with
  | nil => rfl
  | cons c text ih =>
    rw [letters, List.map_cons, Event.tallyAll, ← letters, ih]
    rfl

theorem grownAll_letters (g : Grown) (text : List Char) :
    grownAll g (letters text) = Event.grown g (.text text) := by
  induction text generalizing g with
  | nil =>
    show g = g.add []
    rw [Grown.add, List.append_nil]
  | cons c text ih =>
    have step : grownAll g (letters (c :: text)) =
        grownAll (g.add (Tree.singles [c])) (letters text) := rfl
    rw [step, ih, Event.grown, Event.grown, Grown.add, Grown.add, Grown.add, List.append_assoc]
    rfl

mutual

/-- An event that brings no more text than the limit admits stays within it. -/
theorem Event.fits_of_tally {limit length : Nat} : (event : Event) →
    length + event.tally Char.utf8Size ≤ limit → event.Fits limit length
  | .text content, room => by
    rw [Event.Fits, Text.byteLength_eq_tally]
    exact room
  | .leaf _, _ | .start _, _ | .stop, _ => trivial
  | .copied inside, room => fitsAll_of_tally inside (by rw [Event.tally] at room; omega)

/-- Events that bring no more text than the limit admits stay within it. -/
theorem fitsAll_of_tally {limit length : Nat} : (events : List Event) →
    length + Event.tallyAll Char.utf8Size events ≤ limit → FitsAll limit length events
  | [], _ => trivial
  | event :: rest, room => by
    rw [Event.tallyAll] at room
    refine ⟨event.fits_of_tally (by omega), fitsAll_of_tally rest ?_⟩
    cases event with
    | text content =>
      rw [Event.tally] at room
      rw [Event.lengthAfter, Text.byteLength_eq_tally]
      omega
    | leaf | start | stop | copied =>
      show 0 + _ ≤ limit
      omega

end

/-! ## The reference -/

namespace Reader

variable {cx : Context} {base : Level} {r next : Reader} {entity replacement : String}

theorem of_resolve_entity {name : String}
    (h : r.resolve cx name = .ok (.entity entity replacement, next)) :
    name = entity ∧ next.rest = r.rest := by
  unfold resolve at h
  split at h
  · cases h
  · split at h
    · split at h
      · exact absurd h not_fail
      · split at h
        · exact absurd h not_fail
        · cases h
          exact ⟨rfl, rfl⟩
    · split at h
      · exact absurd h not_fail
      · split at h
        · cases h
        · exact absurd h not_fail

/-- How a reference to an internal entity is written. -/
theorem spelled_of_reference (read : r.reference cx = .ok (.entity entity replacement, next)) :
    r.rest = '&' :: (entity.toList ++ ';' :: next.rest) := by
  obtain ⟨first, begins, read⟩ := bind_eq_ok.mp read
  split at read
  · obtain ⟨⟨c, last⟩, _, read⟩ := bind_eq_ok.mp read
    cases read
  · obtain ⟨⟨name, second⟩, named, read⟩ := bind_eq_ok.mp read
    obtain ⟨third, ended, read⟩ := bind_eq_ok.mp read
    obtain ⟨rfl, same⟩ := of_resolve_entity read
    rw [rest_of_expect begins, (isName_of_name named).2, rest_of_expect ended, same]

end Reader

/-- What a run goes on with at a reference to an internal entity. -/
theorem Run.of_reference {cx : Context} {base : Level} {r next : Reader} {tags : List StartTag}
    {entity replacement : String} {events : List Event} {t : Spot}
    (read : r.reference cx = .ok (.entity entity replacement, next))
    (run : Run cx base ⟨r, tags⟩ events t) (goesOn : events ≠ []) :
    (isPlainText replacement = true ∧ ∃ rest, events = .text replacement.toList :: rest ∧
      Run cx base ⟨next, tags⟩ rest t) ∨
    ∃ inside last rest, events = .copied inside :: rest ∧
      Run (cx.opening entity) (base.within tags) ⟨next.enter replacement, []⟩ inside ⟨last, []⟩ ∧
      last.atEnd = true ∧ Run cx base ⟨next.resume last, tags⟩ rest t := by
  have amp := sees_of_reference read
  have other (c : Char) (different : ('&' == c) = false) : r.sees c = false := by
    rw [sees_of_sees amp, different]
  cases run with
  | nil => exact absurd rfl goesOn
  | advance first others =>
    cases first with
    | reference _ again => cases read.symm.trans again
    | plain _ again plain =>
      cases read.symm.trans again
      exact .inl ⟨plain, _, rfl, others⟩
    | sectionEnd begins =>
      have bracket : r.sees ']' = true := sees_of_startsWith rfl begins
      simp [other ']' (by decide)] at bracket
    | character _ absent => simp [amp] at absent
    | leaf lt | start lt => simp [other '<' (by decide)] at lt
    | stop begins =>
      have lt : r.sees '<' = true := sees_of_startsWith rfl begins
      simp [other '<' (by decide)] at lt
    | cut done => simp [atEnd_of_sees amp] at done
  | copied _ again _ inner done others =>
    cases read.symm.trans again
    exact .inr ⟨_, _, _, rfl, inner, done, others⟩

/-! ## Content with the replacement text in it -/

namespace Reader

variable {cx : Context} {base : Level} {first first' place next last : Reader}
  {entity replacement : String} {events : List Event} {tags : List StartTag} {left : List Char}
  {children : List Draft}

theorem eased_self (closed : cx.opened = []) (keeps : cx.options.noBlanks = false)
    (entity : String) : (cx.opening entity).eased false [] = cx ∧ cx.eased false [] = cx := by
  obtain ⟨options, entities, opened⟩ := cx
  obtain rfl : opened = [] := closed
  have same : options.withBlanks false = options := ParseOptions.withBlanks_self keeps
  exact ⟨congrArg (Context.mk · entities []) same, congrArg (Context.mk · entities []) same⟩

/-- A run past the reference is one past the replacement text in its place, and builds the same. -/
theorem exists_run_inlined (strict : cx.options.recover = false)
    (keeps : cx.options.noBlanks = false) (closed : cx.opened = []) (legal : cx.entities.IsLegal)
    (seamless : IsSeamless replacement)
    (read : place.reference cx = .ok (.entity entity replacement, next)) {place' : Reader}
    (run : Run cx base ⟨place, tags⟩ events ⟨last, []⟩) (goesOn : events ≠ [])
    (here : place'.rest = replacement.toList ++ next.rest)
    (fewer : place'.log.expansions ≤ place.log.expansions) :
    ∃ events' last', Run cx base ⟨place', tags⟩ events' ⟨last', []⟩ ∧
      Beside [] [] last.rest last last' ∧
      Event.tallyAll Char.utf8Size events' = Event.tallyAll Char.utf8Size events ∧
      ∀ g : Grown, grownAll g events' = grownAll g events := by
  obtain ⟨inside_eq, same_eq⟩ := eased_self closed keeps entity
  have more := (of_reference_entity read).1
  rcases run.of_reference read goesOn with ⟨plain, rest, rfl, others⟩ |
    ⟨inside, inner, rest, rfl, within, done, others⟩
  · -- Without markup, the replacement text is read character by character.
    have lettered := seamless.isLettered (legal _ (mem_of_reference read)) plain next.rest
    obtain ⟨middle, spelled, middle_eq, log⟩ := exists_run_letters cx base tags lettered here
    rw [lineEnds_eq_self seamless.carriage] at spelled
    obtain ⟨last', others', after⟩ := others.carry_same false (List.nil_subset _) middle_eq
      (by rw [log]; omega)
    rw [same_eq] at others'
    refine ⟨_, last', spelled.append others', after, ?_, fun g => ?_⟩
    · rw [tallyAll_append, tallyAll_letters, Event.tallyAll, Event.tally]
    · rw [grownAll_append, grownAll_letters, grownAll]
  · -- With markup, it is read by the rounds that read it as content of its own.
    have entered : Beside [] next.rest replacement.toList (next.enter replacement) place' :=
      ⟨(List.append_nil _).symm, here, show place'.log.expansions ≤ next.log.expansions by omega⟩
    have ended : inner.rest = [] ++ [] := by simpa [atEnd] using done
    obtain ⟨middle, within', between⟩ := within.carry false (List.nil_subset _)
      (seamless.joins_after [] next.rest) (.inr strict) entered ended
    rw [inside_eq] at within'
    have reached : middle.rest = (next.resume inner).rest := between.rest'
    obtain ⟨last', others', after⟩ :=
      others.carry_same false (List.nil_subset _) reached between.fewer
    rw [same_eq] at others'
    refine ⟨_, last', within'.append others', after, ?_, fun g => ?_⟩
    · rw [tallyAll_append, Event.tallyAll, Event.tally]
    · rw [grownAll_append, grownAll_inside within, grownAll]

/-- Content with the replacement text in the place of the reference is read to its end as well, and
what is built has the same atoms. -/
theorem exists_contentFrom_inlined (strict : cx.options.recover = false)
    (keeps : cx.options.noBlanks = false) (closed : cx.opened = []) (legal : cx.entities.IsLegal)
    (seamless : IsSeamless replacement)
    (run : Run cx base ⟨first, []⟩ events ⟨place, tags⟩)
    (read : place.reference cx = .ok (.entity entity replacement, next))
    (whole : contentFrom cx base first .empty = .ok (children, last))
    (room : Draft.tallies Char.utf8Size children ≤ cx.options.maxTextLength)
    (beside : Beside place.rest (replacement.toList ++ next.rest) left first first') :
    ∃ children' last', contentFrom cx base first' .empty = .ok (children', last') ∧
      Tree.atomsAll (Draft.toTrees children') = Tree.atomsAll (Draft.toTrees children) ∧
      Beside [] [] last.rest last last' := by
  -- The content goes on from the reference to its end.
  obtain ⟨tags_eq, goes, stops⟩ := contentFrom_of_run (g := .empty) run rfl
  have fits : FitsAll cx.options.maxTextLength 0 events := by
    by_contra tight
    obtain ⟨failure, stopped, -⟩ := stops tight
    cases whole.symm.trans stopped
  obtain ⟨others, rest, ends, -, built⟩ :=
    contentFrom_eq_ok_iff.mp ((goes fits).symm.trans whole)
  rw [tags_eq] at rest
  have amp := sees_of_reference read
  have goesOn : others ≠ [] := by
    rintro rfl
    cases rest
    rcases ends.ends with done | begins
    · simp [atEnd_of_sees amp] at done
    · have lt : place.sees '<' = true := sees_of_startsWith rfl begins
      simp [sees_of_sees amp] at lt
  -- The other reader comes to the replacement text, and goes on after it.
  obtain ⟨place', run', here⟩ := run.carry_level false (List.nil_subset _)
    (seamless.joins_before place.rest next.rest left) (.inr strict) beside (List.nil_append _).symm
  rw [(eased_self closed keeps entity).2] at run'
  obtain ⟨others', last', rest', after, counted, same⟩ :=
    exists_run_inlined strict keeps closed legal seamless read rest goesOn here.rest' here.fewer
  have outside (events : List Event) {r : Reader} (run : Run cx base ⟨first, []⟩ events ⟨r, []⟩) :
      (growAll cx.options .empty events).path = [] :=
    List.map_eq_nil_iff.mp (contentFrom_of_run (g := .empty) run rfl).1
  have total : Draft.tallies Char.utf8Size children =
      Event.tallyAll Char.utf8Size (events ++ others) := by
    rw [built, ← growAll_append, Growth.tally_result keeps (outside _ (run.append rest)),
      tally_growAll_of_run keeps (run.append rest) .empty rfl]
    exact Nat.zero_add _
  have fits' : FitsAll cx.options.maxTextLength 0 (events ++ others') := by
    apply fitsAll_of_tally
    rw [tallyAll_append, counted, ← tallyAll_append, ← total]
    omega
  have ends' : (Spot.mk last' []).IsLast := by
    refine ⟨rfl, ?_⟩
    have same_rest : last'.rest = last.rest := after.rest'.trans (List.append_nil _)
    have either := ends.ends
    rwa [atEnd, startsWith, ← same_rest] at either
  have reads : Reads cx base first' .empty (events ++ others') _ last' :=
    ⟨run'.append rest', ends', fits', rfl⟩
  refine ⟨_, last', contentFrom_eq_ok_iff.mpr ⟨_, reads⟩, ?_, after⟩
  rw [built, atomsAll_result _ keeps, atomsAll_result _ keeps, ← growAll_append,
    grown_growAll keeps, grown_growAll keeps, grownAll_append, grownAll_append, same]

end Reader

/-! ## Whole documents -/

/-- A reference to an internal entity in the content of a document itself: how the text around it is
read up to the reference, and what the reference stands for. -/
structure Citation (options : ParseOptions) (text : String) where
  before : List Char
  entity : String
  replacement : String
  after : List Char
  declaration : Option Declaration
  nodes : List Draft
  table : EntityTable
  /-- The reader at the root element. -/
  start : Reader
  /-- The start tag of the root element. -/
  tag : StartTag
  /-- The reader inside of the root element. -/
  first : Reader
  /-- What is read before the reference. -/
  events : List Event
  /-- The reader at the reference. -/
  place : Reader
  /-- The start tags of the elements inside of the root element that hold the reference. -/
  tags : List StartTag
  /-- The reader after the reference. -/
  next : Reader
  spelled : text.toList = before ++ '&' :: (entity.toList ++ ';' :: after)
  opens : Opens options text declaration nodes table start
  started : start.startTag ⟨options, table, []⟩ 1 .initial = .ok (tag, first)
  goesOn : tag.closed = false
  run : Run ⟨options, table, []⟩ ⟨1, tag.scope⟩ ⟨first, []⟩ events ⟨place, tags⟩
  read : place.reference ⟨options, table, []⟩ = .ok (.entity entity replacement, next)
  ends : next.rest = after

namespace Citation

variable {options : ParseOptions} {text : String}

/-- The text with the replacement text in the place of the reference. -/
def inlined (cite : Citation options text) : String :=
  String.ofList (cite.before ++ (cite.replacement.toList ++ cite.after))

/-- What the content of the document is read against. -/
def context (cite : Citation options text) : Context := ⟨options, cite.table, []⟩

theorem rest_place (cite : Citation options text) :
    cite.place.rest = '&' :: (cite.entity.toList ++ ';' :: cite.after) := by
  rw [spelled_of_reference cite.read, cite.ends]

/-- With the replacement text in it, the document is read alike up to the content of the root
element. -/
theorem exists_start (cite : Citation options text) (keeps : options.noBlanks = false) :
    ∃ start' first' left, Opens options cite.inlined cite.declaration cite.nodes cite.table start' ∧
      start'.startTag cite.context 1 .initial = .ok (cite.tag, first') ∧
      Beside cite.place.rest (cite.replacement.toList ++ cite.next.rest) left
        cite.first first' := by
  have same : options.withBlanks false = options := ParseOptions.withBlanks_self keeps
  obtain ⟨left, spelled⟩ := cite.run.exists_front
  have carries : Carries cite.place.rest (cite.replacement.toList ++ cite.next.rest)
      .nothing .ending cite.start (cite.start.startTag cite.context 1 .initial)
      fun r' => r'.startTag (cite.context.eased false []) 1 .initial :=
    carries_startTag cite.start cite.context (List.nil_subset _) 1 .initial
  obtain ⟨front, met, spelled'⟩ := carries.taken cite.started
  have ends : cite.start.rest = (front ++ left) ++ cite.place.rest := by
    rw [List.append_assoc, ← spelled]
    exact spelled'
  have whole : text.toList = cite.before ++ cite.place.rest := by
    rw [cite.spelled, cite.rest_place]
  have whole' : cite.inlined.toList =
      cite.before ++ (cite.replacement.toList ++ cite.next.rest) := by
    rw [inlined, String.toList_ofList, cite.ends]
  obtain ⟨start', opens', beside⟩ :=
    cite.opens.carry false whole whole' ends (.inr (met.append_right left))
  obtain ⟨first', started', inside⟩ := carries.kept cite.started beside spelled (.inr trivial)
  rw [same] at opens'
  have again : cite.context.eased false [] = cite.context :=
    congrArg (Context.mk · cite.table []) same
  rw [again] at started'
  exact ⟨start', first', left, opens', started', inside⟩

/-- The root element is read with the replacement text in it, and its tree is the same. -/
theorem exists_rootElement (cite : Citation options text) (strict : options.recover = false)
    (keeps : options.noBlanks = false) (seamless : IsSeamless cite.replacement) {root : Draft}
    {next first' start' : Reader} {left : List Char}
    (element : cite.start.rootElement cite.context = .ok (root, next))
    (room : root.toTree.tally Char.utf8Size ≤ options.maxTextLength)
    (started' : start'.startTag cite.context 1 .initial = .ok (cite.tag, first'))
    (beside : Beside cite.place.rest (cite.replacement.toList ++ cite.next.rest) left cite.first
      first') :
    ∃ root' next', start'.rootElement cite.context = .ok (root', next') ∧
      root'.toTree = root.toTree ∧ Beside [] [] next.rest next next' := by
  obtain ⟨r₁, early, r₂, -, -, type⟩ := cite.opens
  have legal : cite.table.IsLegal := (exists_of_typeDeclaration strict type).1
  obtain ⟨tag, first, started, read⟩ := rootElement_eq_ok_iff.mp element
  cases cite.started.symm.trans started
  obtain ⟨-, children, last, inside, ended, rfl⟩ := read.resolve_left fun closed => by
    simp [cite.goesOn] at closed
  obtain ⟨children', last', inside', same', after⟩ := exists_contentFrom_inlined strict keeps rfl
    legal seamless cite.run cite.read inside (by rwa [← Draft.tallyAll_toTrees]) beside
  obtain ⟨next', ended', beside'⟩ :=
    (carries_rootEnd false last options cite.tag.name).again ended after
  rw [ParseOptions.withBlanks_self keeps] at ended'
  have element' : start'.rootElement cite.context =
      .ok (.written cite.tag.kind children', next') :=
    rootElement_eq_ok_iff.mpr
      ⟨_, _, started', .inr ⟨cite.goesOn, children', last', inside', ended', rfl⟩⟩
  refine ⟨_, next', element', ?_, beside'⟩
  -- Both elements are in normal form, so that their atoms tell them apart.
  refine eq_of_atoms_eq (of_rootElement strict legal element').2.1
    (of_rootElement strict legal element).2.1 ?_
  show [Tree.node _ (Tree.atomsAll _)] = [Tree.node _ (Tree.atomsAll _)]
  rw [same']

end Citation

theorem tally_ofDraft (weight : Char → Nat) (draft : DocumentDraft) :
    ((Document.ofDraft draft).tree Document.root).tally weight =
      Draft.tallies weight draft.nodes := by
  rw [Document.tree_ofDraft]
  exact Draft.tallyAll_toTrees

/-- A document with the replacement text of an entity in the place of a reference to it is accepted
where the document is, and its tree is the same. -/
theorem ofXml_inlined {options : ParseOptions} {text : String} {doc : Document}
    (strict : options.recover = false) (keeps : options.noBlanks = false)
    (cite : Citation options text) (seamless : IsSeamless cite.replacement)
    (parsed : Document.ofXml options text = .ok doc)
    (room : (doc.tree Document.root).tally Char.utf8Size ≤ options.maxTextLength) :
    ∃ inlined, Document.ofXml options cite.inlined = .ok inlined ∧
      inlined.tree Document.root = doc.tree Document.root := by
  obtain ⟨draft, read, rfl⟩ := map_eq_ok.mp parsed
  obtain ⟨declaration, r₁, early, r₂, nodes, table, start, root, r₄, late, r₅, last, headed, misc₁,
    type, more, begins, element, misc₂, ended, rfl⟩ := parse_eq_ok_iff.mp read
  obtain ⟨rfl, rfl, rfl, rfl⟩ := cite.opens.unique ⟨r₁, early, r₂, headed, misc₁, type⟩
  obtain ⟨start', first', left, opens', started', beside⟩ := cite.exists_start keeps
  obtain ⟨found, rfl, -, again⟩ := exists_of_misc_eq_ok misc₂
  have room' : root.toTree.tally Char.utf8Size ≤ options.maxTextLength := by
    rw [tally_ofDraft, Draft.tallies_reverse, Draft.tallies_append, Draft.tallies_cons] at room
    omega
  obtain ⟨root', r₄', element', tree_eq, beside₄⟩ :=
    cite.exists_rootElement strict keeps seamless element room' started' beside
  have carries : Carries [] [] .ending .nothing r₄ (misc options r₄ (root' :: cite.nodes))
      fun r' => misc (options.withBlanks false) r' (root' :: cite.nodes) := carries_misc ..
  obtain ⟨r₅', misc₂', beside₅⟩ := carries.again (again _) beside₄
  rw [ParseOptions.withBlanks_self keeps] at misc₂'
  have done : r₅.atEnd = true := by
    by_contra more
    rw [if_neg more] at ended
    exact report_ne_ok strict ended
  have done' : r₅'.atEnd = true := by
    rw [atEnd, beside₅.rest', List.append_nil]
    exact done
  obtain ⟨r₁', early', r₂', headed', misc₁', type'⟩ := opens'
  have lt := sees_of_startTag started'
  have read' := parse_eq_ok_iff.mpr ⟨cite.declaration, r₁', early', r₂', cite.nodes, cite.table,
    start', root', r₄', found ++ root' :: cite.nodes, r₅', r₅', headed', misc₁', type',
    atEnd_of_sees lt, lt, element', misc₂', if_pos done', rfl⟩
  refine ⟨_, map_eq_ok.mpr ⟨_, read', rfl⟩, ?_⟩
  rw [Document.tree_ofDraft, Document.tree_ofDraft]
  simp only [toTrees_eq_map, List.map_reverse, List.map_append, List.map_cons, tree_eq]

/-- An element and text, and nothing that could be seen at a seam. -/
theorem isSeamless_marked : IsSeamless "<b/>x" :=
  ⟨by decide, by decide, by decide, by decide, by decide⟩

theorem exists_citation_marked : ∃ cite : Citation {} markedText,
    cite.replacement = "<b/>x" ∧
      cite.inlined = "<!DOCTYPE a [<!ENTITY e \"<b/>x\">]><a><b/>x </a>" := by
  obtain ⟨start, opens, rest, fresh⟩ := exists_opens_marked
  obtain ⟨first, next, last, started, read, ends, -, -⟩ := exists_run_marked rest fresh
  have inlined_eq : String.ofList ("<!DOCTYPE a [<!ENTITY e \"<b/>x\">]><a>".toList ++
      ("<b/>x".toList ++ " </a>".toList)) =
      "<!DOCTYPE a [<!ENTITY e \"<b/>x\">]><a><b/>x </a>" := by decide
  exact ⟨{
    before := "<!DOCTYPE a [<!ENTITY e \"<b/>x\">]><a>".toList
    entity := "e", replacement := "<b/>x", after := " </a>".toList
    declaration := none, nodes := _, table := marked.entities, start, opens
    tag := markedTag, first, started, goesOn := rfl
    events := [], place := first, tags := [], next, run := .nil, read, ends
    spelled := by decide }, rfl, inlined_eq⟩

theorem ofXml_inlined_marked : ∃ (cite : Citation {} markedText) (doc inlined : Document),
    IsSeamless cite.replacement ∧ Document.ofXml {} markedText = .ok doc ∧
      (doc.tree Document.root).tally Char.utf8Size ≤ ({} : ParseOptions).maxTextLength ∧
      cite.inlined = "<!DOCTYPE a [<!ENTITY e \"<b/>x\">]><a><b/>x </a>" ∧
      Document.ofXml {} cite.inlined = .ok inlined ∧
      inlined.tree Document.root = doc.tree Document.root := by
  obtain ⟨cite, replacement, spelled⟩ := exists_citation_marked
  have seamless : IsSeamless cite.replacement := replacement ▸ isSeamless_marked
  obtain ⟨reading, nodes, -, -, root, late⟩ := exists_reading_marked
  have parsed := reading.ofXml_eq_ok
  have room : ((Document.ofDraft reading.draft).tree Document.root).tally Char.utf8Size ≤
      ({} : ParseOptions).maxTextLength := by
    rw [tally_ofDraft, Reading.draft, nodes, root, late]
    show Draft.tallies Char.utf8Size [.written (.doctype "a" none none) [], .written markedTag.kind
      [.copied (.leaf (.plainElement "b")), .written (.text "x ") []]] ≤ _
    decide
  obtain ⟨inlined, accepted, same⟩ := ofXml_inlined rfl rfl cite seamless parsed room
  exact ⟨cite, _, inlined, seamless, parsed, room, spelled, accepted, same⟩

end Xml
end Markup
