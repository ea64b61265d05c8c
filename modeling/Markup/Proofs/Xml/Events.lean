import Markup.Proofs.Xml.Chunk
import Markup.Proofs.Xml.Recovery

/-!
# Content as a list of events

The loop over content does two things at once: it reads events off a text, and it builds nodes from
them. Which events a text gives does not depend on the nodes, and which nodes are built does not
depend on the text. So content is read exactly if there is a run of events to its end whose text
stays within the limit, and what it yields is built from the events alone.
-/

namespace Markup.Xml

/-- What one round of the loop over content finds. -/
inductive Event where
  /-- Character data. -/
  | text (content : List Char)
  /-- A node without children. -/
  | leaf (kind : NodeKind)
  /-- The start of an element. -/
  | start (tag : StartTag)
  /-- The end of the innermost element. -/
  | stop
  /-- Replacement text with markup in it, and the events in it. -/
  | copied (inside : List Event)

/-! ## Reading events -/

/-- Where a reading of content stands: the reader, and the tags of the elements that are open,
innermost first. -/
structure Spot where
  reader : Reader
  tags : List StartTag

/-- The level inside the innermost of the elements opened above a level, given their tags. -/
def Level.within (base : Level) (tags : List StartTag) : Level :=
  ⟨base.depth + tags.length, (tags.head?.map (·.scope)).getD base.scope⟩

theorem Level.inside_eq (base : Level) (path : List OpenElement) :
    base.inside path = base.within (path.map (·.tag)) := by
  rw [inside, within, List.length_map, List.head?_map, Option.map_map]
  rfl

/-- One round of the loop in which nothing is copied, with what it finds. -/
inductive Advance (cx : Context) (base : Level) : Spot → Event → Spot → Prop where
  | reference {r next : Reader} {tags : List StartTag} {content : List Char}
      (amp : r.sees '&' = true) (read : r.reference cx = .ok (.text content, next)) :
      Advance cx base ⟨r, tags⟩ (.text content) ⟨next, tags⟩
  | plain {r next : Reader} {tags : List StartTag} {entity replacement : String}
      (amp : r.sees '&' = true) (read : r.reference cx = .ok (.entity entity replacement, next))
      (plain : isPlainText replacement = true) :
      Advance cx base ⟨r, tags⟩ (.text replacement.toList) ⟨next, tags⟩
  | sectionEnd {r next : Reader} {tags : List StartTag} (begins : r.startsWith "]]>" = true)
      (noted : r.report cx.options .sectionEndInText = .ok next) :
      Advance cx base ⟨r, tags⟩ (.text "]]>".toList) ⟨next.skip 3, tags⟩
  | character {r next : Reader} {tags : List StartTag} {c : Char} (lt : r.sees '<' = false)
      (amp : r.sees '&' = false) (open_ : r.startsWith "]]>" = false)
      (read : r.char cx.options = .ok (c, next)) :
      Advance cx base ⟨r, tags⟩ (.text [c]) ⟨next, tags⟩
  | leaf {r next : Reader} {tags : List StartTag} {kind : NodeKind} (lt : r.sees '<' = true)
      (open_ : r.startsWith "</" = false)
      (read : r.item cx (base.within tags) = .ok (.leaf kind, next)) :
      Advance cx base ⟨r, tags⟩ (.leaf kind) ⟨next, tags⟩
  | start {r next : Reader} {tags : List StartTag} {tag : StartTag} (lt : r.sees '<' = true)
      (open_ : r.startsWith "</" = false)
      (read : r.item cx (base.within tags) = .ok (.start tag, next)) :
      Advance cx base ⟨r, tags⟩ (.start tag) ⟨next, tag :: tags⟩
  | stop {r next : Reader} {tags : List StartTag} {tag : StartTag}
      (begins : r.startsWith "</" = true) (read : r.endTag cx.options tag.name = .ok next) :
      Advance cx base ⟨r, tag :: tags⟩ .stop ⟨next, tags⟩
  | cut {r next : Reader} {tags : List StartTag} {tag : StartTag} (done : r.atEnd = true)
      (noted : r.report cx.options (.endOfText (some .elementContent)) = .ok next) :
      Advance cx base ⟨r, tag :: tags⟩ .stop ⟨next, tags⟩

/-- Rounds of the loop, with the events that they find. -/
inductive Run : Context → Level → Spot → List Event → Spot → Prop where
  | nil {cx : Context} {base : Level} {s : Spot} : Run cx base s [] s
  | advance {cx : Context} {base : Level} {s t u : Spot} {event : Event} {events : List Event}
      (first : Advance cx base s event t) (rest : Run cx base t events u) :
      Run cx base s (event :: events) u
  | copied {cx : Context} {base : Level} {r next last : Reader} {tags : List StartTag} {u : Spot}
      {entity replacement : String} {inside events : List Event} (amp : r.sees '&' = true)
      (read : r.reference cx = .ok (.entity entity replacement, next))
      (markup : isPlainText replacement = false)
      (inner : Run (cx.opening entity) (base.within tags) ⟨next.enter replacement, []⟩ inside
        ⟨last, []⟩)
      (done : last.atEnd = true) (rest : Run cx base ⟨next.resume last, tags⟩ events u) :
      Run cx base ⟨r, tags⟩ (.copied inside :: events) u

theorem Run.append {cx : Context} {base : Level} {s t u : Spot} {events others : List Event}
    (first : Run cx base s events t) (second : Run cx base t others u) :
    Run cx base s (events ++ others) u := by
  induction first with
  | nil => exact second
  | advance first _ ih => exact .advance first (ih second)
  | copied amp read markup inner done _ _ ih => exact .copied amp read markup inner done (ih second)

/-- Where the loop ends: no element is open, and the text ends or an end tag follows. -/
structure Spot.IsLast (s : Spot) : Prop where
  tags : s.tags = []
  ends : s.reader.atEnd = true ∨ s.reader.startsWith "</" = true

/-! ## Text within the limit -/

/-- The length of the text not yet made into a node after an event, given its length before. -/
def Event.lengthAfter (length : Nat) : Event → Nat
  | .text content => length + Text.byteLength content
  | _ => 0

mutual

/-- Whether the text of an event, after text of some length, stays within a limit. -/
def Event.Fits (limit length : Nat) : Event → Prop
  | .text content => length + Text.byteLength content ≤ limit
  | .copied inside => FitsAll limit 0 inside
  | _ => True

/-- Whether all text of events, after text of some length, stays within a limit. -/
def FitsAll (limit length : Nat) : List Event → Prop
  | [] => True
  | event :: rest => event.Fits limit length ∧ FitsAll limit (event.lengthAfter length) rest

end

/-! ## Building nodes -/

/-- The nodes built so far: those at the level reached, latest first, the elements that are open,
innermost first, and the text that is not yet made into a node. -/
structure Growth where
  here : List Draft
  path : List OpenElement
  pending : Pending

namespace Growth

/-- Nothing built yet. -/
def empty : Growth := ⟨[], [], .empty⟩

/-- The tags of the elements that are open. -/
def tags (g : Growth) : List StartTag := g.path.map (·.tag)

/-- The nodes at the level reached, with all text made into nodes. -/
def flush (g : Growth) (options : ParseOptions) : List Draft := g.pending.flush options g.here

/-- The nodes built, in order, if no element is open. -/
def result (g : Growth) (options : ParseOptions) : List Draft := (g.flush options).reverse

/-- Close the innermost element. -/
def close (g : Growth) (options : ParseOptions) : Growth :=
  match g.path with
  | [] => g
  | element :: path => ⟨element.close (g.flush options), path, .empty⟩

end Growth

mutual

/-- Go on building after an event. -/
def Event.grow (options : ParseOptions) (g : Growth) : Event → Growth
  | .text content => { g with pending := g.pending.add content }
  | .leaf kind => ⟨.written kind [] :: g.flush options, g.path, .empty⟩
  | .start tag => ⟨[], ⟨tag, g.flush options⟩ :: g.path, .empty⟩
  | .stop => g.close options
  | .copied inside =>
    ⟨Draft.addCopies options.noBlanks (g.flush options)
      ((growAll options .empty inside).result options), g.path, .empty⟩

/-- Go on building after some events. -/
def growAll (options : ParseOptions) (g : Growth) : List Event → Growth
  | [] => g
  | event :: rest => growAll options (event.grow options g) rest

end

theorem growAll_append (options : ParseOptions) (g : Growth) (events others : List Event) :
    growAll options g (events ++ others) = growAll options (growAll options g events) others := by
  induction events generalizing g with
  | nil => rfl
  | cons event rest ih => rw [List.cons_append, growAll, growAll, ih]

/-! ## The loop and its events -/

namespace Reader

variable {cx : Context} {base : Level} {r next : Reader} {g : Growth} {event : Event}
  {events : List Event} {s t : Spot}

/-- The loop over content, going on with what was built. -/
def contentFrom (cx : Context) (base : Level) (r : Reader) (g : Growth) :
    Except ParseFailure (List Draft × Reader) :=
  content cx base r g.here g.path g.pending

/-- What is extended is the text before it, if the limit admits it. -/
theorem extend_bind {α : Type} {options : ParseOptions} {pending : Pending} {content : List Char}
    {go : Pending → Except ParseFailure α} : (r.extend options pending content >>= go) =
      (r.extend options pending content >>= fun _ => go (pending.add content)) := by
  unfold extend
  dsimp only
  split <;> rfl

theorem contentFrom_eq : contentFrom cx base r g =
    if r.atEnd then
      match g.tags with
      | [] => .ok (g.result cx.options, r)
      | _ :: _ => r.report cx.options (.endOfText (some .elementContent)) >>= fun next =>
        contentFrom cx base next (g.close cx.options)
    else if r.sees '<' then
      if r.startsWith "</" then
        match g.tags with
        | [] => .ok (g.result cx.options, r)
        | tag :: _ => r.endTag cx.options tag.name >>= fun next =>
          contentFrom cx base next (g.close cx.options)
      else r.item cx (base.within g.tags) >>= fun found =>
        match found with
        | (.leaf kind, next) => contentFrom cx base next (Event.grow cx.options g (.leaf kind))
        | (.start tag, next) => contentFrom cx base next (Event.grow cx.options g (.start tag))
    else if r.sees '&' then
      r.reference cx >>= fun found =>
        match found with
        | (.text found, next) => next.extend cx.options g.pending found >>= fun _ =>
          contentFrom cx base next (Event.grow cx.options g (.text found))
        | (.entity entity replacement, next) =>
          if isPlainText replacement then
            next.extend cx.options g.pending replacement.toList >>= fun _ =>
              contentFrom cx base next (Event.grow cx.options g (.text replacement.toList))
          else
            contentFrom (cx.opening entity) (base.within g.tags) (next.enter replacement) .empty >>=
              fun inside =>
                if inside.2.atEnd then
                  contentFrom cx base (next.resume inside.2)
                    ⟨Draft.addCopies cx.options.noBlanks (g.flush cx.options) inside.1, g.path,
                      .empty⟩
                else inside.2.fail (.endTagInEntity entity)
    else if r.startsWith "]]>" then
      r.report cx.options .sectionEndInText >>= fun next =>
        (next.skip 3).extend cx.options g.pending "]]>".toList >>= fun _ =>
          contentFrom cx base (next.skip 3) (Event.grow cx.options g (.text "]]>".toList))
    else r.char cx.options >>= fun read =>
      read.2.extend cx.options g.pending [read.1] >>= fun _ =>
        contentFrom cx base read.2 (Event.grow cx.options g (.text [read.1])) := by
  obtain ⟨here, path, pending⟩ := g
  rw [contentFrom, content_eq]
  cases spelled : r.rest with
  | nil =>
    have done : r.atEnd = true := by simp [atEnd, spelled]
    simp only [done, ↓reduceIte]
    cases path <;> rfl
  | cons c rest =>
    have seen : ∀ d, r.sees d = (c == d) := fun d => by simp [sees, spelled]
    have more : r.atEnd = false := by simp [atEnd, spelled]
    simp only [more, seen, Bool.false_eq_true, ↓reduceIte, Level.inside_eq, extend_bind]
    congr 1
    · congr 1
      cases path <;> rfl

/-- Where the loop ends, it yields what was built. -/
theorem contentFrom_of_isLast (last : s.IsLast) (tags : g.tags = s.tags) :
    contentFrom cx base s.reader g = .ok (g.result cx.options, s.reader) := by
  rw [contentFrom_eq, tags, last.tags]
  split
  · rfl
  · rename_i more
    have begins := last.ends.resolve_left more
    obtain ⟨rest, spelled⟩ := startsWith_iff.mp begins
    rw [if_pos (by simp [sees, ← spelled]), if_pos begins]

/-- Only one character comes next. -/
theorem sees_of_sees {c : Char} (seen : r.sees c = true) (d : Char) : r.sees d = (c == d) := by
  obtain ⟨rest, spelled⟩ := List.head?_eq_some_iff.mp (beq_iff_eq.mp seen)
  simp [sees, spelled]

theorem sees_of_rest {c d : Char} {rest : List Char} (spelled : r.rest = c :: rest)
    (same : (c == d) = true) : r.sees d = true := by
  rw [sees, spelled]
  simpa using same

theorem atEnd_of_sees {c : Char} (seen : r.sees c = true) : r.atEnd = false := by
  obtain ⟨rest, spelled⟩ := List.head?_eq_some_iff.mp (beq_iff_eq.mp seen)
  simp [atEnd, spelled]

theorem sees_of_startsWith {word : String} {c : Char} {letters : List Char}
    (begins : word.toList = c :: letters) (starts : r.startsWith word = true) :
    r.sees c = true := by
  obtain ⟨rest, spelled⟩ := startsWith_iff.mp starts
  simp [sees, ← spelled, begins]

/-- Character data is kept if it stays within the limit, and stops the loop otherwise. -/
theorem of_extend_bind {α : Type} (r : Reader) (options : ParseOptions) (pending : Pending)
    (content : List Char) (go : Except ParseFailure α) :
    ((Event.text content).Fits options.maxTextLength pending.length →
      (r.extend options pending content >>= fun _ => go) = go) ∧
    (¬ (Event.text content).Fits options.maxTextLength pending.length → ∃ failure,
      (r.extend options pending content >>= fun _ => go) = .error failure ∧
        failure.problem = .textTooLong options.maxTextLength) := by
  refine ⟨fun fits => ?_, fun tight => ?_⟩
  · rw [extend_eq_ok options fits]
    rfl
  · have stops : r.extend options pending content = r.fail (.textTooLong options.maxTextLength) :=
      if_pos (Nat.not_le.mp tight)
    rw [stops]
    exact ⟨_, rfl, rfl⟩

/-- What the loop does after a round is decided by what the round finds, within the limit. -/
theorem contentFrom_of_advance (advance : Advance cx base s event t) (tags : g.tags = s.tags) :
    (event.Fits cx.options.maxTextLength g.pending.length →
      contentFrom cx base s.reader g = contentFrom cx base t.reader (event.grow cx.options g)) ∧
    (¬ event.Fits cx.options.maxTextLength g.pending.length → ∃ failure,
      contentFrom cx base s.reader g = .error failure ∧
        failure.problem = .textTooLong cx.options.maxTextLength) := by
  rw [contentFrom_eq, tags]
  cases advance with
  | reference amp read =>
    simp only [atEnd_of_sees amp, sees_of_sees amp, Bool.false_eq_true, ↓reduceIte,
      show ('&' == '<') = false from rfl, BEq.rfl, read]
    exact of_extend_bind ..
  | plain amp read plain =>
    simp only [atEnd_of_sees amp, sees_of_sees amp, Bool.false_eq_true, ↓reduceIte,
      show ('&' == '<') = false from rfl, BEq.rfl, read]
    dsimp only [bind, Except.bind]
    rw [if_pos plain]
    exact of_extend_bind ..
  | @sectionEnd r next tags begins noted =>
    have seen : r.sees ']' = true := sees_of_startsWith rfl begins
    simp only [atEnd_of_sees seen, sees_of_sees seen, Bool.false_eq_true, ↓reduceIte,
      show (']' == '<') = false from rfl, show (']' == '&') = false from rfl, begins, noted]
    exact of_extend_bind ..
  | @character r next tags c lt amp open_ read =>
    have more : r.atEnd = false := by
      cases spelled : r.rest with
      | nil => simp [char, spelled, fail] at read
      | cons d rest => simp [atEnd, spelled]
    simp only [more, lt, amp, open_, Bool.false_eq_true, ↓reduceIte, read]
    exact of_extend_bind ..
  | leaf lt open_ read =>
    simp only [atEnd_of_sees lt, lt, open_, Bool.false_eq_true, ↓reduceIte, read]
    exact ⟨fun _ => rfl, fun tight => absurd trivial tight⟩
  | start lt open_ read =>
    simp only [atEnd_of_sees lt, lt, open_, Bool.false_eq_true, ↓reduceIte, read]
    exact ⟨fun _ => rfl, fun tight => absurd trivial tight⟩
  | @stop r next tags tag begins read =>
    have seen : r.sees '<' = true := sees_of_startsWith rfl begins
    simp only [atEnd_of_sees seen, seen, begins, Bool.false_eq_true, ↓reduceIte, read]
    exact ⟨fun _ => rfl, fun tight => absurd trivial tight⟩
  | cut done noted =>
    simp only [done, ↓reduceIte, noted]
    exact ⟨fun _ => rfl, fun tight => absurd trivial tight⟩

/-- What is built after a round keeps to the tags that the round leaves open. -/
theorem grow_of_advance (advance : Advance cx base s event t) (tags : g.tags = s.tags)
    (options : ParseOptions) : (event.grow options g).tags = t.tags ∧
      (event.grow options g).pending.length = event.lengthAfter g.pending.length := by
  cases advance with
  | start lt open_ read => exact ⟨congrArg (List.cons _) tags, rfl⟩
  | stop | cut =>
    obtain ⟨here, path, pending⟩ := g
    cases path with
    | nil => cases tags
    | cons element path => exact ⟨(List.cons.inj tags).2, rfl⟩
  | _ => exact ⟨tags, rfl⟩

/-- What the loop does in replacement text, and after it. -/
theorem contentFrom_of_entity {entity replacement : String} (amp : r.sees '&' = true)
    (read : r.reference cx = .ok (.entity entity replacement, next))
    (markup : isPlainText replacement = false) :
    contentFrom cx base r g =
      contentFrom (cx.opening entity) (base.within g.tags) (next.enter replacement) .empty >>=
        fun inside =>
          if inside.2.atEnd then
            contentFrom cx base (next.resume inside.2)
              ⟨Draft.addCopies cx.options.noBlanks (g.flush cx.options) inside.1, g.path, .empty⟩
          else inside.2.fail (.endTagInEntity entity) := by
  rw [contentFrom_eq]
  simp only [atEnd_of_sees amp, sees_of_sees amp, Bool.false_eq_true, ↓reduceIte,
    show ('&' == '<') = false from rfl, BEq.rfl, read]
  dsimp only [bind, Except.bind]
  rw [if_neg (by simp [markup])]

/-- The loop goes on from the end of a run with what its events build, if their text stays within
the limit, and stops otherwise. -/
theorem contentFrom_of_run (run : Run cx base s events t) (tags : g.tags = s.tags) :
    (growAll cx.options g events).tags = t.tags ∧
    (FitsAll cx.options.maxTextLength g.pending.length events →
      contentFrom cx base s.reader g =
        contentFrom cx base t.reader (growAll cx.options g events)) ∧
    (¬ FitsAll cx.options.maxTextLength g.pending.length events → ∃ failure,
      contentFrom cx base s.reader g = .error failure ∧
        failure.problem = .textTooLong cx.options.maxTextLength) := by
  induction run generalizing g with
  | nil => exact ⟨tags, fun _ => rfl, fun tight => absurd trivial tight⟩
  | @advance cx base s middle t event events first _ ih =>
    obtain ⟨tags', length⟩ := grow_of_advance first tags cx.options
    obtain ⟨goes, stops⟩ := contentFrom_of_advance first tags
    obtain ⟨last, goes', stops'⟩ := ih tags'
    rw [length] at goes' stops'
    refine ⟨last, fun fits => (goes fits.1).trans (goes' fits.2), fun tight => ?_⟩
    by_cases fits : event.Fits cx.options.maxTextLength g.pending.length
    · rw [goes fits]
      exact stops' fun others => tight ⟨fits, others⟩
    · exact stops fits
  | @copied cx base r next last open_ t entity replacement inside events amp read markup _ done _
      inner ih =>
    obtain ⟨tags', goes, stops⟩ := inner (g := .empty) rfl
    obtain ⟨final, goes', stops'⟩ := ih (g := Event.grow cx.options g (.copied inside)) tags
    have whole : contentFrom cx base r g = _ := contentFrom_of_entity amp read markup
    rw [tags] at whole
    have within : FitsAll cx.options.maxTextLength 0 inside →
        contentFrom cx base r g = contentFrom cx base (next.resume last)
          (Event.grow cx.options g (.copied inside)) := by
      intro fits
      have entered : contentFrom (cx.opening entity) (base.within open_) (next.enter replacement)
          .empty = .ok ((growAll cx.options .empty inside).result cx.options, last) :=
        (goes fits).trans (contentFrom_of_isLast (s := ⟨last, []⟩) ⟨rfl, .inl done⟩ tags')
      rw [whole, entered]
      exact if_pos done
    refine ⟨final, fun fits => (within fits.1).trans (goes' fits.2), fun tight => ?_⟩
    by_cases fits : FitsAll cx.options.maxTextLength 0 inside
    · rw [within fits]
      exact stops' fun others => tight ⟨fits, others⟩
    · obtain ⟨failure, stopped, problem⟩ := stops fits
      exact ⟨failure, by rw [whole, stopped]; rfl, problem⟩

/-- What extends text is kept within the limit. -/
theorem of_extend {options : ParseOptions} {pending more : Pending} {content : List Char}
    (h : r.extend options pending content = .ok more) :
    more = pending.add content ∧
      (Event.text content).Fits options.maxTextLength pending.length := by
  unfold extend at h
  dsimp only at h
  split at h
  · exact absurd h not_fail
  · rename_i room
    cases h
    exact ⟨rfl, Nat.not_lt.mp room⟩

/-- Content that is read to its end by a run of events within the limit, and what they build. -/
structure Reads (cx : Context) (base : Level) (r : Reader) (g : Growth) (events : List Event)
    (children : List Draft) (last : Reader) : Prop where
  run : Run cx base ⟨r, g.tags⟩ events ⟨last, []⟩
  ends : (Spot.mk last []).IsLast
  fits : FitsAll cx.options.maxTextLength g.pending.length events
  built : children = (growAll cx.options g events).result cx.options

theorem Reads.advance {children : List Draft} {last : Reader}
    (first : Advance cx base ⟨r, g.tags⟩ event ⟨next, (event.grow cx.options g).tags⟩)
    (fits : event.Fits cx.options.maxTextLength g.pending.length)
    (rest : Reads cx base next (event.grow cx.options g) events children last) :
    Reads cx base r g (event :: events) children last where
  run := .advance first rest.run
  ends := rest.ends
  fits := ⟨fits, (grow_of_advance first rfl cx.options).2 ▸ rest.fits⟩
  built := rest.built

/-- Where the loop succeeds, content is read by the events that it finds. -/
theorem exists_reads {here children : List Draft} {path : List OpenElement} {pending : Pending}
    {last : Reader} (h : content cx base r here path pending = .ok (children, last)) :
    ∃ events, Reads cx base r ⟨here, path, pending⟩ events children last := by
  fun_induction content cx base r here path pending generalizing children last with
  | case1 =>
    rename_i more
    cases h
    exact ⟨[], .nil, ⟨rfl, .inl (by simp [atEnd, more])⟩, trivial, rfl⟩
  | case4 =>
    rename_i begins
    cases h
    exact ⟨[], .nil, ⟨rfl, .inr begins⟩, trivial, rfl⟩
  | case3 =>
    -- The text ends within an element.
    rename_i more _ _ _ noted ih
    obtain ⟨events, reads⟩ := ih h
    exact ⟨_, .advance (.cut (by simp [atEnd, more]) noted) trivial reads⟩
  | case6 =>
    rename_i begins _ _ _ closed ih
    obtain ⟨events, reads⟩ := ih h
    exact ⟨_, .advance (.stop begins closed) trivial reads⟩
  | case8 =>
    rename_i more lt open_ _ _ read ih
    obtain ⟨events, reads⟩ := ih h
    rw [Level.inside_eq] at read
    exact ⟨_, .advance (.leaf (sees_of_rest more lt) (by simpa using open_) read) trivial reads⟩
  | case9 =>
    rename_i more lt open_ _ _ read ih
    obtain ⟨events, reads⟩ := ih h
    rw [Level.inside_eq] at read
    exact ⟨_, .advance (.start (sees_of_rest more lt) (by simpa using open_) read) trivial reads⟩
  | case12 =>
    rename_i more _ amp _ _ read _ extended ih
    obtain ⟨events, reads⟩ := ih h
    obtain ⟨rfl, fits⟩ := of_extend extended
    exact ⟨_, .advance (.reference (sees_of_rest more amp) read) fits reads⟩
  | case14 =>
    rename_i more _ amp _ _ _ read plain _ extended ih
    obtain ⟨events, reads⟩ := ih h
    obtain ⟨rfl, fits⟩ := of_extend extended
    exact ⟨_, .advance (.plain (sees_of_rest more amp) read plain) fits reads⟩
  | case16 =>
    -- Replacement text is read by events of its own.
    rename_i more _ amp _ _ _ read markup _ _ within done here inner ih
    obtain ⟨inside, run, -, fits, rfl⟩ := inner within
    obtain ⟨events, reads⟩ := ih h
    rw [Level.inside_eq] at run
    exact ⟨.copied inside :: events, .copied (sees_of_rest more amp) read (by simpa using markup)
      run done reads.run, reads.ends, ⟨fits, reads.fits⟩, reads.built⟩
  | case17 => exact absurd h not_fail
  | case20 =>
    rename_i begins _ noted _ extended ih
    obtain ⟨events, reads⟩ := ih h
    obtain ⟨rfl, fits⟩ := of_extend extended
    exact ⟨_, .advance (.sectionEnd begins noted) fits reads⟩
  | case23 =>
    rename_i more lt amp open_ _ _ read _ extended ih
    obtain ⟨events, reads⟩ := ih h
    obtain ⟨rfl, fits⟩ := of_extend extended
    refine ⟨_, .advance (.character ?_ ?_ (by simpa using open_) read) fits reads⟩
    · simpa [sees, more] using lt
    · simpa [sees, more] using amp
  | _ => cases h

/-- The loop over content succeeds exactly where a run of events within the limit leads to an end,
and then it yields what the events build. -/
theorem contentFrom_eq_ok_iff {children : List Draft} {last : Reader} :
    contentFrom cx base r g = .ok (children, last) ↔
      ∃ events, Reads cx base r g events children last := by
  refine ⟨exists_reads, fun ⟨events, run, ends, fits, built⟩ => ?_⟩
  obtain ⟨tags, goes, -⟩ := contentFrom_of_run run rfl
  rw [built]
  exact (goes fits).trans (contentFrom_of_isLast ends tags)

end Reader
end Markup.Xml
