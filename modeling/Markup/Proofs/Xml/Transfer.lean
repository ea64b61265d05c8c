import Markup.Proofs.Xml.Events
import Markup.Proofs.Xml.Preface

/-!
# Events of a text with another end

The events that a text gives are those that another text with the same front gives, if nothing in
the front can tell the two ends apart. It makes no difference either whether the elements that are
open are counted in the level where the reading started or among the tags.
-/

namespace Markup.Xml

open Reader

/-- Two ends of a text of which no character of the text sees a difference: what ends a CDATA
section does so with either end, and so does a line end. -/
structure Joins (tail tail' text : List Char) : Prop where
  clear : ∀ left, left <:+ text → left ≠ [] →
    "]]>".toList <+: left ++ tail' → "]]>".toList <+: left ++ tail
  single : '\r' ∈ text → tail'.head? = some '\n' → tail.head? = some '\n'

theorem Level.within_append (base : Level) (tags outer : List StartTag) :
    (base.within outer).within tags = base.within (tags ++ outer) := by
  cases tags with
  | nil => rfl
  | cons tag tags =>
    simp only [within, List.length_append, List.cons_append, List.head?_cons, Option.map_some,
      List.length_cons]
    congr 1
    omega

section

variable {cx : Context} {base : Level} {opened : List String} {outer tags tags' : List StartTag}
  {event : Event} {events : List Event} {s t : Spot} {r r' next : Reader}
  {tail tail' text left : List Char}

theorem Joins.refl (tail text : List Char) : Joins tail tail text :=
  ⟨fun _ _ _ begins => begins, fun _ feed => feed⟩

theorem Joins.suffix (front : List Char) (joins : Joins tail tail' (front ++ text)) :
    Joins tail tail' text where
  clear left suffix := joins.clear left (suffix.trans (List.suffix_append ..))
  single mem := joins.single (List.mem_append_right _ mem)

/-- A reference goes past a part of the text. -/
theorem exists_front_of_reference {found : Reference} (read : r.reference cx = .ok (found, next)) :
    ∃ front, r.rest = front ++ next.rest := by
  have carries : Carries [] [] .nothing .character r (r.reference cx)
      fun r' => r'.reference (cx.eased false cx.opened) := carries_reference r cx (fun _ => id)
  obtain ⟨front, -, spelled⟩ := carries.taken read
  exact ⟨front, spelled⟩

/-- So does a round. -/
theorem Advance.exists_front (advance : Advance cx base s event t) :
    ∃ front, s.reader.rest = front ++ t.reader.rest := by
  have item {r next : Reader} {level : Level} {found : Item}
      (read : r.item cx level = .ok (found, next)) : ∃ front, r.rest = front ++ next.rest := by
    have carries : Carries [] [] .nothing .ending r (r.item cx level)
        fun r' => r'.item (cx.eased false cx.opened) level := carries_item r cx (fun _ => id) level
    obtain ⟨front, -, spelled⟩ := carries.taken read
    exact ⟨front, spelled⟩
  cases advance with
  | reference amp read | plain amp read => exact exists_front_of_reference read
  | @sectionEnd r next tags begins noted =>
    obtain ⟨rest, spelled⟩ := startsWith_iff.mp begins
    refine ⟨"]]>".toList, ?_⟩
    rw [rest_skip, rest_report noted, ← spelled]
    rfl
  | character lt amp open_ read =>
    obtain ⟨front, -, spelled, -⟩ := exists_char_of_char false read
    exact ⟨front, spelled⟩
  | leaf lt open_ read | start lt open_ read => exact item read
  | @stop r next tags tag begins read =>
    have carries : Carries [] [] .nothing .ending r (r.endTag cx.options tag.name)
        fun r' => r'.endTag (cx.options.withBlanks false) tag.name := carries_endTag ..
    obtain ⟨front, -, spelled⟩ := carries.taken read
    exact ⟨front, spelled⟩
  | cut done noted => exact ⟨[], (rest_report noted).symm⟩

/-- So does a run. -/
theorem Run.exists_front (run : Run cx base s events t) :
    ∃ front, s.reader.rest = front ++ t.reader.rest := by
  induction run with
  | nil => exact ⟨[], rfl⟩
  | advance first _ ih =>
    obtain ⟨front, spelled⟩ := first.exists_front
    obtain ⟨back, spelled'⟩ := ih
    exact ⟨front ++ back, by rw [spelled, spelled', List.append_assoc]⟩
  | @copied cx base r next last _ _ _ _ _ _ _ read _ _ _ _ _ ih =>
    obtain ⟨front, spelled⟩ := exists_front_of_reference read
    obtain ⟨back, spelled'⟩ := ih
    rw [rest_resume] at spelled'
    exact ⟨front ++ back, by rw [spelled, spelled', List.append_assoc]⟩

/-- A reader that stands beside one that sees an ampersand sees it, too. -/
theorem carry_reference (noBlanks : Bool) (fewer : opened ⊆ cx.opened) {found : Reference}
    (amp : r.sees '&' = true) (read : r.reference cx = .ok (found, next))
    (beside : Beside tail tail' text r r') (ends : next.rest = left ++ tail) :
    r'.sees '&' = true ∧ ∃ next',
      r'.reference (cx.eased noBlanks opened) = .ok (found, next') ∧
        Beside tail tail' left next next' := by
  have carries : Carries tail tail' .nothing .character r (r.reference cx)
      fun r' => r'.reference (cx.eased noBlanks opened) := carries_reference r cx fewer
  obtain ⟨front, met, text_eq⟩ := carries.text_eq read beside ends
  have sight : Sight tail tail' .character r r' :=
    .of_beside beside (.inr (text_eq ▸ met.append_right left))
  exact ⟨by rw [sight.sees (Nat.le_refl _), amp], carries.kept read beside ends (.inr trivial)⟩

theorem carry_item (noBlanks : Bool) (fewer : opened ⊆ cx.opened) {level : Level} {found : Item}
    (lt : r.sees '<' = true) (open_ : r.startsWith "</" = false)
    (read : r.item cx level = .ok (found, next)) (beside : Beside tail tail' text r r')
    (ends : next.rest = left ++ tail) :
    r'.sees '<' = true ∧ r'.startsWith "</" = false ∧ ∃ next',
      r'.item (cx.eased noBlanks opened) level = .ok (found, next') ∧
        Beside tail tail' left next next' := by
  have carries : Carries tail tail' .nothing .ending r (r.item cx level)
      fun r' => r'.item (cx.eased noBlanks opened) level := carries_item r cx fewer level
  obtain ⟨front, met, text_eq⟩ := carries.text_eq read beside ends
  have sight : Sight tail tail' .ending r r' :=
    .of_beside beside (.inr (text_eq ▸ met.append_right left))
  exact ⟨by rw [sight.sees (by decide), lt], by rw [sight.startsWith (by decide), open_],
    carries.kept read beside ends (.inr trivial)⟩

theorem carry_char (noBlanks : Bool) {c : Char} (lt : r.sees '<' = false) (amp : r.sees '&' = false)
    (open_ : r.startsWith "]]>" = false) (read : r.char cx.options = .ok (c, next))
    (joins : Joins tail tail' text) (beside : Beside tail tail' text r r')
    (ends : next.rest = left ++ tail) :
    r'.sees '<' = false ∧ r'.sees '&' = false ∧ r'.startsWith "]]>" = false ∧ ∃ next',
      r'.char (cx.options.withBlanks noBlanks) = .ok (c, next') ∧
        Beside tail tail' left next next' := by
  obtain ⟨front, solid, spelled, -⟩ := exists_char_of_char noBlanks read
  have text_eq : text = front ++ left := beside.text_eq (ends ▸ spelled)
  have met : Demand.character.Met text := text_eq ▸ List.append_ne_nil_of_left_ne_nil solid left
  have sight : Sight tail tail' .character r r' := .of_beside beside (.inr met)
  refine ⟨by rw [sight.sees (Nat.le_refl _), lt], by rw [sight.sees (Nat.le_refl _), amp], ?_,
    Beside.char noBlanks read beside ends fun carriage feed => ?_⟩
  · rw [← Bool.not_eq_true, startsWith_iff, beside.rest']
    intro begins
    rw [← Bool.not_eq_true, startsWith_iff, beside.rest] at open_
    exact open_ (joins.clear text (List.suffix_refl _) met begins)
  · cases left with
    | nil => exact joins.single carriage feed
    | cons d left => exact feed

/-- A round finds with the other end what it finds with the first. -/
theorem Advance.carry (noBlanks : Bool) (fewer : opened ⊆ cx.opened)
    (advance : Advance cx (base.within outer) s event t) (joins : Joins tail tail' text)
    (alike : tail = tail' ∨ cx.options.recover = false)
    (beside : Beside tail tail' text s.reader r') (ends : t.reader.rest = left ++ tail) :
    ∃ next', Advance (cx.eased noBlanks opened) base ⟨r', s.tags ++ outer⟩ event
      ⟨next', t.tags ++ outer⟩ ∧ Beside tail tail' left t.reader next' := by
  cases advance with
  | reference amp read =>
    obtain ⟨amp', next', read', after⟩ := carry_reference noBlanks fewer amp read beside ends
    exact ⟨next', .reference amp' read', after⟩
  | plain amp read plain =>
    obtain ⟨amp', next', read', after⟩ := carry_reference noBlanks fewer amp read beside ends
    exact ⟨next', .plain amp' read' plain, after⟩
  | @sectionEnd r next tags begins noted =>
    obtain rfl := alike.resolve_right fun strict => report_ne_ok strict noted
    have carries : Carries tail tail .nothing .nothing r (r.report cx.options .sectionEndInText)
        fun r' => r'.report (cx.options.withBlanks noBlanks) .sectionEndInText := carries_report ..
    have same : r'.rest = r.rest := beside.rest'.trans beside.rest.symm
    have here : next.rest = text ++ tail := (rest_report noted).trans beside.rest
    obtain ⟨rest, spelled⟩ := startsWith_iff.mp begins
    have text_eq : text = "]]>".toList ++ left := by
      refine beside.text_eq ?_
      rw [← ends, rest_skip, rest_report noted, ← spelled]
      rfl
    obtain ⟨next', noted', after⟩ := carries.kept noted beside here (.inl rfl)
    have begins' : r'.startsWith "]]>" = true := startsWith_iff.mpr ⟨rest, spelled.trans same.symm⟩
    rw [text_eq] at after
    exact ⟨next'.skip 3, .sectionEnd begins' noted', after.skip rfl⟩
  | character lt amp open_ read =>
    obtain ⟨lt', amp', open', next', read', after⟩ :=
      carry_char noBlanks lt amp open_ read joins beside ends
    exact ⟨next', .character lt' amp' open' read', after⟩
  | leaf lt open_ read =>
    obtain ⟨lt', open', next', read', after⟩ :=
      carry_item noBlanks fewer lt open_ read beside ends
    rw [Level.within_append] at read'
    exact ⟨next', .leaf lt' open' read', after⟩
  | start lt open_ read =>
    obtain ⟨lt', open', next', read', after⟩ :=
      carry_item noBlanks fewer lt open_ read beside ends
    rw [Level.within_append] at read'
    exact ⟨next', .start lt' open' read', after⟩
  | @stop r next tags tag begins read =>
    have carries : Carries tail tail' .nothing .ending r (r.endTag cx.options tag.name)
        fun r' => r'.endTag (cx.options.withBlanks noBlanks) tag.name := carries_endTag ..
    obtain ⟨front, met, text_eq⟩ := carries.text_eq read beside ends
    have sight : Sight tail tail' .ending r r' :=
      .of_beside beside (.inr (text_eq ▸ met.append_right left))
    obtain ⟨next', read', after⟩ := carries.kept read beside ends (.inr trivial)
    exact ⟨next', .stop (by rw [sight.startsWith (by decide), begins]) read', after⟩
  | @cut r next tags tag done noted =>
    obtain rfl := alike.resolve_right fun strict => report_ne_ok strict noted
    have carries : Carries tail tail .nothing .nothing r
        (r.report cx.options (.endOfText (some .elementContent)))
        fun r' => r'.report (cx.options.withBlanks noBlanks) (.endOfText (some .elementContent)) :=
      carries_report ..
    have same : r'.rest = r.rest := beside.rest'.trans beside.rest.symm
    obtain ⟨next', noted', after⟩ := carries.kept noted beside ends (.inl rfl)
    exact ⟨next', .cut (by rw [atEnd, same, ← atEnd, done]) noted', after⟩

/-- A run finds with the other end what it finds with the first. -/
theorem Run.carry (noBlanks : Bool) (fewer : opened ⊆ cx.opened)
    (run : Run cx (base.within outer) s events t) (joins : Joins tail tail' text)
    (alike : tail = tail' ∨ cx.options.recover = false)
    (beside : Beside tail tail' text s.reader r') (ends : t.reader.rest = left ++ tail) :
    ∃ next', Run (cx.eased noBlanks opened) base ⟨r', s.tags ++ outer⟩ events
      ⟨next', t.tags ++ outer⟩ ∧ Beside tail tail' left t.reader next' := by
  generalize level : base.within outer = inside at run
  induction run generalizing opened base outer r' tail tail' text left with
  | nil =>
    have same : text = left := List.append_cancel_right (beside.rest.symm.trans ends)
    exact ⟨r', .nil, same ▸ beside⟩
  | @advance cx inside s middle t event events first others ih =>
    subst level
    obtain ⟨back, spelled⟩ := others.exists_front
    rw [ends, ← List.append_assoc] at spelled
    obtain ⟨next', first', between⟩ := first.carry noBlanks fewer joins alike beside spelled
    obtain ⟨front, text_eq⟩ : ∃ front, text = front ++ (back ++ left) := by
      obtain ⟨front, went⟩ := first.exists_front
      exact ⟨front, beside.text_eq (spelled ▸ went)⟩
    subst text_eq
    obtain ⟨last', rest', after⟩ := ih fewer (joins.suffix front) alike between ends rfl
    exact ⟨last', .advance first' rest', after⟩
  | @copied cx inside r next last tags t entity replacement within events amp read markup _ done
      others inner ih =>
    subst level
    obtain ⟨back, spelled⟩ := others.exists_front
    rw [ends, ← List.append_assoc, rest_resume] at spelled
    obtain ⟨amp', next', read', between⟩ := carry_reference noBlanks fewer amp read beside spelled
    obtain ⟨front, text_eq⟩ : ∃ front, text = front ++ (back ++ left) := by
      obtain ⟨front, went⟩ := exists_front_of_reference read
      exact ⟨front, beside.text_eq (spelled ▸ went)⟩
    subst text_eq
    -- Replacement text is read to its end in either reading.
    have entered : Beside [] [] replacement.toList (next.enter replacement)
        (next'.enter replacement) :=
      ⟨(List.append_nil _).symm, (List.append_nil _).symm, between.fewer⟩
    have ended : last.rest = [] ++ [] := by simpa [atEnd] using done
    have again : ∃ last', Run ((cx.eased noBlanks opened).opening entity)
        (base.within (tags ++ outer)) ⟨next'.enter replacement, []⟩ within ⟨last', []⟩ ∧
          Beside [] [] [] last last' :=
      inner (List.cons_subset_cons entity fewer) (.refl [] _) (.inl rfl) entered ended
        (base.within_append tags outer).symm
    obtain ⟨last', inner', within'⟩ := again
    have resumed : Beside tail tail' (back ++ left) (next.resume last) (next'.resume last') :=
      ⟨between.rest, between.rest', within'.fewer⟩
    obtain ⟨final', rest', after⟩ := ih fewer (joins.suffix front) alike resumed ends rfl
    have done' : last'.atEnd = true := by simp [atEnd, within'.rest']
    exact ⟨final', .copied amp' read' markup inner' done' rest', after⟩

/-- A run finds with the other end what it finds with the first, at the same level. -/
theorem Run.carry_level (noBlanks : Bool) (fewer : opened ⊆ cx.opened)
    (run : Run cx base ⟨r, tags⟩ events ⟨next, tags'⟩) (joins : Joins tail tail' text)
    (alike : tail = tail' ∨ cx.options.recover = false)
    (beside : Beside tail tail' text r r') (ends : next.rest = left ++ tail) :
    ∃ next', Run (cx.eased noBlanks opened) base ⟨r', tags⟩ events ⟨next', tags'⟩ ∧
      Beside tail tail' left next next' := by
  have inside : Run cx (base.within []) ⟨r, tags⟩ events ⟨next, tags'⟩ := run
  simpa only [List.append_nil] using inside.carry noBlanks fewer joins alike beside ends

/-- A run of another reader of the same text. -/
theorem Run.carry_same (noBlanks : Bool) (fewer : opened ⊆ cx.opened)
    (run : Run cx base ⟨r, tags⟩ events ⟨next, tags'⟩) (same : r'.rest = r.rest)
    (less : r'.log.expansions ≤ r.log.expansions) :
    ∃ next', Run (cx.eased noBlanks opened) base ⟨r', tags⟩ events ⟨next', tags'⟩ ∧
      Beside [] [] next.rest next next' := by
  have beside : Beside [] [] r.rest r r' :=
    ⟨(List.append_nil _).symm, same.trans (List.append_nil _).symm, less⟩
  exact run.carry_level noBlanks fewer (.refl [] _) (.inl rfl) beside (List.append_nil _).symm

end
end Markup.Xml
