import Markup.Proofs.Html.Growth
import Markup.Proofs.Html.Passing
import Markup.Proofs.Html.Placing
import Mathlib.Data.List.TakeWhile

/-!
# How a lenient parse ends

The loops over tokens, over attributes and over characters are told by their rounds, and each of
them comes to its end. The parse as a whole fails for three reasons and for no other: the text is
blank, elements nest too deeply, or only written elements are wanted and there is none.
-/

namespace Markup.Html

/-! ## Loops -/

/-- A loop by its rounds: a round that goes on goes past some of the text and changes nothing of
what comes out, and after the last one the loop is left. -/
structure IsLoop {σ ρ : Type} (place : σ → Cursor) (round : σ → Option σ) (leave run : σ → ρ) :
    Prop where
  advances {state next : σ} : round state = some next → (place state).Advances (place next)
  run_next {state next : σ} : round state = some next → run state = run next
  run_last {state : σ} : round state = none → run state = leave state

/-- A loop that is left after no more rounds than there are characters. -/
structure Terminates {σ ρ : Type} (place : σ → Cursor) (round : σ → Option σ)
    (leave run : σ → ρ) : Prop extends IsLoop place round leave run where
  ends (state : σ) : ∃ count last, count ≤ (place state).rest.length ∧
    (· >>= round)^[count] (some state) = some last ∧ round last = none ∧ run state = leave last

namespace IsLoop

variable {σ ρ : Type} {place : σ → Cursor} {round : σ → Option σ} {leave run : σ → ρ}

theorem terminates (loop : IsLoop place round leave run) :
    Terminates place round leave run := by
  refine ⟨loop, fun state => ?_⟩
  -- Every round leaves fewer characters.
  induction left : (place state).rest.length using Nat.strong_induction_on generalizing state with
  | _ left' ih =>
    subst left
    cases more : round state with
    | none => exact ⟨0, state, Nat.zero_le _, rfl, more, loop.run_last more⟩
    | some next =>
      have shorter := (loop.advances more).length_lt
      obtain ⟨count, last, few, ran, ended, same⟩ := ih _ shorter next rfl
      refine ⟨count + 1, last, Nat.lt_of_le_of_lt few shorter, ?_, ended,
        (loop.run_next more).trans same⟩
      rw [Function.iterate_succ_apply, Option.bind_eq_bind, Option.bind_some, more]
      exact ran

end IsLoop

namespace Cursor

/-- A round of the loop over tokens, with the tokens read so far. -/
def contentRound (state : Cursor × List Lexeme) : Option (Cursor × List Lexeme) :=
  if state.1.rest = [] then none else some (state.1.lexeme.2, state.2 ++ [state.1.lexeme.1])

theorem isLoop_content : IsLoop Prod.fst contentRound Prod.snd
    fun state => state.2 ++ state.1.lexemes where
  advances {state next} more := by
    unfold contentRound at more
    split at more
    · cases more
    · rename_i solid
      cases more
      exact advances_lexeme solid
  run_next {state next} more := by
    unfold contentRound at more
    split at more
    · cases more
    · rename_i solid
      cases more
      rw [lexemes, dif_neg solid, List.append_assoc]
      rfl
  run_last {state} last := by
    unfold contentRound at last
    split at last
    · rename_i ended
      rw [lexemes, dif_pos ended, List.append_nil]
    · cases last

/-- A round of the loop over attributes, with those read so far, latest first. -/
def attributesRound (state : Cursor × List Attribute) : Option (Cursor × List Attribute) :=
  match state.1.skipBlanks.rest with
  | [] => none
  | '>' :: _ => none
  | '/' :: '>' :: _ => none
  | _ :: _ =>
    if state.1.skipBlanks.leading isAttributeChar = [] then
      some (state.1.skipBlanks.skip 1, state.2)
    else
      let read := state.1.skipBlanks.oneAttribute state.2
      some (read.2, read.1)

theorem attributes_eq (c : Cursor) (before : List Attribute) :
    c.attributes before = match attributesRound (c, before) with
      | none => (before.reverse, c.skipBlanks)
      | some next => next.1.attributes next.2 := by
  fun_cases attributes c before with
  | case1 spelled => simp only [attributesRound, spelled]
  | case2 _ spelled => simp only [attributesRound, spelled]
  | case3 _ spelled => simp only [attributesRound, spelled]
  | case4 => simp_all [attributesRound]
  | case5 =>
    simp_all [attributesRound]
    rfl

theorem isLoop_attributes : IsLoop Prod.fst attributesRound
    (fun state => (state.2.reverse, state.1.skipBlanks))
    fun state => state.1.attributes state.2 where
  advances {state next} more := by
    have blanks := state.1.reaches_skipBlanks
    have fewer := state.1.length_skipBlanks_le
    unfold attributesRound at more
    split at more
    · cases more
    · cases more
    · cases more
    · rename_i spelled
      split at more
      · cases more
        refine (blanks.skip 1).advances (Nat.lt_of_lt_of_le (length_skip_lt (by decide) ?_) fewer)
        rw [spelled]
        exact List.cons_ne_nil _ _
      · rename_i named
        cases more
        exact (blanks.trans (reaches_oneAttribute ..)).advances
          (Nat.lt_of_lt_of_le (length_oneAttribute_lt _ named) fewer)
  run_next {state next} more := by rw [attributes_eq, more]
  run_last {state} last := by rw [attributes_eq, last]

/-- A round of a loop over characters up to a condition, with those read so far, latest first. -/
def upToRound (stop : List Char → Bool) (state : Cursor × List Char) :
    Option (Cursor × List Char) :=
  if stop state.1.rest then none
  else state.1.character.map fun read => (read.2, read.1 :: state.2)

theorem isLoop_upTo (stop : List Char → Bool) : IsLoop Prod.fst (upToRound stop)
    (fun state => (state.2, state.1)) fun state => state.1.upTo stop state.2 where
  advances {state next} more := by
    unfold upToRound at more
    split at more
    · cases more
    · obtain ⟨read, found, rfl⟩ := Option.map_eq_some_iff.mp more
      exact (reaches_character found).advances (length_lt_of_character found)
  run_next {state next} more := by
    unfold upToRound at more
    split at more
    · cases more
    · rename_i goesOn
      obtain ⟨read, found, rfl⟩ := Option.map_eq_some_iff.mp more
      rw [upTo, if_neg goesOn]
      split
      · rename_i stuck
        rw [found] at stuck
        cases stuck
      · rename_i again
        rw [found] at again
        cases again
        rfl
  run_last {state} last := by
    unfold upToRound at last
    rw [upTo]
    split at last
    · rename_i stopped
      rw [if_pos stopped]
    · rename_i goesOn
      rw [if_neg goesOn]
      split
      · rfl
      · rename_i found
        rw [found] at last
        cases last

end Cursor

/-! ## Elements at the top -/

/-- Whether a token is a start tag. -/
def Token.isStart : Token → Bool
  | .start .. => true
  | _ => false

namespace Builder

open Document

variable {options : ParseOptions} {b b' : Builder} {lexeme : Lexeme} {failure : ParseFailure}
  {parent : NodeId} {kind : NodeKind}

theorem prefix_append (sound : b.IsSound) (live : b.doc.IsLive parent) :
    b.doc.elements root <+: (b.append parent kind).2.doc.elements root :=
  top_append sound.linked live ▸ List.prefix_append ..

theorem prefix_add (sound : b.IsSound) :
    b.doc.elements root <+: (b.add kind).doc.elements root :=
  prefix_append sound (live_current sound)

/-- Where nothing is implied, a start tag adds an element and keeps those at the top. -/
theorem prefix_placeElement (only : options.noImplied = true) (sound : b.IsSound)
    {position : Position} {tag rawText : String} {attributes : List Attribute} {closed : Bool}
    (placed : placeElement options b position tag attributes closed rawText = .ok b') :
    ((b.closeEnded tag).append (b.closeEnded tag).current
      (.element (Cursor.splitName tag) none attributes)).2.doc.elements root <+:
      b'.doc.elements root := by
  obtain ⟨-, made, rfl, result⟩ := of_placeElement placed
  have ended := (keeps_closeEnded sound tag).sound
  have ⟨kept, holds⟩ := keeps_append ended (canHold_current ended)
    (.element (Cursor.splitName tag) none attributes)
  rw [ready, if_pos only] at result
  rcases result with rfl | ⟨-, rfl | rfl⟩
  · exact List.prefix_rfl
  · exact prefix_append kept.sound (holds rfl).live
  · exact List.prefix_rfl

/-- Where nothing is implied, the elements at the top stay there. -/
theorem prefix_place (only : options.noImplied = true) (sound : b.IsSound)
    (placed : place options b lexeme = .ok b') :
    b.doc.elements root <+: b'.doc.elements root := by
  have heard : (b.hear lexeme).IsSound := isSound_hear sound
  have same : (b.hear lexeme).doc = b.doc := rfl
  have places := places_of_place placed
  rw [← same]
  clear same
  generalize b.hear lexeme = b at places heard
  cases places with
  | doctype => exact prefix_append heard heard.linked.root_live
  | part _ implied => exact absurd (only.symm.trans implied) nofun
  | @element tag _ _ _ _ _ _ placed =>
    have ended := (keeps_closeEnded heard tag).sound
    exact (prefix_append ended (live_current ended)).trans (prefix_placeElement only heard placed)
  | finish => exact (doc_placeEnd ..).symm ▸ List.prefix_rfl
  | @text content =>
    rcases placeText_cases options b content with same | same | ⟨implied, -⟩
    · exact same.symm ▸ List.prefix_rfl
    · exact same.symm ▸ prefix_add heard
    · exact absurd (only.symm.trans implied) nofun
  | comment => exact prefix_add heard
  | skipped => exact List.prefix_rfl

/-- Nothing is open, and no element stands at the top. -/
structure IsBare (b : Builder) : Prop where
  opened : b.opened = []
  top : b.doc.elements root = []

namespace IsBare

theorem empty : IsBare .empty := ⟨rfl, rfl⟩

theorem hear (bare : b.IsBare) (lexeme : Lexeme) : (b.hear lexeme).IsBare :=
  ⟨bare.opened, bare.top⟩

/-- A node that is no element changes nothing. -/
theorem append (bare : b.IsBare) (sound : b.IsSound) (live : b.doc.IsLive parent)
    (plain : kind.isElement = false) : (b.append parent kind).2.IsBare where
  opened := bare.opened
  top := by
    rw [top_append sound.linked live, bare.top, plain]
    simp

/-- Without a start tag there is no element. -/
theorem place (only : options.noImplied = true) (sound : b.IsSound) (bare : b.IsBare)
    (other : lexeme.token.isStart = false) (placed : place options b lexeme = .ok b') :
    b'.IsBare := by
  have heard : (b.hear lexeme).IsSound := isSound_hear sound
  have bare := bare.hear lexeme
  have places := places_of_place placed
  generalize b.hear lexeme = b at places heard bare
  have added : ∀ {kind : NodeKind}, kind.isElement = false → (b.add kind).IsBare := fun plain =>
    bare.append heard (live_current heard) plain
  cases places with
  | doctype => exact bare.append heard heard.linked.root_live rfl
  | part shown | element shown =>
    rw [shown] at other
    cases other
  | finish =>
    refine ⟨?_, (congrArg (·.elements root) (doc_placeEnd ..)).trans bare.top⟩
    unfold placeEnd
    rw [bare.opened]
    split
    · exact bare.opened
    · split <;> exact bare.opened
  | @text content =>
    rcases placeText_cases options b content with same | same | ⟨implied, -⟩
    · exact same.symm ▸ bare
    · exact same.symm ▸ added rfl
    · exact absurd (only.symm.trans implied) nofun
  | comment => exact added rfl
  | skipped => exact bare

/-- With a start tag there is an element. -/
theorem start (only : options.noImplied = true) (sound : b.IsSound) (bare : b.IsBare)
    (starts : lexeme.token.isStart = true) (placed : Builder.place options b lexeme = .ok b') :
    b'.doc.elements root ≠ [] := by
  have heard : (b.hear lexeme).IsSound := isSound_hear sound
  have bare := bare.hear lexeme
  have places := places_of_place placed
  generalize b.hear lexeme = b at places heard bare
  cases places with
  | part _ implied => exact absurd (only.symm.trans implied) nofun
  | @element tag _ _ _ _ _ _ placed =>
    have ended := (keeps_closeEnded heard tag).sound
    have top : (b.closeEnded tag).current = root := by
      rw [current, closeEnded, bare.opened]
      rfl
    have first := prefix_placeElement only heard placed
    rw [top_append ended.linked (live_current ended), top] at first
    intro none
    rw [none, List.prefix_nil] at first
    simp [NodeKind.isElement] at first
  | doctype shown | finish shown | text shown | comment shown | skipped shown =>
    rw [shown] at starts
    cases starts

end IsBare

/-- Once there is an element at the top, one stays there. -/
theorem top_ne_nil_places (only : options.noImplied = true) {lexemes : List Lexeme} {built : Builder}
    (sound : b.IsSound) (some : b.doc.elements root ≠ [])
    (placed : lexemes.foldlM (Builder.place options) b = .ok built) :
    built.doc.elements root ≠ [] := by
  induction lexemes generalizing b with
  | nil => exact Except.ok.inj placed ▸ some
  | cons lexeme rest ih =>
    rw [List.foldlM_cons] at placed
    obtain ⟨middle, first, later⟩ := bind_eq_ok.mp placed
    refine ih (keeps_place sound first).sound (fun none => some ?_) later
    exact List.prefix_nil.mp (none ▸ prefix_place only sound first)

/-- Where nothing is implied, there is an element as soon as there is a start tag, not before. -/
theorem IsBare.places (only : options.noImplied = true) {lexemes : List Lexeme} {built : Builder}
    (sound : b.IsSound) (bare : b.IsBare)
    (placed : lexemes.foldlM (Builder.place options) b = .ok built) :
    built.doc.elements root ≠ [] ↔ ∃ lexeme ∈ lexemes, lexeme.token.isStart = true := by
  induction lexemes generalizing b with
  | nil => simp [← Except.ok.inj placed, bare.top]
  | cons lexeme rest ih =>
    rw [List.foldlM_cons] at placed
    obtain ⟨middle, first, later⟩ := bind_eq_ok.mp placed
    have sound' := (keeps_place sound first).sound
    rw [List.exists_mem_cons_iff]
    cases starts : lexeme.token.isStart with
    | true =>
      have root := bare.start only sound starts first
      exact iff_of_true (top_ne_nil_places only sound' root later) (.inl rfl)
    | false => simpa using ih sound' (bare.place only sound starts first) later

/-- A document is finished unless only written elements are wanted and there is none. -/
theorem finish_eq_error {position : Position} :
    b.finish options position = .error failure ↔ options.noImplied = true ∧
      b.doc.elements root = [] ∧ failure = ⟨.noRootElement, some position, []⟩ := by
  unfold finish
  dsimp only
  rw [doc_closeAll, rootElement?_eq_head?]
  cases b.doc.elements root with
  | cons => simp
  | nil =>
    cases options.noImplied with
    | true =>
      exact ⟨fun failed => ⟨rfl, rfl, (Except.error.inj failed).symm⟩, fun known => known.2.2 ▸ rfl⟩
    | false => exact iff_of_false nofun fun known => Bool.false_ne_true known.1

end Builder

/-! ## Failures of texts -/

/-- Why a text is not read, with the failure that says so. -/
inductive Fails (options : ParseOptions) (text : String) : ParseFailure → Prop
  /-- The text is entirely space, tab, carriage return and line feed. -/
  | blank (all : ∀ c ∈ text.toList, c = ' ' ∨ c = '\t' ∨ c = '\r' ∨ c = '\n') :
    Fails options text ⟨.emptyDocument, some (Position.start.after text.toList), []⟩
  /-- After some tokens were placed, a start tag finds as many elements open as there may be. -/
  | deep {before after : List Lexeme} {lexeme : Lexeme} {b : Builder}
    (tokens : lexemesOf text = before ++ lexeme :: after)
    (placed : before.foldlM (Builder.place options) .empty = .ok b)
    (limit : b.MeetsLimit options lexeme) :
    Fails options text ⟨.tooDeep options.maxDepth, some lexeme.position, []⟩
  /-- No element is implied, and the text has no start tag. -/
  | bare (only : options.noImplied = true)
    (ink : ∃ c ∈ text.toList, ¬ (c = ' ' ∨ c = '\t' ∨ c = '\r' ∨ c = '\n'))
    (none : ∀ lexeme ∈ lexemesOf text, lexeme.token.isStart = false) :
    Fails options text ⟨.noRootElement, some (Position.start.after text.toList), []⟩

variable {options : ParseOptions} {text : String} {failure : ParseFailure}

theorem skipBlanks_ofText_eq_nil_iff : (Cursor.ofText text).skipBlanks.rest = [] ↔
    ∀ c ∈ text.toList, c = ' ' ∨ c = '\t' ∨ c = '\r' ∨ c = '\n' := by
  have passes := ((Cursor.ofText text).passes_skipWhile Text.isMarkupBlank).rest
  have split : text.toList = text.toList.takeWhile Text.isMarkupBlank ++
      (Cursor.ofText text).skipBlanks.rest := passes
  have all : (Cursor.ofText text).skipBlanks.rest = [] ↔
      ∀ c ∈ text.toList, Text.isMarkupBlank c = true := by
    rw [← List.takeWhile_eq_self_iff]
    constructor
    · intro ended
      rw [ended, List.append_nil] at split
      exact split.symm
    · intro whole
      rw [whole] at split
      exact List.self_eq_append_right.mp split
  rw [all]
  simp [Text.isMarkupBlank, or_assoc]

/-- A blank text has no tokens. -/
theorem lexemesOf_eq_nil (ended : (Cursor.ofText text).skipBlanks.rest = []) :
    lexemesOf text = [] := by
  have plain : (Cursor.ofText text).skipBlanks.startsIgnoringCase "<!doctype" = false := by
    rw [Cursor.startsIgnoringCase, ended]
    rfl
  rw [lexemesOf, plain, if_neg Bool.false_ne_true, Cursor.lexemes, dif_pos ended]

theorem parse_of_blank (ended : (Cursor.ofText text).skipBlanks.rest = []) :
    parse options text =
      .error ⟨.emptyDocument, some (Position.start.after text.toList), []⟩ := by
  have passes := (Cursor.ofText text).passes_skipWhile Text.isMarkupBlank
  have whole : text.toList = (Cursor.ofText text).leading Text.isMarkupBlank ++
      (Cursor.ofText text).skipBlanks.rest := passes.rest
  rw [ended, List.append_nil] at whole
  rw [parse_eq]
  dsimp only
  rw [ended, List.isEmpty_nil, if_pos rfl, whole, Cursor.skipBlanks, passes.position]
  rfl

/-- Where not everything is blank, the tokens are placed one after the other. -/
theorem parse_of_ink (solid : (Cursor.ofText text).skipBlanks.rest ≠ []) :
    parse options text =
      (lexemesOf text).foldlM (Builder.place options) .empty >>= fun built =>
        built.finish options (Position.start.after text.toList) := by
  have passes := (Cursor.ofText text).passes_skipWhile Text.isMarkupBlank
  have whole : (Cursor.ofText text).skipBlanks.position.after (Cursor.ofText text).skipBlanks.rest =
      Position.start.after text.toList := by
    rw [Cursor.skipBlanks, passes.position, ← Position.after_append, ← passes.rest]
    rfl
  rw [parse_eq]
  dsimp only
  rw [whole, if_neg (by simpa using solid)]

theorem fails_of_parse (failed : parse options text = .error failure) :
    Fails options text failure := by
  by_cases ended : (Cursor.ofText text).skipBlanks.rest = []
  · rw [parse_of_blank ended] at failed
    obtain rfl := Except.error.inj failed
    exact .blank (skipBlanks_ofText_eq_nil_iff.mp ended)
  have ink := mt skipBlanks_ofText_eq_nil_iff.mpr ended
  rw [parse_of_ink ended] at failed
  cases placed : (lexemesOf text).foldlM (Builder.place options) .empty with
  | error problem =>
    rw [placed] at failed
    obtain rfl := Except.error.inj failed
    obtain ⟨before, lexeme, after, b, tokens, went, failed⟩ := foldlM_eq_error.mp placed
    obtain ⟨limit, rfl⟩ := Builder.place_eq_error.mp failed
    exact .deep tokens went limit
  | ok built =>
    rw [placed] at failed
    obtain ⟨only, top, rfl⟩ := Builder.finish_eq_error.mp failed
    refine .bare only (by simpa using ink) fun lexeme listed => ?_
    by_contra starts
    exact (Builder.IsBare.empty.places only Builder.isSound_empty placed).mpr
      ⟨lexeme, listed, by simpa using starts⟩ top

theorem parse_of_fails (fails : Fails options text failure) :
    parse options text = .error failure := by
  cases fails with
  | blank all => exact parse_of_blank (skipBlanks_ofText_eq_nil_iff.mpr all)
  | deep tokens placed limit =>
    have solid : (Cursor.ofText text).skipBlanks.rest ≠ [] := fun ended =>
      absurd ((lexemesOf_eq_nil ended).symm.trans tokens) (by simp)
    rw [parse_of_ink solid, foldlM_eq_error.mpr
      ⟨_, _, _, _, tokens, placed, Builder.place_eq_error.mpr ⟨limit, rfl⟩⟩]
    rfl
  | bare only ink none =>
    have solid : (Cursor.ofText text).skipBlanks.rest ≠ [] := fun ended =>
      ink.elim fun c found => found.2 (skipBlanks_ofText_eq_nil_iff.mp ended c found.1)
    rw [parse_of_ink solid]
    cases placed : (lexemesOf text).foldlM (Builder.place options) .empty with
    | error problem =>
      obtain ⟨before, lexeme, after, b, tokens, -, failed⟩ := foldlM_eq_error.mp placed
      obtain ⟨⟨_, _, _, _, starts, -⟩, -⟩ := Builder.place_eq_error.mp failed
      have other := none lexeme (by rw [tokens]; simp)
      rw [starts] at other
      cases other
    | ok built =>
      refine Builder.finish_eq_error.mpr ⟨only, ?_, rfl⟩
      by_contra some
      obtain ⟨lexeme, listed, starts⟩ :=
        (Builder.IsBare.empty.places only Builder.isSound_empty placed).mp some
      exact absurd (starts.symm.trans (none lexeme listed)) nofun

end Markup.Html
