import Markup.Proofs.Xml.Recovery
import Markup.Proofs.Xml.Seam

/-!
# Steps that are carried over to another end

Every step that reads markup is carried over: characters, names and references, constructs up to a
delimiter, tags, and the declarations before the root element.
-/

namespace Markup.Xml

open Reaching (reached)
open Relaying (onto)

namespace Carries

variable {α : Type} [Reaching α] [Relaying α] {tail tail' : List Char} {needs takes : Demand}
  {r : Reader}

/-- A result after some characters. -/
theorem skipped {count : Nat} {a : α} (after : reached a = r.skip count)
    (within : count ≤ r.rest.length) (met : takes.Met (r.rest.take count)) :
    Carries tail tail' needs takes r (.ok a) fun r' => .ok (onto a (r'.skip count)) :=
  (done after).past within (.inr met)

end Carries

namespace Reader

variable {tail tail' : List Char} {r next : Reader} {options : ParseOptions} {noBlanks : Bool}
  {needs : Demand} {c : Char} {text left : List Char}

/-! ## Characters and words -/

theorem rest_of_expect (h : r.expect c = .ok next) : r.rest = c :: next.rest := by
  unfold expect at h
  split at h
  · rename_i seen
    obtain ⟨rest, spelled⟩ := List.head?_eq_some_iff.mp (beq_iff_eq.mp seen)
    cases h
    rw [rest_skip, spelled]
    rfl
  · exact absurd h not_fail

theorem rest_of_expectAll {word : List Char} (h : r.expectAll word = .ok next) :
    r.rest = word ++ next.rest := by
  induction word generalizing r with
  | nil => cases h; rfl
  | cons c word ih =>
    obtain ⟨middle, first, h⟩ := bind_eq_ok.mp h
    rw [rest_of_expect first, ih h]
    rfl

/-- What is expected is taken. -/
theorem carries_expect_of_met {takes : Demand} (met : takes.Met [c]) (r : Reader) :
    Carries tail tail' .nothing takes r (r.expect c) fun r' => r'.expect c where
  taken found := ⟨[c], met, rest_of_expect found⟩
  kept {next text left r'} found beside ends _ := by
    have spelled := rest_of_expect found
    have whole : text = [c] ++ left :=
      beside.text_eq (spelled.trans (congrArg (List.cons c) ends))
    subst whole
    have seen : r.sees c = true := by rw [sees, spelled]; exact beq_self_eq_true _
    have skipped : next = r.skip 1 := by
      unfold expect at found
      rw [if_pos seen] at found
      cases found
      rfl
    exact ⟨r'.skip 1, expect_eq_ok beside.rest', skipped ▸ beside.skip rfl⟩

theorem carries_expect (r : Reader) (c : Char) :
    Carries tail tail' .nothing .character r (r.expect c) fun r' => r'.expect c :=
  carries_expect_of_met (show Demand.character.Met [c] from List.cons_ne_nil _ _) r

/-- A greater-than sign ends a tag or a declaration. -/
theorem carries_expect_end (r : Reader) :
    Carries tail tail' .nothing .ending r (r.expect '>') fun r' => r'.expect '>' :=
  carries_expect_of_met (show Demand.ending.Met ['>'] by decide) r

theorem carries_expectAll_of_met {takes : Demand} {word : List Char} (met : takes.Met word)
    (r : Reader) :
    Carries tail tail' .nothing takes r (r.expectAll word) fun r' => r'.expectAll word := by
  have carries : ∀ (word : List Char) (r : Reader),
      Carries tail tail' .nothing .nothing r (r.expectAll word) fun r' => r'.expectAll word := by
    intro word
    induction word with
    | nil => exact fun r => .done rfl
    | cons c word ih =>
      exact fun r => .bind .nothing (carries_expect r c) fun next _ => ih next
  exact ⟨fun found => ⟨word, met, rest_of_expectAll found⟩, (carries word r).kept⟩

theorem carries_expectWord (r : Reader) (word : String) :
    Carries tail tail' .nothing .nothing r (r.expectWord word) fun r' => r'.expectWord word :=
  carries_expectAll_of_met (show Demand.nothing.Met word.toList from trivial) r

theorem carries_requireBlanks (r : Reader) (place : BlankPlace) :
    Carries tail tail' .character .nothing r (r.requireBlanks place)
      fun r' => r'.requireBlanks place :=
  .iteSeesBlank (fun _ => .pastBlanks (.done rfl)) fun _ => .fail

theorem carries_report (r : Reader) (options : ParseOptions) (problem : Problem) :
    Carries tail tail' .nothing .nothing r (r.report options problem)
      fun r' => r'.report (options.withBlanks noBlanks) problem := by
  exact .iteSame (fun _ => .still rfl fun _ fewer => ⟨_, rfl, rfl, fewer⟩) fun _ => .fail

/-- A character that is no carriage return is read as it stands, if it is legal or reported. -/
theorem char_of_plain (spelled : r.rest = c :: text) (plain : c ≠ '\r') :
    r.char options = if isDocumentChar c then .ok (c, r.skip 1)
      else if options.recover then .ok (c, (r.skip 1).note .error (.invalidChar c))
      else (r.skip 1).fail (.invalidChar c) := by
  unfold char
  split
  · simp_all
  · rename_i known
    exact absurd (List.cons.inj (spelled.symm.trans known)).1 plain
  · rename_i known
    exact absurd (List.cons.inj (spelled.symm.trans known)).1 plain
  · rename_i known
    obtain ⟨rfl, -⟩ := List.cons.inj (spelled.symm.trans known)
    unfold report
    split
    · rfl
    · split <;> rfl

/-- A character is read from the text that it takes, and a carriage return from the line feed after
it as well. -/
theorem exists_char_of_char (noBlanks : Bool) (h : r.char options = .ok (c, next)) :
    ∃ front, front ≠ [] ∧ r.rest = front ++ next.rest ∧
      ∀ {r' : Reader} {rest : List Char}, r'.rest = front ++ rest →
        ('\r' ∈ front → rest.head? = some '\n' → next.rest.head? = some '\n') →
        ∃ next', r'.char (options.withBlanks noBlanks) = .ok (c, next') ∧ next'.rest = rest := by
  cases spelled : r.rest with
  | nil => simp [char, spelled, fail] at h
  | cons d text =>
    by_cases carriage : d = '\r'
    · subst carriage
      by_cases feed : text.head? = some '\n'
      · obtain ⟨rest, rfl⟩ := List.head?_eq_some_iff.mp feed
        rw [char_feed spelled] at h
        cases h
        refine ⟨['\r', '\n'], by decide, by simp [spelled], fun {r' rest'} spelled' _ => ?_⟩
        exact ⟨r'.skip 2, char_feed spelled', by simp [spelled']⟩
      · rw [char_return spelled feed] at h
        cases h
        refine ⟨['\r'], by decide, by simp [spelled], fun {r' rest'} spelled' apart => ?_⟩
        have single : rest'.head? ≠ some '\n' := fun other =>
          feed (by simpa [spelled] using apart (by decide) other)
        exact ⟨r'.skip 1, char_return spelled' single, by simp [spelled']⟩
    · refine ⟨[d], List.cons_ne_nil _ _, ?_⟩
      rw [char_of_plain spelled carriage] at h
      split at h
      · rename_i legal
        cases h
        refine ⟨by simp [spelled], fun {r' rest'} spelled' _ => ⟨r'.skip 1, ?_, by simp [spelled']⟩⟩
        rw [char_of_plain spelled' carriage, if_pos legal]
      · rename_i illegal
        split at h
        · rename_i recover
          cases h
          refine ⟨by simp [spelled], fun {r' rest'} spelled' _ =>
            ⟨(r'.skip 1).note .error (.invalidChar c), ?_, by simp [spelled']⟩⟩
          rw [char_of_plain spelled' carriage, if_neg illegal]
          exact if_pos recover
        · exact absurd h not_fail

theorem Beside.char (noBlanks : Bool) (h : r.char options = .ok (c, next)) {r' : Reader}
    (beside : Beside tail tail' text r r') (ends : next.rest = left ++ tail)
    (apart : '\r' ∈ text → (left ++ tail').head? = some '\n' → (left ++ tail).head? = some '\n') :
    ∃ next', r'.char (options.withBlanks noBlanks) = .ok (c, next') ∧
      Beside tail tail' left next next' := by
  obtain ⟨front, -, spelled, again⟩ := exists_char_of_char noBlanks h
  have whole : text = front ++ left := beside.text_eq (ends ▸ spelled)
  obtain ⟨next', read, rest'⟩ := again
    (show r'.rest = front ++ (left ++ tail') by rw [beside.rest', whole, List.append_assoc])
    fun inside feed => ends ▸ apart (whole ▸ List.mem_append_left _ inside) feed
  have same := (takes_char ..).same h
  have same' := (takes_char ..).same read
  simp only [reached_pair, reached_reader] at same same'
  exact ⟨next', read, ends, rest', by rw [same, same']; exact beside.fewer⟩

theorem carries_char (r : Reader) (options : ParseOptions) :
    Carries tail tail' .character .character r (r.char options)
      fun r' => r'.char (options.withBlanks noBlanks) where
  taken {read} found := by
    obtain ⟨front, solid, spelled, -⟩ := exists_char_of_char noBlanks found
    exact ⟨front, solid, spelled⟩
  kept {read text left r'} found beside ends room := by
    obtain ⟨next', read', after⟩ := Beside.char noBlanks found beside ends <| by
      intro _ feed
      rcases room with rfl | solid
      · exact feed
      · obtain ⟨d, more, rfl⟩ := List.exists_cons_of_ne_nil solid
        exact feed
    exact ⟨next', read', after⟩

/-- What follows a name does not go on with it. -/
theorem head?_of_name {name : String} (h : r.name options = .ok (name, next)) :
    next.rest.head?.all (!isNameChar ·) = true := by
  unfold Reader.name at h
  split at h
  · exact absurd h not_fail
  · split at h
    · dsimp only at h
      split at h
      · exact absurd h not_fail
      · cases h
        rw [rest_skip, drop_length_takeWhile]
        cases more : r.rest.dropWhile isNameChar with
        | nil => rfl
        | cons d others =>
          have stops := List.head_dropWhile_not isNameChar (l := r.rest) (by simp [more])
          simpa [more] using stops
    · exact absurd h not_fail

theorem carries_name (r : Reader) (options : ParseOptions) :
    Carries tail tail' .character .character r (r.name options)
      fun r' => r'.name (options.withBlanks noBlanks) where
  taken {read} found := by
    obtain ⟨named, spelled⟩ := isName_of_name found
    obtain ⟨c, rest, letters, -⟩ := named.exists_cons
    exact ⟨read.1.toList, by rw [letters]; exact List.cons_ne_nil _ _, spelled⟩
  kept {read text left r'} found beside ends room := by
    obtain ⟨named, spelled⟩ := isName_of_name found
    have whole : text = read.1.toList ++ left :=
      beside.text_eq (spelled.trans (congrArg (read.1.toList ++ ·) ends))
    have stops : (left ++ tail').head?.all (!isNameChar ·) = true := by
      have stops := head?_of_name found
      rw [show read.2.rest = left ++ tail from ends] at stops
      rcases room with rfl | solid
      · exact stops
      · obtain ⟨d, more, rfl⟩ := List.exists_cons_of_ne_nil solid
        exact stops
    have named' : IsName (options.withBlanks noBlanks) read.1 :=
      ⟨named.start, named.chars, named.short⟩
    obtain ⟨next', read', rest'⟩ := exists_name named'
      (show r'.rest = _ by rw [beside.rest', whole, List.append_assoc]) stops
    have same := (takes_name ..).same found
    have same' := (takes_name ..).same read'
    simp only [reached_pair, reached_reader] at same same'
    refine ⟨next', read', ends, rest', ?_⟩
    rw [same']
    exact beside.fewer.trans (Nat.le_of_eq same.symm)

theorem carries_openQuote (r : Reader) (literal : Quoted) :
    Carries tail tail' .nothing .character r (r.openQuote literal)
      fun r' => r'.openQuote literal := by
  have both : ∀ quote next, r.openQuote literal = .ok (quote, next) →
      r.rest = quote :: next.rest ∧ next = r.skip 1 ∧ ∀ r' : Reader, r'.rest.head? = some quote →
        r'.openQuote literal = .ok (quote, r'.skip 1) := by
    intro quote next found
    unfold openQuote at found
    split at found
    · rename_i spelled
      cases found
      refine ⟨by simp [spelled], rfl, fun r' first => ?_⟩
      obtain ⟨more, spelled'⟩ := List.head?_eq_some_iff.mp first
      simp [openQuote, spelled']
    · rename_i spelled
      cases found
      refine ⟨by simp [spelled], rfl, fun r' first => ?_⟩
      obtain ⟨more, spelled'⟩ := List.head?_eq_some_iff.mp first
      simp [openQuote, spelled']
    · exact absurd found not_fail
  refine ⟨fun {read} found => ?_, fun {read text left r'} found beside ends _ => ?_⟩
  · obtain ⟨spelled, -, -⟩ := both _ _ found
    exact ⟨[read.1], List.cons_ne_nil _ _, spelled⟩
  · obtain ⟨spelled, skipped, again⟩ := both _ _ found
    have whole : text = [read.1] ++ left :=
      beside.text_eq (spelled.trans (congrArg (List.cons read.1) ends))
    subst whole
    refine ⟨r'.skip 1, again r' (by rw [beside.rest']; rfl), ?_⟩
    rw [reached_pair, reached_reader, skipped]
    exact beside.skip rfl

theorem carries_quoted (r : Reader) :
    Carries tail tail' .nothing .character r r.quoted fun r' => r'.quoted := by
  refine .bind .character (carries_openQuote ..) fun opening _ => ?_
  obtain ⟨quote, r⟩ := opening
  refine .span (· != quote)
    (fun text r => r.expect quote >>= fun r => pure (String.ofList text, r))
    (fun _ text r => r.expect quote >>= fun r => pure (String.ofList text, r)) fun _ => ?_
  exact .bind .nothing (carries_expect ..) fun _ _ => .done rfl

/-! ## Constructs that run up to a delimiter -/

theorem carries_upTo {close : String} (ends : '>' ∈ close.toList)
    (inner : '>' ∉ close.toList.dropLast) (options : ParseOptions) (within : Construct)
    (r : Reader) (content : List Char) :
    Carries tail tail' .nothing .ending r (r.upTo options close within content)
      fun r' => r'.upTo (options.withBlanks noBlanks) close within content := by
  refine .congr upTo_eq (fun _ => upTo_eq) ?_
  refine .iteAtEnd (fun _ => .fail) fun _ => .iteStartsWith inner (fun closed => ?_) fun _ => ?_
  · obtain ⟨rest, spelled⟩ := startsWith_iff.mp closed
    rw [← String.length_toList]
    exact .skipped rfl (by simp [← spelled]) (by
      rw [← spelled, List.take_left]
      exact ends)
  · exact .bind .ending (carries_char ..) fun read found =>
      carries_upTo ends inner options within read.2 _
  termination_by r.rest.length
  decreasing_by exact length_lt_of_char found

theorem commentText_eq_ite {content : List Char} :
    r.commentText options content =
      if r.atEnd then r.fail (.endOfText (some .comment))
      else if r.startsWith "-->" then .ok (content, r.skip 3)
      else if r.startsWith "--" then
        r.report options .doubleHyphen >>= fun next =>
          (next.skip 2).commentText options ('-' :: '-' :: content)
      else r.char options >>= fun read => read.2.commentText options (read.1 :: content) := by
  rw [commentText_eq]
  split
  · simp [atEnd, *]
  · simp [atEnd, startsWith, *]
  · rename_i tail other spelled
    have open_ : ¬ "-->".toList <+: r.rest := by
      rintro ⟨rest, known⟩
      rw [spelled] at known
      exact other rest (by simpa using known.symm)
    rw [if_neg (by simp [atEnd, spelled]), if_neg (mt startsWith_iff.mp open_),
      if_pos (startsWith_iff.mpr (by simp [spelled]))]
  · rename_i nonempty _ other
    have open_ : ¬ "--".toList <+: r.rest := by
      rintro ⟨rest, known⟩
      exact other rest known.symm
    have open' : ¬ "-->".toList <+: r.rest := fun begins =>
      open_ ((show "--".toList <+: "-->".toList by decide).trans begins)
    rw [if_neg (by simpa [atEnd] using nonempty), if_neg (mt startsWith_iff.mp open'),
      if_neg (mt startsWith_iff.mp open_)]

theorem carries_commentText (options : ParseOptions) (r : Reader) (content : List Char) :
    Carries tail tail' .nothing .ending r (r.commentText options content)
      fun r' => r'.commentText (options.withBlanks noBlanks) content := by
  refine .congr commentText_eq_ite (fun _ => commentText_eq_ite) ?_
  refine .iteAtEnd (fun _ => .fail) fun _ => .iteStartsWith (by decide) (fun closed => ?_)
    fun _ => .iteStartsWith (by decide) (fun hyphens => ?_) fun _ => ?_
  · obtain ⟨rest, spelled⟩ := startsWith_iff.mp closed
    exact .skipped rfl (by simp [← spelled]) (by simp [← spelled, Demand.Met])
  · obtain ⟨rest, spelled⟩ := startsWith_iff.mp hyphens
    refine .bind .ending (carries_report ..) fun next noted => ?_
    have within : 2 ≤ next.rest.length := by simp [rest_report noted, ← spelled]
    have shorter : (next.skip 2).rest.length < r.rest.length := by
      rw [← rest_report noted]
      exact length_skip_lt (by decide) fun empty => by simp [empty] at within
    exact (carries_commentText options (next.skip 2) _).past within (.inl (Nat.le_refl _))
  · exact .bind .ending (carries_char ..) fun read found => carries_commentText options read.2 _
  termination_by r.rest.length
  decreasing_by
    · exact shorter
    · exact length_lt_of_char found

theorem carries_comment (r : Reader) (options : ParseOptions) :
    Carries tail tail' .nothing .ending r (r.comment options)
      fun r' => r'.comment (options.withBlanks noBlanks) :=
  .bind .ending (carries_expectWord ..) fun _ _ => .bind .nothing (carries_commentText ..)
    fun _ _ => .done rfl

theorem carries_cdataSection (r : Reader) (options : ParseOptions) :
    Carries tail tail' .nothing .ending r (r.cdataSection options)
      fun r' => r'.cdataSection (options.withBlanks noBlanks) :=
  .bind .ending (carries_expectWord ..) fun _ _ => .bind .nothing
    (carries_upTo (by decide) (by decide) ..) fun _ _ => .done rfl

theorem carries_instruction (r : Reader) (options : ParseOptions) :
    Carries tail tail' .nothing .ending r (r.instruction options)
      fun r' => r'.instruction (options.withBlanks noBlanks) := by
  refine .bind .ending (carries_expectWord ..) fun _ _ => .bind .ending (carries_name ..)
    fun _ _ => .iteSame (fun _ => .fail) fun _ => .iteSeesBlank
      (fun _ => ?_) fun _ => ?_
  · exact .bind .nothing (.pastBlanks (carries_upTo (by decide) (by decide) ..)) fun _ _ =>
      .done rfl
  · have met : Demand.ending.Met "?>".toList := by decide
    exact .bind .nothing (carries_expectAll_of_met met _) fun _ _ => .done rfl

/-! ## References and quoted values -/

/-- What follows the digits of a character reference. -/
def numeralEnd (r next : Reader) (base : Nat) (digits : List Char) :
    Except ParseFailure (Char × Reader) :=
  if digits.isEmpty then r.fail .emptyCharReference
  else if Text.digitsValue base digits ≥ Nat.pow 2 32 then next.fail .charReferenceOutOfRange
  else next.expect ';' >>= fun ended =>
    if isDocumentChar (Char.ofNat (Text.digitsValue base digits)) then
      pure (Char.ofNat (Text.digitsValue base digits), ended)
    else ended.fail (.invalidCharReference (Text.digitsValue base digits))

theorem carries_numeral (r : Reader) (base : Nat) (digit : Char → Bool) :
    Carries tail tail' .nothing .character r (r.numeral base digit)
      fun r' => r'.numeral base digit := by
  refine .span digit (fun digits next => numeralEnd r next base digits)
    (fun r' digits next => numeralEnd r' next base digits) fun _ => ?_
  exact .iteSame (fun _ => .fail) fun _ => .iteSame (fun _ => .fail) fun _ =>
    .bind .nothing (carries_expect ..) fun _ _ => .iteSame (fun _ => .done rfl) fun _ => .fail

theorem carries_charReference (r : Reader) :
    Carries tail tail' .nothing .character r r.charReference fun r' => r'.charReference := by
  refine .bind .character (carries_expect ..) fun next _ => .iteSees (fun seen => ?_)
    fun _ => carries_numeral ..
  obtain ⟨rest, spelled⟩ := List.head?_eq_some_iff.mp (beq_iff_eq.mp seen)
  have within : 1 ≤ (reached next).rest.length := by rw [spelled]; exact Nat.succ_pos _
  exact (carries_numeral ..).past within (.inl (Nat.le_refl _))

/-- An entity that is not open for one reader may be no more open for the other. -/
theorem carries_resolve (r : Reader) (cx : Context) {opened : List String}
    (fewer : opened ⊆ cx.opened) (entity : String) :
    Carries tail tail' .nothing .nothing r (r.resolve cx entity)
      fun r' => r'.resolve (cx.eased noBlanks opened) entity := by
  unfold resolve
  cases predefined? entity with
  | some content => exact .done rfl
  | none =>
    dsimp only [Context.eased]
    cases cx.entities.internal.lookup entity with
    | none =>
      exact .iteSame (fun _ => .fail) fun _ => .iteSame
        (fun _ => .still rfl fun _ fewer => ⟨_, rfl, rfl, fewer⟩) fun _ => .fail
    | some replacement =>
      dsimp only
      split
      · exact .fail
      · rename_i closed
        split
        · exact .fail
        · rename_i room
          refine .still rfl fun r' less => ?_
          have closed' : ¬ opened.contains entity = true := by
            rw [List.contains_iff_mem] at closed ⊢
            exact fun mem => closed (fewer mem)
          have room' : ¬ (cx.options.withBlanks noBlanks).maxExpansions ≤ r'.log.expansions :=
            fun full => room (Nat.le_trans full less)
          exact ⟨{ r' with log := { r'.log with expansions := r'.log.expansions + 1 } },
            (if_neg closed').trans (if_neg room'), rfl, Nat.succ_le_succ less⟩

theorem carries_reference (r : Reader) (cx : Context) {opened : List String}
    (fewer : opened ⊆ cx.opened) :
    Carries tail tail' .nothing .character r (r.reference cx)
      fun r' => r'.reference (cx.eased noBlanks opened) := by
  refine .bind .character (carries_expect ..) fun next _ => .iteSees (fun _ => ?_) fun _ => ?_
  · exact .bind .nothing (carries_charReference _) fun _ _ => .done rfl
  · exact .bind .character (carries_name ..) fun _ _ => .bind .nothing (carries_expect ..)
      fun _ _ => carries_resolve _ _ fewer _

theorem attributeText_eq_ite {cx : Context} {quote : Option Char} {value : List Char} :
    r.attributeText cx quote value =
      if r.atEnd then
        if quote.isSome then r.fail (.endOfText (some .attributeValue)) else .ok (value, r)
      else if quote.any r.sees then .ok (value, r.skip 1)
      else if r.sees '<' && quote.isSome then r.fail .lessThanInAttribute
      else if r.sees '&' then
        r.reference cx >>= fun found =>
          match found with
          | (.text content, next) => next.attributeText cx quote (content.reverse ++ value)
          | (.entity entity replacement, next) =>
            if replacement.toList.contains '<' then next.fail (.entityBringsLessThan entity)
            else
              (next.enter replacement).attributeText (cx.opening entity) none value >>=
                fun inside => (next.resume inside.2).attributeText cx quote inside.1
      else r.char cx.options >>= fun read =>
        read.2.attributeText cx quote (attributeChar read.1 :: value) := by
  rw [attributeText_eq]
  cases spelled : r.rest with
  | nil => simp [atEnd, spelled]
  | cons c rest =>
    have seen : ∀ d, r.sees d = (c == d) := fun d => by simp [sees, spelled]
    have quoted : quote.any r.sees = (quote == some c) := by
      cases quote with
      | none => rfl
      | some q => simp [seen, Bool.beq_comm]
    simp only [atEnd, spelled, quoted, seen]
    rfl

/-- What an attribute value takes, a closing quote if there is one. -/
def ofQuote : Option Char → Demand
  | none => .nothing
  | some _ => .character

instance {quote : Char} {other : Demand} : Demand.character.Suffices (ofQuote (some quote)) other :=
  ⟨Nat.le_max_left ..⟩

/-- Where an attribute value is not closed by a quote, both texts have to end alike. -/
theorem carries_attributeText {tail tail' : List Char} (cx : Context) {opened : List String}
    (fewer : opened ⊆ cx.opened) (quote : Option Char) (room : tail = tail' ∨ quote.isSome = true)
    (r : Reader) (value : List Char) :
    Carries tail tail' .nothing (ofQuote quote) r (r.attributeText cx quote value)
      fun r' => r'.attributeText (cx.eased noBlanks opened) quote value := by
  have : Enough tail tail' .character (ofQuote quote) .nothing := by
    refine ⟨room.imp_right fun given => ?_⟩
    obtain ⟨q, rfl⟩ := Option.isSome_iff_exists.mp given
    exact ⟨Nat.le_refl _⟩
  refine .congr attributeText_eq_ite (fun _ => attributeText_eq_ite) ?_
  refine .iteAtEnd (fun _ => .iteSame (fun _ => .fail) fun open_ => ?_) fun more => ?_
  · obtain rfl : quote = none := by simpa using open_
    exact .done rfl
  have within : 1 ≤ r.rest.length := by
    rw [atEnd, List.isEmpty_eq_false_iff_exists_mem] at more
    exact List.length_pos_iff_exists_mem.mpr more
  refine .ite .character (fun r' sight => ?_) (fun closed => ?_) fun _ => ?_
  · cases quote with
    | none => rfl
    | some q => exact sight.sees (Nat.le_refl _) q
  · refine .skipped rfl within ?_
    cases quote with
    | none => trivial
    | some q => exact fun empty => by simp [List.take_eq_nil_iff] at empty; simp [empty] at within
  refine .ite .character (fun r' sight => ?_) (fun _ => .fail) fun _ => ?_
  · rw [sight.sees (Nat.le_refl _)]
  refine .iteSees (fun _ => ?_) fun _ => ?_
  · refine .bind (ofQuote quote) (carries_reference _ _ fewer) fun found read => ?_
    rcases found with ⟨content | ⟨entity, replacement⟩, next⟩
    · exact carries_attributeText cx fewer quote room next _
    · refine .iteSame (fun _ => .fail) fun _ => ?_
      have inside : Carries [] [] .nothing .nothing (next.enter replacement)
          ((next.enter replacement).attributeText (cx.opening entity) none value)
          fun r' => r'.attributeText ((cx.opening entity).eased noBlanks (entity :: opened)) none
            value :=
        carries_attributeText _ (List.cons_subset_cons entity fewer) none (.inl rfl) _ value
      refine inside.within (fun value r' => r'.attributeText (cx.eased noBlanks opened) quote value)
        (fun found _ r' found' same _ => by rw [same]; rfl) fun found _ => ?_
      exact carries_attributeText cx fewer quote room (next.resume found.2) found.1
  · exact .bind (ofQuote quote) (carries_char ..) fun read found =>
      carries_attributeText cx fewer quote room read.2 _
  termination_by (cx.unopened, r.rest.length)
  decreasing_by
    · exact .right _ (length_lt_of_reference read)
    · exact .left _ _ (unopened_lt_of_reference read)
    · exact .right _ (by simpa using length_lt_of_reference read)
    · exact .right _ (length_lt_of_char found)

theorem carries_attributeValue (r : Reader) (cx : Context) {opened : List String}
    (fewer : opened ⊆ cx.opened) :
    Carries tail tail' .nothing .character r (r.attributeValue cx)
      fun r' => r'.attributeValue (cx.eased noBlanks opened) :=
  .bind .character (carries_openQuote ..) fun opening _ => .bind .nothing
    (carries_attributeText cx fewer (some opening.1) (.inr rfl) ..) fun _ _ => .done rfl

theorem entityText_eq_ite {quote : Char} {value : List Char} :
    r.entityText options quote value =
      if r.atEnd then r.fail (.endOfText (some .entityValue))
      else if r.sees quote then .ok (value, r.skip 1)
      else if r.sees '%' then r.fail .parameterReference
      else if r.startsWith "&#" then
        (r.skip 1).charReference >>= fun read => read.2.entityText options quote (read.1 :: value)
      else if r.sees '&' then
        (r.skip 1).name options >>= fun named => named.2.expect ';' >>= fun next =>
          next.entityText options quote (';' :: named.1.toList.reverse ++ '&' :: value)
      else r.char options >>= fun read => read.2.entityText options quote (read.1 :: value) := by
  rw [entityText_eq]
  cases spelled : r.rest with
  | nil => simp [atEnd, spelled]
  | cons c rest =>
    have seen : ∀ d, r.sees d = (c == d) := fun d => by simp [sees, spelled]
    have number : r.startsWith "&#" = (c == '&' && rest.head? == some '#') := by
      cases rest <;> simp [startsWith, spelled, List.isPrefixOf, Bool.beq_comm]
    simp only [atEnd, spelled, number, seen]
    rfl

/-- A declaration ends after the replacement text of an entity. -/
theorem carries_entityText (options : ParseOptions) (quote : Char) (r : Reader)
    (value : List Char) :
    Carries tail tail' .ending .character r (r.entityText options quote value)
      fun r' => r'.entityText (options.withBlanks noBlanks) quote value := by
  refine .congr entityText_eq_ite (fun _ => entityText_eq_ite) ?_
  refine .iteAtEnd (fun _ => .fail) fun more => ?_
  obtain ⟨c, rest, spelled⟩ := List.exists_cons_of_ne_nil
    (show r.rest ≠ [] by simpa [atEnd] using more)
  have within : 1 ≤ r.rest.length := by simp [spelled]
  have shorter : (r.skip 1).rest.length < r.rest.length :=
    length_skip_lt (by decide) (by simp [spelled])
  refine .iteSees (fun _ => .skipped rfl within (by simp [spelled, Demand.Met])) fun _ =>
    .iteSees (fun _ => .fail) fun _ => .iteStartsWith (by decide) (fun _ => ?_) fun _ =>
    .iteSees (fun _ => ?_) fun _ => ?_
  · have number : Carries tail tail' .nothing .character r (r.skip 1).charReference
        fun r' => (r'.skip 1).charReference :=
      (carries_charReference _).past within (.inl (Nat.le_refl _))
    exact .bind .character number fun read found => carries_entityText options quote read.2 _
  · have entity : Carries tail tail' .character .character r ((r.skip 1).name options)
        fun r' => (r'.skip 1).name (options.withBlanks noBlanks) :=
      (carries_name ..).past within (.inl (Nat.le_refl _))
    refine .bind .character entity fun named found => ?_
    simp only [onto_pair, onto_reader]
    exact .bind .character (carries_expect ..) fun next ended =>
      carries_entityText options quote next _
  · exact .bind .character (carries_char ..) fun read found =>
      carries_entityText options quote read.2 _
  termination_by r.rest.length
  decreasing_by
    · exact Nat.lt_of_le_of_lt (length_le_of_charReference found) shorter
    · exact Nat.lt_trans (length_lt_of_expect ended) <|
        Nat.lt_trans (length_lt_of_name found) shorter
    · exact length_lt_of_char found

theorem carries_entityValue (r : Reader) (options : ParseOptions) :
    Carries tail tail' .ending .character r (r.entityValue options)
      fun r' => r'.entityValue (options.withBlanks noBlanks) :=
  .bind .character (carries_openQuote ..) fun _ _ => .bind .nothing (carries_entityText ..)
    fun _ _ => .done rfl

/-! ## Tags -/

theorem carries_attr (r : Reader) (cx : Context) {opened : List String}
    (fewer : opened ⊆ cx.opened) :
    Carries tail tail' .nothing .character r (r.attr cx)
      fun r' => r'.attr (cx.eased noBlanks opened) :=
  .bind .character (carries_name ..) fun _ _ => .bind .character
    (.pastBlanks (carries_expect ..)) fun _ _ => .bind .nothing
    (.pastBlanks (carries_attributeValue _ _ fewer)) fun _ _ => .done rfl

theorem carries_keepAttribute (r : Reader) (options : ParseOptions) (found : List Attribute)
    (attr : Attribute) :
    Carries tail tail' .nothing .nothing r (r.keepAttribute options found attr)
      fun r' => r'.keepAttribute (options.withBlanks noBlanks) found attr :=
  .iteSame (fun _ => .bind .nothing (carries_report ..) fun _ _ => .done rfl) fun _ => .done rfl

theorem seesTagEnd_of_sight {r' : Reader} (sight : Sight tail tail' .ending r r') :
    r'.seesTagEnd = r.seesTagEnd := by
  have less : Demand.character.rank ≤ Demand.ending.rank := by decide
  rw [seesTagEnd, seesTagEnd, sight.atEnd less, sight.sees less, sight.startsWith (by decide)]

theorem carries_attributes (cx : Context) {opened : List String} (fewer : opened ⊆ cx.opened)
    (r : Reader) (found : List Attribute) :
    Carries tail tail' .ending .nothing r (attributes cx r found)
      fun r' => attributes (cx.eased noBlanks opened) r' found := by
  refine .congr attributes_eq (fun _ => attributes_eq) ?_
  refine .ite .ending (fun _ sight => seesTagEnd_of_sight sight.skipBlanks)
    (fun _ => .pastBlanks (.done rfl)) fun _ => .ite .character
    (fun _ sight => by rw [sight.seesBlank (Nat.le_refl _)]) (fun _ => .fail) fun _ => ?_
  refine .bind .nothing (.pastBlanks (carries_attr _ _ fewer)) fun read named => .bind .nothing
    (carries_keepAttribute ..) fun kept listed => ?_
  have shorter : kept.2.rest.length < r.rest.length := by
    rw [rest_of_keepAttribute listed]
    exact Nat.lt_of_lt_of_le (length_lt_of_attr named) (length_skipBlanks_le r)
  exact carries_attributes cx fewer kept.2 kept.1
  termination_by r.rest.length

theorem carries_boundUri (r : Reader) (options : ParseOptions) (scope : Scope)
    (nsPrefix : String) :
    Carries tail tail' .nothing .nothing r (r.boundUri options scope nsPrefix)
      fun r' => r'.boundUri (options.withBlanks noBlanks) scope nsPrefix := by
  unfold boundUri
  cases scope.resolve (some nsPrefix) with
  | some uri => exact .done rfl
  | none => exact .bind .nothing (carries_report ..) fun _ _ => .done rfl

theorem carries_elementUri (r : Reader) (options : ParseOptions) (scope : Scope) (name : QName) :
    Carries tail tail' .nothing .nothing r (r.elementUri options scope name)
      fun r' => r'.elementUri (options.withBlanks noBlanks) scope name := by
  unfold elementUri
  cases name.nsPrefix with
  | none => exact .done rfl
  | some nsPrefix => exact carries_boundUri ..

theorem carries_resolveAttribute (r : Reader) (options : ParseOptions) (scope : Scope)
    (attr : Attribute) :
    Carries tail tail' .nothing .nothing r (r.resolveAttribute options scope attr)
      fun r' => r'.resolveAttribute (options.withBlanks noBlanks) scope attr := by
  unfold resolveAttribute
  cases attr.isDeclaration with
  | true => exact .done rfl
  | false =>
    cases attr.name.nsPrefix with
    | none => exact .done rfl
    | some nsPrefix => exact .bind .nothing (carries_boundUri ..) fun _ _ => .done rfl

theorem carries_resolveAttributes (options : ParseOptions) (scope : Scope) (r : Reader)
    (attributes : List Attribute) :
    Carries tail tail' .nothing .nothing r (resolveAttributes options scope r attributes)
      fun r' => resolveAttributes (options.withBlanks noBlanks) scope r' attributes := by
  induction attributes generalizing r with
  | nil => exact .done rfl
  | cons attr rest ih =>
    exact .bind .nothing (carries_resolveAttribute ..) fun _ _ => .bind .nothing (ih _)
      fun _ _ => .done rfl

theorem carries_tagEnd (r : Reader) :
    Carries tail tail' .nothing .ending r r.tagEnd fun r' => r'.tagEnd := by
  refine .iteStartsWith (by decide) (fun ends => ?_) fun _ => .iteSees (fun ends => ?_)
    fun _ => .fail
  · obtain ⟨rest, spelled⟩ := startsWith_iff.mp ends
    exact .skipped rfl (by simp [← spelled]) (by simp [← spelled, Demand.Met])
  · obtain ⟨rest, spelled⟩ := List.head?_eq_some_iff.mp (beq_iff_eq.mp ends)
    exact .skipped rfl (by simp [spelled]) (by simp [spelled, Demand.Met])

theorem carries_startTag (r : Reader) (cx : Context) {opened : List String}
    (fewer : opened ⊆ cx.opened) (depth : Nat) (scope : Scope) :
    Carries tail tail' .nothing .ending r (r.startTag cx depth scope)
      fun r' => r'.startTag (cx.eased noBlanks opened) depth scope :=
  .iteSame (fun _ => .fail) fun _ => .bind .ending (carries_expect ..) fun _ _ =>
    .bind .ending (carries_name ..) fun _ _ => .bind .ending (carries_attributes _ fewer ..)
    fun _ _ => .bind .ending (carries_elementUri ..) fun _ _ =>
    .bind .ending (carries_resolveAttributes ..) fun _ _ => .bind .nothing (carries_tagEnd _)
    fun _ _ => .done rfl

theorem carries_endTag (r : Reader) (options : ParseOptions) (name : QName) :
    Carries tail tail' .nothing .ending r (r.endTag options name)
      fun r' => r'.endTag (options.withBlanks noBlanks) name :=
  .bind .ending (carries_expectWord ..) fun _ _ => .bind .ending (carries_name ..) fun _ _ =>
    .bind .nothing (.pastBlanks (carries_expect_end _)) fun _ _ => .iteSame (fun _ => .done rfl)
    fun _ => carries_report ..

theorem carries_item (r : Reader) (cx : Context) {opened : List String}
    (fewer : opened ⊆ cx.opened) (level : Level) :
    Carries tail tail' .nothing .ending r (r.item cx level)
      fun r' => r'.item (cx.eased noBlanks opened) level :=
  .iteStartsWith (by decide)
      (fun _ => .bind .nothing (carries_cdataSection ..) fun _ _ => .done rfl)
    fun _ => .iteStartsWith (by decide)
      (fun _ => .bind .nothing (carries_comment ..) fun _ _ => .done rfl)
    fun _ => .iteStartsWith (by decide)
      (fun _ => .bind .nothing (carries_instruction ..) fun _ _ => .done rfl)
    fun _ => .bind .nothing (carries_startTag _ _ fewer ..) fun _ _ => .done rfl

end Reader
end Markup.Xml
