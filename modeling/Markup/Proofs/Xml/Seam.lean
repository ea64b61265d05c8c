import Markup.Proofs.Xml.Passage

/-!
# Reading a text with another end

A step of a reader depends on the text that it goes past and on little more. So what is read from
one text is read from another one with the same front: after a step that ends in the front, both
readings stand at the same place. How much of the front has to be left for a step to see what it
looks at is told by a demand.
-/

namespace Markup.Xml

open Reaching (reached)

/-- The options that drop blank text or keep it, and are the same otherwise. -/
def ParseOptions.withBlanks (options : ParseOptions) (noBlanks : Bool) : ParseOptions :=
  { options with noBlanks }

/-- The context with other entities open, where blank text may be treated otherwise. -/
def Context.eased (cx : Context) (noBlanks : Bool) (opened : List String) : Context :=
  ⟨cx.options.withBlanks noBlanks, cx.entities, opened⟩

/-- Results in which the reader can be put in another place. -/
class Relaying (α : Type) where
  /-- The result with another reader after it. -/
  onto : α → Reader → α

open Relaying (onto)

instance : Relaying Reader := ⟨fun _ r => r⟩

instance {α β : Type} [Relaying β] : Relaying (α × β) :=
  ⟨fun result r => (result.1, onto result.2 r)⟩

@[simp] theorem onto_reader (r r' : Reader) : onto r r' = r' := rfl

@[simp] theorem onto_pair {α β : Type} [Relaying β] (result : α × β) (r : Reader) :
    onto result r = (result.1, onto result.2 r) := rfl

/-! ## Demands -/

/-- What a step asks of a text. -/
inductive Demand where
  /-- It may be empty. -/
  | nothing
  /-- It holds a character. -/
  | character
  /-- A tag or a declaration ends in it. -/
  | ending
  deriving DecidableEq

namespace Demand

/-- Whether a text meets a demand. -/
def Met : Demand → List Char → Prop
  | nothing, _ => True
  | character, text => text ≠ []
  | ending, text => '>' ∈ text

instance : (demand : Demand) → (text : List Char) → Decidable (demand.Met text)
  | nothing, _ => isTrue trivial
  | character, text => inferInstanceAs (Decidable (text ≠ []))
  | ending, text => inferInstanceAs (Decidable ('>' ∈ text))

/-- How much is demanded. -/
def rank : Demand → Nat
  | nothing => 0
  | character => 1
  | ending => 2

variable {demand other : Demand} {text more : List Char}

theorem Met.mono (met : other.Met text) (less : demand.rank ≤ other.rank) : demand.Met text := by
  cases demand with
  | nothing => trivial
  | character =>
    cases other with
    | nothing => cases less
    | character => exact met
    | ending => exact List.ne_nil_of_mem met
  | ending =>
    cases other with
    | ending => exact met
    | nothing | character => simp [rank] at less

theorem Met.append_left (met : demand.Met text) (more : List Char) : demand.Met (more ++ text) := by
  cases demand with
  | nothing => trivial
  | character => exact List.append_ne_nil_of_right_ne_nil _ met
  | ending => exact List.mem_append_right _ met

theorem Met.append_right (met : demand.Met text) (more : List Char) :
    demand.Met (text ++ more) := by
  cases demand with
  | nothing => trivial
  | character => exact List.append_ne_nil_of_left_ne_nil met _
  | ending => exact List.mem_append_left _ met

/-- The greater one of two demands is as great as the one that is wanted. -/
class Suffices (wanted demand other : Demand) : Prop where
  le_max : wanted.rank ≤ max demand.rank other.rank

instance : Suffices .nothing demand other := ⟨Nat.zero_le _⟩

instance : Suffices demand demand other := ⟨Nat.le_max_left ..⟩

instance : Suffices demand other demand := ⟨Nat.le_max_right ..⟩

instance : Suffices .character .ending other := ⟨Nat.le_trans (by decide) (Nat.le_max_left ..)⟩

instance : Suffices .character other .ending := ⟨Nat.le_trans (by decide) (Nat.le_max_right ..)⟩

/-- Of two texts that meet a demand each, the one with the greater demand decides. -/
theorem Met.append {wanted : Demand} (enough : Suffices wanted demand other)
    (first : demand.Met text) (second : other.Met more) : wanted.Met (text ++ more) := by
  have less := enough.le_max
  rcases (by omega : wanted.rank ≤ demand.rank ∨ wanted.rank ≤ other.rank) with less | less
  · exact (first.mono less).append_right more
  · exact (second.mono less).append_left text

end Demand

/-! ## Two readers of one text with different ends -/

/-- Two readers that have the same text before them, and different ends after it. The second one
has expanded no more entities. -/
structure Beside (tail tail' text : List Char) (r r' : Reader) : Prop where
  rest : r.rest = text ++ tail
  rest' : r'.rest = text ++ tail'
  fewer : r'.log.expansions ≤ r.log.expansions

/-- What a step takes and what it needs to be left shows what is wanted of the text, unless the
ends are the same. -/
class Enough (tail tail' : List Char) (wanted takes needs : Demand) : Prop where
  shown : tail = tail' ∨ wanted.Suffices takes needs

instance {tail tail' : List Char} {wanted takes needs : Demand} [wanted.Suffices takes needs] :
    Enough tail tail' wanted takes needs :=
  ⟨.inr inferInstance⟩

instance {tail : List Char} {wanted takes needs : Demand} : Enough tail tail wanted takes needs :=
  ⟨.inl rfl⟩

/-- Two readers of the same text, or of texts with enough in common. -/
def Sight (tail tail' : List Char) (demand : Demand) (r r' : Reader) : Prop :=
  r'.rest = r.rest ∨ ∃ text, r.rest = text ++ tail ∧ r'.rest = text ++ tail' ∧ demand.Met text

variable {tail tail' text left : List Char} {r r' next : Reader} {demand needs takes : Demand}

theorem Beside.skip {count : Nat} (beside : Beside tail tail' (text ++ left) r r')
    (past : text.length = count) : Beside tail tail' left (r.skip count) (r'.skip count) where
  rest := by rw [Reader.rest_skip, beside.rest, List.append_assoc, ← past, List.drop_left]
  rest' := by rw [Reader.rest_skip, beside.rest', List.append_assoc, ← past, List.drop_left]
  fewer := beside.fewer

/-- What was gone past is the front of the text. -/
theorem Beside.text_eq {front : List Char} (beside : Beside tail tail' text r r')
    (spelled : r.rest = front ++ (left ++ tail)) : text = front ++ left := by
  rw [beside.rest, ← List.append_assoc] at spelled
  exact List.append_cancel_right spelled

namespace Sight

theorem of_beside (beside : Beside tail tail' text r r')
    (enough : tail = tail' ∨ demand.Met text) : Sight tail tail' demand r r' := by
  rcases enough with rfl | met
  · exact .inl (beside.rest'.trans beside.rest.symm)
  · exact .inr ⟨text, beside.rest, beside.rest', met⟩

theorem head? (sight : Sight tail tail' demand r r')
    (enough : Demand.character.rank ≤ demand.rank) :
    r'.rest.head? = r.rest.head? := by
  obtain same | ⟨text, rest, rest', met⟩ := sight
  · rw [same]
  · rw [rest, rest']
    have solid : Demand.character.Met text := met.mono enough
    obtain ⟨c, more, rfl⟩ := List.exists_cons_of_ne_nil solid
    rfl

theorem sees (sight : Sight tail tail' demand r r') (enough : Demand.character.rank ≤ demand.rank)
    (c : Char) : r'.sees c = r.sees c := by
  rw [Reader.sees, Reader.sees, sight.head? enough]

theorem seesBlank (sight : Sight tail tail' demand r r')
    (enough : Demand.character.rank ≤ demand.rank) : r'.seesBlank = r.seesBlank := by
  rw [Reader.seesBlank, Reader.seesBlank, sight.head? enough]

theorem atEnd (sight : Sight tail tail' demand r r')
    (enough : Demand.character.rank ≤ demand.rank) : r'.atEnd = r.atEnd := by
  have same := sight.head? enough
  rw [Reader.atEnd, Reader.atEnd]
  cases rest : r.rest <;> cases rest' : r'.rest <;> simp_all

/-- A word that could end a tag only with its last character does not reach past the text. -/
theorem prefix_iff_of_ending {word : List Char} (inner : '>' ∉ word.dropLast) (met : '>' ∈ text) :
    word <+: text ++ tail ↔ word <+: text ++ tail' := by
  have inside : ∀ tail : List Char, word <+: text ++ tail ↔ word <+: text := by
    intro tail
    refine ⟨fun begins => ?_, fun begins => begins.trans (List.prefix_append ..)⟩
    obtain ⟨before, after, rfl⟩ := List.append_of_mem met
    rcases Nat.lt_or_ge (before ++ '>' :: after).length word.length with longer | shorter
    · -- A longer word has the sign before its last character.
      have all : (before ++ '>' :: after) <+: word.dropLast := by
        refine List.prefix_of_prefix_length_le (List.prefix_append _ tail)
          ((List.dropLast_prefix word).trans begins) ?_
        rw [List.length_dropLast]
        omega
      exact absurd (all.subset (by simp)) inner
    · exact List.prefix_of_prefix_length_le begins (List.prefix_append ..) shorter
  rw [inside, inside]

theorem startsWith (sight : Sight tail tail' .ending r r') {word : String}
    (inner : '>' ∉ word.toList.dropLast) : r'.startsWith word = r.startsWith word := by
  rw [Bool.eq_iff_iff, Reader.startsWith_iff, Reader.startsWith_iff]
  obtain same | ⟨text, rest, rest', met⟩ := sight
  · rw [same]
  · rw [rest, rest']
    exact (prefix_iff_of_ending inner met).symm

/-- The sign that ends a tag is no blank. -/
theorem skipBlanks (sight : Sight tail tail' .ending r r') :
    Sight tail tail' .ending r.skipBlanks r'.skipBlanks := by
  obtain same | ⟨text, rest, rest', met⟩ := sight
  · exact .inl (by rw [Reader.skipBlanks_rest, Reader.skipBlanks_rest, same])
  · have solid : '>' ∈ text.dropWhile Text.isMarkupBlank := by
      have either := List.takeWhile_append_dropWhile (p := Text.isMarkupBlank) (l := text) ▸ met
      refine (List.mem_append.mp either).resolve_left fun blank => ?_
      exact absurd (List.all_eq_true.mp (List.all_takeWhile ..) _ blank) (by decide)
    have within : ∀ tail, (text ++ tail).dropWhile Text.isMarkupBlank =
        text.dropWhile Text.isMarkupBlank ++ tail := fun tail => by
      rw [List.dropWhile_append, if_neg (by simp [List.ne_nil_of_mem solid])]
    exact .inr ⟨_, by rw [Reader.skipBlanks_rest, rest, within],
      by rw [Reader.skipBlanks_rest, rest', within], solid⟩

end Sight

/-! ## Steps that are carried over -/

/-- What a step reads where a text goes on in one way, the same step, taken by another reader, reads
where the text goes on in another way, if enough is left of what is common. -/
structure Carries {α : Type} [Reaching α] [Relaying α] (tail tail' : List Char)
    (needs takes : Demand) (r : Reader) (step : Except ParseFailure α)
    (step' : Reader → Except ParseFailure α) : Prop where
  taken {a : α} : step = .ok a → ∃ text, takes.Met text ∧ r.rest = text ++ (reached a).rest
  kept {a : α} {text left : List Char} {r' : Reader} : step = .ok a →
    Beside tail tail' text r r' → (reached a).rest = left ++ tail → tail = tail' ∨ needs.Met left →
    ∃ next', step' r' = .ok (onto a next') ∧ Beside tail tail' left (reached a) next'

namespace Carries

variable {α β : Type} [Reaching α] [Relaying α] [Reaching β] [Relaying β]
  {needs₁ takes₁ : Demand} {step other : Except ParseFailure α}
  {step' other' : Reader → Except ParseFailure α}

/-- The text that a step goes past, and what is left of it. -/
theorem text_eq (carries : Carries tail tail' needs takes r step step') {a : α}
    (found : step = .ok a) (beside : Beside tail tail' text r r')
    (ends : (reached a).rest = left ++ tail) :
    ∃ front, takes.Met front ∧ text = front ++ left := by
  obtain ⟨front, met, spelled⟩ := carries.taken found
  exact ⟨front, met, beside.text_eq (ends ▸ spelled)⟩

theorem mono {needs' takes' : Demand} (carries : Carries tail tail' needs takes r step step')
    (more : needs.rank ≤ needs'.rank) (less : takes'.rank ≤ takes.rank) :
    Carries tail tail' needs' takes' r step step' where
  taken found := by
    obtain ⟨text, met, spelled⟩ := carries.taken found
    exact ⟨text, met.mono less, spelled⟩
  kept found beside ends enough :=
    carries.kept found beside ends (enough.imp_right fun met => met.mono more)

/-- Steps that are written otherwise. -/
theorem congr (same : step = other) (same' : ∀ r', step' r' = other' r')
    (carries : Carries tail tail' needs takes r other other') :
    Carries tail tail' needs takes r step step' := by
  rwa [same, show step' = other' from funext same']

/-- There is nothing to carry over from a step that does not succeed. -/
theorem never (stops : ∀ a, step ≠ .ok a) : Carries tail tail' needs takes r step step' :=
  ⟨fun found => absurd found (stops _), fun found => absurd found (stops _)⟩

theorem fail {failure : ParseFailure} : Carries tail tail' needs takes r (.error failure) step' :=
  .never nofun

/-- A step that reads nothing, taken by another reader. -/
theorem still {a : α} (here : (reached a).rest = r.rest)
    (again : ∀ r' : Reader, r'.log.expansions ≤ r.log.expansions →
      ∃ next', step' r' = .ok (onto a next') ∧ next'.rest = r'.rest ∧
        next'.log.expansions ≤ (reached a).log.expansions) :
    Carries tail tail' needs .nothing r (.ok a) step' where
  taken found := by
    cases found
    exact ⟨[], trivial, here.symm⟩
  kept {a text left r'} found beside ends _ := by
    cases found
    have same : text = left := by
      rw [here, beside.rest] at ends
      exact List.append_cancel_right ends
    obtain ⟨next', ran, rest', fewer⟩ := again r' beside.fewer
    exact ⟨next', ran, ends, by rw [rest', beside.rest', same], fewer⟩

theorem done {a : α} (here : reached a = r) :
    Carries tail tail' needs .nothing r (.ok a) fun r' => .ok (onto a r') :=
  .still (by rw [here]) fun r' fewer => ⟨r', rfl, rfl, here ▸ fewer⟩

/-- What starts after some characters. -/
theorem past {count : Nat} (carries : Carries tail tail' needs takes₁ (r.skip count) step step')
    (within : count ≤ r.rest.length)
    (enough : takes.rank ≤ takes₁.rank ∨ takes.Met (r.rest.take count)) :
    Carries tail tail' needs takes r step fun r' => step' (r'.skip count) where
  taken found := by
    obtain ⟨front, met, spelled⟩ := carries.taken found
    refine ⟨r.rest.take count ++ front, ?_, ?_⟩
    · rcases enough with less | passed
      · exact (met.mono less).append_left _
      · exact passed.append_right _
    · rw [List.append_assoc, ← spelled, Reader.rest_skip, List.take_append_drop]
  kept {a text left r'} found beside ends room := by
    obtain ⟨front, -, spelled⟩ := carries.taken found
    have whole : text = r.rest.take count ++ (front ++ left) := beside.text_eq <| by
      rw [List.append_assoc, ← ends, ← spelled, Reader.rest_skip, List.take_append_drop]
    rw [whole] at beside
    exact carries.kept found (beside.skip (List.length_take_of_le within)) ends room

/-- One step after the other; the second argument of the list says what the rest takes. -/
theorem bind (rest : Demand) {next : α → Except ParseFailure β} {next' : α → Except ParseFailure β}
    (first : Carries tail tail' needs₁ takes₁ r step step')
    (second : ∀ a, step = .ok a →
      Carries tail tail' needs rest (reached a) (next a) fun r' => next' (onto a r'))
    [enough : Enough tail tail' needs₁ rest needs] [sum : takes.Suffices takes₁ rest] :
    Carries tail tail' needs takes r (step >>= next) fun r' => step' r' >>= next' where
  taken found := by
    obtain ⟨a, ran, went⟩ := bind_eq_ok.mp found
    obtain ⟨front, met, spelled⟩ := first.taken ran
    obtain ⟨back, met', spelled'⟩ := (second a ran).taken went
    exact ⟨front ++ back, met.append sum met',
      by rw [spelled, spelled', List.append_assoc]⟩
  kept {b text left r'} found beside ends room := by
    obtain ⟨a, ran, went⟩ := bind_eq_ok.mp found
    obtain ⟨back, met, spelled⟩ := (second a ran).taken went
    rw [ends, ← List.append_assoc] at spelled
    have room₁ : tail = tail' ∨ needs₁.Met (back ++ left) := by
      rcases enough.shown with same | less
      · exact .inl same
      · exact room.imp_right fun left_met => met.append less left_met
    obtain ⟨middle, ran', between⟩ := first.kept ran beside spelled room₁
    obtain ⟨last, went', after⟩ := (second a ran).kept went between ends room
    exact ⟨last, bind_eq_ok.mpr ⟨_, ran', went'⟩, after⟩

/-- A choice that both readers make alike. -/
theorem ite (demand : Demand) {choice : Bool} {choice' : Reader → Bool}
    (agree : ∀ r', Sight tail tail' demand r r' → choice' r' = choice)
    (yes : choice = true → Carries tail tail' needs takes r step step')
    (no : choice = false → Carries tail tail' needs takes r other other')
    [enough : Enough tail tail' demand takes needs] :
    Carries tail tail' needs takes r (if choice then step else other)
      fun r' => if choice' r' then step' r' else other' r' := by
  have see : ∀ {a : α} {text left : List Char} {r' : Reader} {step : Except ParseFailure α}
      {step' : Reader → Except ParseFailure α}, Carries tail tail' needs takes r step step' →
      step = .ok a → Beside tail tail' text r r' → (reached a).rest = left ++ tail →
      tail = tail' ∨ needs.Met left → choice' r' = choice := by
    intro a text left r' step step' carries found beside ends room
    refine agree r' (.of_beside beside ?_)
    obtain ⟨front, met, rfl⟩ := carries.text_eq found beside ends
    rcases enough.shown with same | less
    · exact .inl same
    · exact room.imp_right fun left_met => met.append less left_met
  cases choice with
  | true =>
    have taking := yes rfl
    refine ⟨taking.taken, fun found beside ends room => ?_⟩
    rw [if_pos (see taking found beside ends room)]
    exact taking.kept found beside ends room
  | false =>
    have taking := no rfl
    refine ⟨taking.taken, fun found beside ends room => ?_⟩
    rw [if_neg (Bool.eq_false_iff.mp (see taking found beside ends room))]
    exact taking.kept found beside ends room

/-- A choice that does not depend on the text. -/
theorem iteSame {condition : Prop} [Decidable condition]
    (yes : condition → Carries tail tail' needs takes r step step')
    (no : ¬ condition → Carries tail tail' needs takes r other other') :
    Carries tail tail' needs takes r (if condition then step else other)
      fun r' => if condition then step' r' else other' r' := by
  by_cases holds : condition
  · simpa only [holds, if_true] using yes holds
  · simpa only [holds, if_false] using no holds

theorem iteAtEnd (yes : r.atEnd = true → Carries tail tail' needs takes r step step')
    (no : r.atEnd = false → Carries tail tail' needs takes r other other')
    [Enough tail tail' .character takes needs] :
    Carries tail tail' needs takes r (if r.atEnd then step else other)
      fun r' => if r'.atEnd then step' r' else other' r' :=
  .ite .character (fun _ sight => sight.atEnd (Nat.le_refl _)) yes no

theorem iteSees {c : Char} (yes : r.sees c = true → Carries tail tail' needs takes r step step')
    (no : r.sees c = false → Carries tail tail' needs takes r other other')
    [Enough tail tail' .character takes needs] :
    Carries tail tail' needs takes r (if r.sees c then step else other)
      fun r' => if r'.sees c then step' r' else other' r' :=
  .ite .character (fun _ sight => sight.sees (Nat.le_refl _) c) yes no

theorem iteSeesBlank (yes : r.seesBlank = true → Carries tail tail' needs takes r step step')
    (no : r.seesBlank = false → Carries tail tail' needs takes r other other')
    [Enough tail tail' .character takes needs] :
    Carries tail tail' needs takes r (if r.seesBlank then step else other)
      fun r' => if r'.seesBlank then step' r' else other' r' :=
  .ite .character (fun _ sight => sight.seesBlank (Nat.le_refl _)) yes no

theorem iteStartsWith {word : String} (inner : '>' ∉ word.toList.dropLast)
    (yes : r.startsWith word = true → Carries tail tail' needs takes r step step')
    (no : r.startsWith word = false → Carries tail tail' needs takes r other other')
    [Enough tail tail' .ending takes needs] :
    Carries tail tail' needs takes r (if r.startsWith word then step else other)
      fun r' => if r'.startsWith word then step' r' else other' r' :=
  .ite .ending (fun _ sight => sight.startsWith inner) yes no

/-- What starts after the leading characters of a class. -/
theorem span (member : Char → Bool) (step : List Char → Reader → Except ParseFailure α)
    (step' : Reader → List Char → Reader → Except ParseFailure α)
    (carries : ∀ r' : Reader, Carries tail tail' needs takes
      (r.skip (r.rest.takeWhile member).length)
      (step (r.rest.takeWhile member) (r.skip (r.rest.takeWhile member).length))
      (step' r' (r.rest.takeWhile member)))
    [enough : Enough tail tail' .character takes needs] :
    Carries tail tail' needs takes r
      (step (r.rest.takeWhile member) (r.skip (r.rest.takeWhile member).length))
      fun r' =>
        step' r' (r'.rest.takeWhile member) (r'.skip (r'.rest.takeWhile member).length) where
  taken found := by
    obtain ⟨front, met, spelled⟩ := (carries r).taken found
    refine ⟨r.rest.takeWhile member ++ front, met.append_left _, ?_⟩
    rw [List.append_assoc, ← spelled, Reader.rest_skip, Reader.drop_length_takeWhile,
      List.takeWhile_append_dropWhile]
  kept {a text left r'} found beside ends room := by
    obtain ⟨front, met, spelled⟩ := (carries r).taken found
    rw [Reader.rest_skip, Reader.drop_length_takeWhile] at spelled
    have whole : text = r.rest.takeWhile member ++ (front ++ left) := beside.text_eq <| by
      rw [List.append_assoc, ← ends, ← spelled, List.takeWhile_append_dropWhile]
    have same : r'.rest.takeWhile member = r.rest.takeWhile member := by
      rcases or_and_left.mpr ⟨enough.shown, room⟩ with rfl | ⟨less, left_met⟩
      · rw [beside.rest', beside.rest]
      · -- The class ends within what is common.
        have solid : Demand.character.Met (front ++ left) := met.append less left_met
        obtain ⟨c, more, common⟩ := List.exists_cons_of_ne_nil solid
        have stops : member c = false := by
          have known := List.head_dropWhile_not member (l := r.rest)
          rw [ends, ← List.append_assoc, common] at spelled
          simpa [spelled] using known
        rw [beside.rest', whole, common, List.append_assoc,
          List.takeWhile_append_of_pos (List.all_eq_true.mp (List.all_takeWhile ..))]
        simp [stops]
    rw [same]
    rw [whole] at beside
    exact (carries r').kept found (beside.skip rfl) ends room

/-- What starts after blanks. -/
theorem pastBlanks (carries : Carries tail tail' needs takes r.skipBlanks step step')
    [Enough tail tail' .character takes needs] :
    Carries tail tail' needs takes r step fun r' => step' r'.skipBlanks :=
  span Text.isMarkupBlank (fun _ _ => step) (fun _ _ => step') fun _ => carries

/-- What starts after replacement text was read. -/
theorem within {γ : Type} {needs₀ takes₀ : Demand} {replacement : String}
    {inner : Except ParseFailure (γ × Reader)} {inner' : Reader → Except ParseFailure (γ × Reader)}
    {next : γ × Reader → Except ParseFailure α}
    {next' : Reader → γ × Reader → Except ParseFailure α}
    (inside : Carries [] [] needs₀ takes₀ (r.enter replacement) inner inner')
    (after : γ → Reader → Except ParseFailure α)
    (again : ∀ found, inner = .ok found → ∀ (r' : Reader) (found' : γ × Reader),
      found'.1 = found.1 → found'.2.rest = found.2.rest →
      next' r' found' = after found.1 (r'.resume found'.2))
    (rest : ∀ found, inner = .ok found →
      Carries tail tail' needs takes (r.resume found.2) (next found) (after found.1)) :
    Carries tail tail' needs takes r (inner >>= next)
      fun r' => inner' (r'.enter replacement) >>= next' r' where
  taken found := by
    obtain ⟨middle, ran, went⟩ := bind_eq_ok.mp found
    exact (rest middle ran).taken went
  kept {a text left r'} found beside ends room := by
    obtain ⟨middle, ran, went⟩ := bind_eq_ok.mp found
    have entered : Beside [] [] replacement.toList (r.enter replacement) (r'.enter replacement) :=
      ⟨(List.append_nil _).symm, (List.append_nil _).symm, beside.fewer⟩
    obtain ⟨last, ran', after'⟩ :=
      inside.kept ran entered (List.append_nil _).symm (.inl rfl)
    have same : (middle.1, last).2.rest = middle.2.rest := after'.rest'.trans (List.append_nil _)
    have resumed : Beside tail tail' text (r.resume middle.2) (r'.resume last) :=
      ⟨beside.rest, beside.rest', after'.fewer⟩
    obtain ⟨next₂, went', after₂⟩ := (rest middle ran).kept went resumed ends room
    refine ⟨next₂, bind_eq_ok.mpr ⟨_, ran', ?_⟩, after₂⟩
    exact (again middle ran r' (middle.1, last) rfl same).trans went'

end Carries
end Markup.Xml
