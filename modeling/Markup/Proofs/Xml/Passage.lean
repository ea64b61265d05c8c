import Markup.Proofs.Xml.Reparse

/-!
# How many bytes steps take

Most steps of a reader expand no entity. Each of them goes past a number of bytes that is at least
the length of what it yields: references and line ends are never written in fewer bytes than they
stand for. Steps with these properties can be put one after the other.
-/

namespace Markup.Xml

/-- Results that show where a reading stands after them. -/
class Reaching (α : Type) where
  /-- The reader after the result. -/
  reached : α → Reader

open Reaching (reached)

instance : Reaching Reader := ⟨id⟩

instance {α β : Type} [Reaching β] : Reaching (α × β) := ⟨fun result => reached result.2⟩

@[simp] theorem reached_reader (r : Reader) : reached r = r := rfl

@[simp] theorem reached_pair {α β : Type} [Reaching β] (result : α × β) :
    reached result = reached result.2 := rfl

/-- The length of the text still to be read, in bytes. -/
def Reader.remaining (r : Reader) : Nat := Text.byteLength r.rest

/-- A step that expands no entity and goes past at least a number of bytes that its result tells. -/
structure Takes {α : Type} [Reaching α] (r : Reader) (step : Except ParseFailure α)
    (least : α → Nat) : Prop where
  same {a : α} : step = .ok a → (reached a).log.expansions = r.log.expansions
  taken {a : α} : step = .ok a → least a + (reached a).remaining ≤ r.remaining

/-- A step that expands no entity and never goes back. -/
abbrev Passes {α : Type} [Reaching α] (r : Reader) (step : Except ParseFailure α) : Prop :=
  Takes r step fun _ => 0

namespace Takes

variable {α β : Type} [Reaching α] [Reaching β] {r r' : Reader} {step : Except ParseFailure α}
  {next : α → Except ParseFailure β} {least : α → Nat} {total : β → Nat}

theorem fail {failure : ParseFailure} : Takes r (.error failure) least := ⟨nofun, nofun⟩

theorem done {a : α} (same : (reached a).log.expansions = r.log.expansions)
    (taken : least a + (reached a).remaining ≤ r.remaining) : Takes r (.ok a) least where
  same found := by cases found; exact same
  taken found := by cases found; exact taken

theorem pass {a : α} (same : (reached a).log.expansions = r.log.expansions)
    (left : (reached a).remaining ≤ r.remaining) : Passes r (.ok a) :=
  .done same (by simpa using left)

theorem stay {a : α} (here : reached a = r) : Passes r (.ok a) :=
  .pass (by rw [here]) (by rw [here])

/-- A step that starts further on. -/
theorem later (takes : Takes r' step least) (same : r'.log.expansions = r.log.expansions)
    (further : r'.remaining ≤ r.remaining) : Takes r step least where
  same found := (takes.same found).trans same
  taken found := Nat.le_trans (takes.taken found) further

/-- A step that goes on after another one. -/
theorem past (takes : Takes r step least) {a : α} (found : step = .ok a)
    {more : Except ParseFailure β} (rest : Passes (reached a) more) : Passes r more :=
  rest.later (takes.same found) (Nat.le_trans (Nat.le_add_left ..) (takes.taken found))

/-- A step that starts a number of bytes further on. -/
theorem beyond (takes : Takes r' step least) (same : r'.log.expansions = r.log.expansions)
    {count : Nat} (further : count + r'.remaining ≤ r.remaining) :
    Takes r step fun a => count + least a where
  same found := (takes.same found).trans same
  taken found := by
    have := takes.taken found
    omega

/-- Two steps take as many bytes as both together. -/
theorem add (others : β → Nat) (first : Takes r step least)
    (rest : ∀ a, step = .ok a → Takes (reached a) (next a) others)
    (sum : ∀ a b, next a = .ok b → total b ≤ least a + others b) :
    Takes r (step >>= next) total where
  same found := by
    obtain ⟨a, ran, went⟩ := bind_eq_ok.mp found
    exact ((rest a ran).same went).trans (first.same ran)
  taken {b} found := by
    obtain ⟨a, ran, went⟩ := bind_eq_ok.mp found
    have := first.taken ran
    have := (rest a ran).taken went
    have := sum a b went
    omega

theorem bind (first : Takes r step least) (rest : ∀ a, step = .ok a → Passes (reached a) (next a)) :
    Passes r (step >>= next) :=
  .add _ first rest fun _ _ _ => Nat.zero_le _

theorem ite {condition : Prop} [Decidable condition] {other : Except ParseFailure α}
    (yes : condition → Takes r step least) (no : ¬condition → Takes r other least) :
    Takes r (if condition then step else other) least := by
  split
  · exact yes ‹_›
  · exact no ‹_›

end Takes

namespace Reader

variable {r next : Reader} {options : ParseOptions}

theorem length_le_byteLength (text : List Char) : text.length ≤ Text.byteLength text := by
  induction text with
  | nil => exact Nat.le_refl _
  | cons c text ih =>
    have := c.utf8Size_pos
    rw [List.length_cons, Text.byteLength_cons]
    omega

theorem byteLength_reverse (text : List Char) :
    Text.byteLength text.reverse = Text.byteLength text := by
  induction text with
  | nil => rfl
  | cons c text ih =>
    rw [List.reverse_cons, Text.byteLength_append, ih, Text.byteLength_cons, Text.byteLength_cons,
      Text.byteLength_nil, Nat.add_zero, Nat.add_comm]

/-! ## Single steps -/

theorem remaining_skip (r : Reader) (count : Nat) :
    Text.byteLength (r.rest.take count) + (r.skip count).remaining = r.remaining := by
  rw [remaining, remaining, rest_skip, ← Text.byteLength_append, List.take_append_drop]

theorem remaining_skip_le (r : Reader) (count : Nat) : (r.skip count).remaining ≤ r.remaining := by
  have := r.remaining_skip count
  omega

theorem remaining_skipBlanks_le (r : Reader) : r.skipBlanks.remaining ≤ r.remaining :=
  r.remaining_skip_le _

/-- What is passed over, is not left. -/
theorem remaining_skip_prefix {word : List Char} (begins : word <+: r.rest) :
    Text.byteLength word + (r.skip word.length).remaining = r.remaining := by
  obtain ⟨tail, spelled⟩ := begins
  have taken := r.remaining_skip word.length
  rwa [← spelled, List.take_left] at taken

theorem remaining_skip_cons {c : Char} {tail : List Char} (spelled : r.rest = c :: tail) :
    c.utf8Size + (r.skip 1).remaining = r.remaining := by
  have taken := r.remaining_skip_prefix (show [c] <+: r.rest from ⟨tail, spelled.symm⟩)
  rwa [Text.byteLength_cons, Text.byteLength_nil, Nat.add_zero] at taken

theorem passes_report (r : Reader) (options : ParseOptions) (problem : Problem) :
    Passes r (r.report options problem) :=
  .ite (fun _ => .done rfl (by simp [remaining])) fun _ => .fail

theorem takes_expect (r : Reader) (c : Char) : Takes r (r.expect c) fun _ => 1 := by
  refine .ite (fun seen => .done rfl ?_) fun _ => .fail
  obtain ⟨tail, spelled⟩ := List.head?_eq_some_iff.mp (beq_iff_eq.mp seen)
  have taken := remaining_skip_cons spelled
  have positive := c.utf8Size_pos
  simp only [reached_reader]
  omega

theorem takes_expectAll (word : List Char) (r : Reader) :
    Takes r (r.expectAll word) fun _ => word.length := by
  induction word generalizing r with
  | nil => exact .stay rfl
  | cons c word ih =>
    exact .add _ (takes_expect r c) (fun next _ => ih next) fun _ _ _ => by
      simp only [List.length_cons]
      omega

theorem takes_expectWord (r : Reader) (word : String) :
    Takes r (r.expectWord word) fun _ => word.toList.length :=
  takes_expectAll ..

theorem passes_requireBlanks (r : Reader) (place : BlankPlace) : Passes r (r.requireBlanks place) :=
  .ite (fun _ => .pass rfl r.remaining_skipBlanks_le) fun _ => .fail

theorem takes_char (r : Reader) (options : ParseOptions) :
    Takes r (r.char options) fun read => read.1.utf8Size := by
  unfold char
  split
  · exact .fail
  · rename_i tail spelled
    have taken := r.remaining_skip_prefix (show ['\r', '\n'] <+: r.rest from ⟨tail, spelled.symm⟩)
    have shorter : '\n'.utf8Size ≤ Text.byteLength ['\r', '\n'] := by decide
    exact .done rfl (Nat.le_trans (Nat.add_le_add_right shorter _) (Nat.le_of_eq taken))
  · rename_i tail _ spelled
    have taken := remaining_skip_cons spelled
    have same : '\n'.utf8Size = '\r'.utf8Size := by decide
    exact .done rfl (Nat.le_of_eq (same ▸ taken))
  · rename_i c tail _ _ spelled
    have taken := remaining_skip_cons spelled
    refine .ite (fun _ => .done rfl (Nat.le_of_eq taken)) fun _ => ?_
    have noted := (passes_report (r.skip 1) options (.invalidChar c)).beyond (r := r) rfl
      (Nat.le_of_eq taken)
    refine .add (fun _ => 0) noted (fun last _ => .stay rfl) fun _ _ h => ?_
    cases h
    rfl

/-- A character is not empty. -/
theorem takes_char_one (r : Reader) (options : ParseOptions) :
    Takes r (r.char options) fun _ => 1 where
  same := (r.takes_char options).same
  taken {read} found := by
    have taken := (r.takes_char options).taken found
    have positive := read.1.utf8Size_pos
    omega

theorem takes_name (r : Reader) (options : ParseOptions) :
    Takes r (r.name options) fun read => Text.byteLength read.1.toList := by
  unfold Reader.name
  split
  · exact .fail
  · refine .ite (fun _ => .ite (fun _ => .fail) fun _ => .done rfl ?_) fun _ => .fail
    have taken := r.remaining_skip_prefix (List.takeWhile_prefix isNameChar (l := r.rest))
    exact Nat.le_of_eq (by rw [String.toList_ofList]; exact taken)

/-- A name is not empty. -/
theorem takes_name_one (r : Reader) (options : ParseOptions) :
    Takes r (r.name options) fun _ => 1 where
  same := (r.takes_name options).same
  taken {read} named := by
    have taken := (r.takes_name options).taken named
    obtain ⟨c, rest, letters, -⟩ := (isName_of_name named).1.exists_cons
    have positive := c.utf8Size_pos
    rw [letters, Text.byteLength_cons] at taken
    omega

theorem takes_openQuote (r : Reader) (literal : Quoted) :
    Takes r (r.openQuote literal) fun _ => 1 := by
  unfold openQuote
  split
  · rename_i spelled
    exact .done rfl (Nat.le_of_eq (remaining_skip_cons spelled))
  · rename_i spelled
    exact .done rfl (Nat.le_of_eq (remaining_skip_cons spelled))
  · exact .fail

theorem passes_quoted (r : Reader) : Passes r r.quoted :=
  .bind (takes_openQuote ..) fun ⟨_, _⟩ _ => .bind ((takes_expect ..).later rfl
    (remaining_skip_le ..)) fun _ _ => .stay rfl

/-! ## References -/

/-- A number has at least one digit, and a semicolon after it. -/
theorem takes_numeral (r : Reader) (base : Nat) (digit : Char → Bool) :
    Takes r (r.numeral base digit) fun _ => 2 := by
  refine .ite (fun _ => .fail) fun some => .ite (fun _ => .fail) fun _ => ?_
  have digits := length_le_byteLength (r.rest.takeWhile digit)
  have taken := r.remaining_skip_prefix (List.takeWhile_prefix digit)
  have positive : 0 < (r.rest.takeWhile digit).length :=
    List.length_pos_iff.mpr (by simpa using some)
  have closed := (takes_expect (r.skip (r.rest.takeWhile digit).length) ';').beyond (r := r) rfl
    (Nat.le_of_eq taken)
  refine .add (fun _ => 0) closed (fun ended _ => ?_) fun _ _ _ => by omega
  exact .ite (fun _ => .stay rfl) fun _ => .fail

theorem takes_charReference (r : Reader) : Takes r r.charReference fun _ => 3 := by
  refine .add (fun _ => 2) (takes_expect r '#') (fun next _ => ?_) fun _ _ _ => by simp
  exact .ite (fun _ => (takes_numeral ..).later rfl (remaining_skip_le ..))
    fun _ => takes_numeral ..

/-- What a name stands for is found without reading on. -/
theorem of_resolve {cx : Context} {entity : String} {found : Reference}
    (h : r.resolve cx entity = .ok (found, next)) : next.remaining = r.remaining ∧
      match found with
      | .text content => next.log.expansions = r.log.expansions ∧ Text.byteLength content ≤ 1
      | .entity name _ => next.log.expansions = r.log.expansions + 1 ∧
          r.log.expansions < cx.options.maxExpansions ∧ name ∉ cx.opened := by
  unfold resolve at h
  split at h
  · rename_i content known
    cases h
    refine ⟨rfl, rfl, ?_⟩
    unfold predefined? at known
    split at known <;> cases known <;> decide
  · split at h
    · split at h
      · exact absurd h not_fail
      · rename_i closed
        split at h
        · exact absurd h not_fail
        · rename_i room
          cases h
          exact ⟨rfl, rfl, Nat.not_le.mp room, by simpa using closed⟩
    · split at h
      · exact absurd h not_fail
      · split at h
        · cases h
          exact ⟨rfl, rfl, Nat.zero_le _⟩
        · exact absurd h not_fail

/-- A reference is a character reference, or a name stands in it. -/
theorem of_reference {cx : Context} {found : Reference} (h : r.reference cx = .ok (found, next)) :
    (∃ c, found = .text [c] ∧ next.log.expansions = r.log.expansions ∧
      4 + next.remaining ≤ r.remaining) ∨
    ∃ entity middle, Reader.resolve middle cx entity = .ok (found, next) ∧
      middle.log.expansions = r.log.expansions ∧ 3 + middle.remaining ≤ r.remaining := by
  obtain ⟨r₁, opened, h⟩ := bind_eq_ok.mp h
  have same := (takes_expect ..).same opened
  have taken := (takes_expect ..).taken opened
  simp only [reached_reader] at same taken
  split at h
  · obtain ⟨⟨c, r₂⟩, read, h⟩ := bind_eq_ok.mp h
    have same' := (takes_charReference ..).same read
    have taken' := (takes_charReference ..).taken read
    cases h
    simp only [reached_reader, reached_pair] at same' taken'
    exact .inl ⟨c, rfl, by omega, by omega⟩
  · obtain ⟨⟨entity, r₂⟩, named, h⟩ := bind_eq_ok.mp h
    obtain ⟨r₃, ended, h⟩ := bind_eq_ok.mp h
    have same' := (takes_name_one ..).same named
    have taken' := (takes_name_one ..).taken named
    have same'' := (takes_expect ..).same ended
    have taken'' := (takes_expect ..).taken ended
    simp only [reached_reader, reached_pair] at same' taken' same'' taken''
    exact .inr ⟨entity, r₃, h, by omega, by omega⟩

/-- A reference to characters is at least as long as they are. -/
theorem of_reference_text {cx : Context} {content : List Char}
    (h : r.reference cx = .ok (.text content, next)) :
    next.log.expansions = r.log.expansions ∧ 1 + next.remaining ≤ r.remaining ∧
      Text.byteLength content + next.remaining ≤ r.remaining := by
  obtain ⟨c, found, same, taken⟩ | ⟨entity, middle, resolved, same, taken⟩ := of_reference h
  · cases found
    have short := c.utf8Size_le_four
    rw [Text.byteLength_cons, Text.byteLength_nil]
    exact ⟨same, by omega, by omega⟩
  · obtain ⟨left, same', short⟩ := of_resolve resolved
    exact ⟨by omega, by omega, by omega⟩

/-- A reference to an entity expands it, if the limit admits one more. -/
theorem of_reference_entity {cx : Context} {entity replacement : String}
    (h : r.reference cx = .ok (.entity entity replacement, next)) :
    next.log.expansions = r.log.expansions + 1 ∧ r.log.expansions < cx.options.maxExpansions ∧
      entity ∉ cx.opened ∧ 1 + next.remaining ≤ r.remaining := by
  obtain ⟨c, found, -⟩ | ⟨name, middle, resolved, same, taken⟩ := of_reference h
  · cases found
  · obtain ⟨left, same', room, closed⟩ := of_resolve resolved
    exact ⟨by omega, by omega, closed, by omega⟩

/-! ## Constructs that hold characters -/

theorem of_upTo {close : String} {within : Construct} {before content : List Char}
    (h : r.upTo options close within before = .ok (content, next)) :
    next.log.expansions = r.log.expansions ∧
      Text.byteLength content + next.remaining ≤ Text.byteLength before + r.remaining := by
  fun_induction upTo options close within r before with
  | case1 => exact absurd h not_fail
  | case2 =>
    cases h
    exact ⟨rfl, Nat.add_le_add_left (remaining_skip_le ..) _⟩
  | case3 => cases h
  | case4 r before _ _ c middle read ih =>
    obtain ⟨same, taken⟩ := ih h
    have same' := (takes_char ..).same read
    have taken' := (takes_char ..).taken read
    simp only [reached_reader, reached_pair] at same' taken'
    rw [Text.byteLength_cons] at taken
    exact ⟨same.trans same', by omega⟩

theorem of_commentText {before content : List Char}
    (h : r.commentText options before = .ok (content, next)) :
    next.log.expansions = r.log.expansions ∧
      Text.byteLength content + next.remaining ≤ Text.byteLength before + r.remaining := by
  fun_induction commentText options r before with
  | case1 => exact absurd h not_fail
  | case2 =>
    cases h
    exact ⟨rfl, Nat.add_le_add_left (remaining_skip_le ..) _⟩
  | case3 => cases h
  | case4 r before tail _ spelled middle noted ih =>
    obtain ⟨same, taken⟩ := ih h
    have same' := (passes_report ..).same noted
    have left := (passes_report ..).taken noted
    have begins : ['-', '-'] <+: middle.rest := by
      rw [rest_report noted]
      exact ⟨tail, spelled.symm⟩
    have taken' : _ + (middle.skip 2).remaining = _ := middle.remaining_skip_prefix begins
    simp only [reached_reader] at same' left
    simp only [Text.byteLength_cons, Text.byteLength_nil] at taken taken'
    exact ⟨same.trans same', by omega⟩
  | case5 => cases h
  | case6 r before c middle read _ _ _ ih =>
    obtain ⟨same, taken⟩ := ih h
    have same' := (takes_char ..).same read
    have taken' := (takes_char ..).taken read
    simp only [reached_reader, reached_pair] at same' taken'
    rw [Text.byteLength_cons] at taken
    exact ⟨same.trans same', by omega⟩

/-- What is read between delimiters, latest character first, is held as it was written. -/
theorem takes_reversed {read : Except ParseFailure (List Char × Reader)}
    (taken : ∀ content next, read = .ok (content, next) →
      next.log.expansions = r.log.expansions ∧
        Text.byteLength content + next.remaining ≤ Text.byteLength [] + r.remaining) :
    Takes r read fun read => Text.byteLength (String.ofList read.1.reverse).toList where
  same {read} found := (taken _ _ found).1
  taken {read} found := by
    have := (taken _ _ found).2
    rw [String.toList_ofList, byteLength_reverse]
    simpa using this

theorem takes_comment (r : Reader) (options : ParseOptions) :
    Takes r (r.comment options) fun read => 2 + Text.byteLength read.1.toList := by
  refine .add (fun read => Text.byteLength read.1.toList) (takes_expectWord r "<!--")
    (fun next _ => ?_) fun _ _ _ => by simp
  refine .add (fun _ => 0) (takes_reversed fun _ _ => of_commentText) (fun _ _ => .stay rfl)
    fun _ _ h => ?_
  cases h
  rfl

theorem takes_cdataSection (r : Reader) (options : ParseOptions) :
    Takes r (r.cdataSection options) fun read => 2 + Text.byteLength read.1.toList := by
  refine .add (fun read => Text.byteLength read.1.toList) (takes_expectWord r "<![CDATA[")
    (fun next _ => ?_) fun _ _ _ => by simp
  refine .add (fun _ => 0) (takes_reversed fun _ _ => of_upTo) (fun _ _ => .stay rfl)
    fun _ _ h => ?_
  cases h
  rfl

/-- The length of the data of an instruction, in bytes. -/
theorem takes_instruction (r : Reader) (options : ParseOptions) :
    Takes r (r.instruction options) fun read =>
      2 + (read.1.2.map fun data => Text.byteLength data.toList).getD 0 := by
  refine .add (fun read => (read.1.2.map fun data => Text.byteLength data.toList).getD 0)
    (takes_expectWord r "<?") (fun r₁ _ => ?_) fun _ _ _ => by simp
  refine .add (fun read => (read.1.2.map fun data => Text.byteLength data.toList).getD 0)
    (takes_name ..) (fun ⟨target, r₂⟩ _ => ?_) fun _ _ _ => Nat.le_add_left ..
  refine .ite (fun _ => .fail) fun _ => .ite (fun _ => ?_) fun _ => ?_
  · have within : Takes r₂ (r₂.skipBlanks.upTo options "?>" .instruction []) _ :=
      (takes_reversed fun _ _ => of_upTo).later rfl (remaining_skipBlanks_le _)
    refine .add (fun _ => 0) within (fun _ _ => .stay rfl) fun read _ h => ?_
    cases h
    dsimp only
    split
    · exact Nat.zero_le _
    · exact Nat.le_refl _
  · refine .add (fun _ => 0) (takes_expectWord ..) (fun _ _ => .stay rfl) fun _ _ h => ?_
    cases h
    exact Nat.zero_le _

/-! ## Names and ends of tags -/

theorem passes_keepAttribute (r : Reader) (options : ParseOptions) (found : List Attribute)
    (attr : Attribute) : Passes r (r.keepAttribute options found attr) :=
  .ite (fun _ => .bind (passes_report ..) fun _ _ => .stay rfl) fun _ => .stay rfl

theorem passes_boundUri (r : Reader) (options : ParseOptions) (scope : Scope) (nsPrefix : String) :
    Passes r (r.boundUri options scope nsPrefix) := by
  unfold boundUri
  split
  · exact .stay rfl
  · exact .bind (passes_report ..) fun _ _ => .stay rfl

theorem passes_elementUri (r : Reader) (options : ParseOptions) (scope : Scope) (name : QName) :
    Passes r (r.elementUri options scope name) := by
  unfold elementUri
  split
  · exact .stay rfl
  · exact passes_boundUri ..

theorem passes_resolveAttribute (r : Reader) (options : ParseOptions) (scope : Scope)
    (attr : Attribute) : Passes r (r.resolveAttribute options scope attr) := by
  unfold resolveAttribute
  split
  · exact .bind (passes_boundUri ..) fun _ _ => .stay rfl
  · exact .stay rfl

theorem passes_resolveAttributes (options : ParseOptions) (scope : Scope)
    (attributes : List Attribute) (r : Reader) :
    Passes r (resolveAttributes options scope r attributes) := by
  induction attributes generalizing r with
  | nil => exact .stay rfl
  | cons attr rest ih =>
    exact .bind (passes_resolveAttribute ..) fun _ _ => .bind (ih _) fun _ _ => .stay rfl

theorem passes_tagEnd (r : Reader) : Passes r r.tagEnd :=
  .ite (fun _ => .pass rfl (r.remaining_skip_le 2)) fun _ =>
    .ite (fun _ => .pass rfl (r.remaining_skip_le 1)) fun _ => .fail

theorem takes_endTag (r : Reader) (options : ParseOptions) (name : QName) :
    Takes r (r.endTag options name) fun _ => 1 := by
  refine .add (fun _ => 0) (takes_expectWord r "</") (fun _ _ => ?_) fun _ _ _ => by simp
  refine .bind (takes_name ..) fun ⟨_, r₂⟩ _ => .bind ((takes_expect ..).later rfl
    (remaining_skipBlanks_le r₂)) fun _ _ => ?_
  exact .ite (fun _ => .stay rfl) fun _ => passes_report ..

/-! ## The head of a document -/

theorem passes_pseudoValue (r : Reader) : Passes r r.pseudoValue :=
  .bind ((takes_expect ..).later rfl (remaining_skipBlanks_le _)) fun _ _ =>
    (passes_quoted _).later rfl (remaining_skipBlanks_le _)

theorem passes_version (r : Reader) : Passes r r.version :=
  .bind (takes_expectWord ..) fun _ _ => .bind (passes_pseudoValue _) fun _ _ =>
    .ite (fun _ => .stay rfl) fun _ => .fail

theorem passes_encodingName (r : Reader) : Passes r r.encodingName :=
  .ite
    (fun _ => .ite
      (fun _ => .bind ((takes_expectWord ..).later rfl (remaining_skipBlanks_le _)) fun _ _ =>
        .bind (passes_pseudoValue _) fun _ _ => .ite (fun _ => .stay rfl) fun _ => .fail)
      fun _ => .fail)
    fun _ => .stay rfl

theorem passes_standalone (r : Reader) : Passes r r.standalone := by
  refine .ite (fun _ => .ite (fun _ => ?_) fun _ => .fail) fun _ => .stay rfl
  refine .bind ((takes_expectWord ..).later rfl (remaining_skipBlanks_le _)) fun _ _ =>
    .bind (passes_pseudoValue _) fun ⟨value, _⟩ _ => ?_
  dsimp only
  split
  · exact .stay rfl
  · exact .stay rfl
  · exact .fail

theorem passes_declaration (r : Reader) : Passes r r.declaration :=
  .bind (takes_expectWord ..) fun _ _ => .bind (passes_requireBlanks ..) fun _ _ =>
    .bind (passes_version _) fun _ _ => .bind (passes_encodingName _) fun _ _ =>
      .bind (passes_standalone _) fun _ _ => .bind ((takes_expectWord ..).later rfl
        (remaining_skipBlanks_le _)) fun _ _ => .stay rfl

theorem passes_head (r : Reader) : Passes r r.head :=
  .ite (fun _ => .bind (passes_declaration _) fun _ _ => .stay rfl) fun _ =>
    .ite (fun _ => .fail) fun _ => .pass rfl r.remaining_skipBlanks_le

end Reader
end Markup.Xml
