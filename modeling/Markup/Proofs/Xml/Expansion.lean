import Markup.Proofs.Store.Graft
import Markup.Proofs.Xml.Held
import Markup.Proofs.Xml.Rounds

/-!
# How far entities are expanded

A round takes a character, closes an element or expands an entity. An expansion brings a replacement
text, which is no longer than the text of the document, and there are no more expansions than the
limit admits. An entity is opened only where it is not open. So the rounds of a parse are bounded,
whatever the entities of a document refer to.
-/

namespace Markup

/-- The nodes below a node hold what its tree holds. -/
theorem Document.sum_byteSize_preorder {doc : Document} (linked : doc.WellLinked) :
    ∀ id, doc.IsLive id →
      ((doc.preorder id).map fun id => (doc.kind id).byteSize).sum = (doc.tree id).byteSize := by
  refine linked.induction fun id live ih => ?_
  rw [linked.preorder_eq live, linked.tree_eq live, Tree.byteSize, Tree.byteSizeAll_eq,
    List.map_cons, List.sum_cons, List.flatMap_def, List.map_flatten, List.sum_flatten,
    List.map_map, List.map_map, List.map_map, Nat.add_left_cancel_iff]
  exact congrArg List.sum (List.map_congr_left ih)

namespace Xml

open Reaching (reached)

/-- The entities that are open are distinct, and every replacement text is at most so long. -/
structure Context.Limited (cx : Context) (bound : Nat) : Prop where
  distinct : cx.opened.Nodup
  short : cx.entities.Within bound

theorem Context.Limited.opening {cx : Context} {bound : Nat} (limited : cx.Limited bound)
    {entity : String} (closed : entity ∉ cx.opened) : (cx.opening entity).Limited bound :=
  ⟨List.nodup_cons.mpr ⟨closed, limited.distinct⟩, limited.short⟩

/-- The characters that a reference brings and that a round more can be spent on. -/
def Reference.worth (bound : Nat) : Reference → Nat
  | .text _ => 0
  | .entity _ _ => bound + 1

namespace Traced

variable {α β : Type} [Reaching α] [Reaching β]

@[simp] theorem expansions_quiet {γ : Type} (step : Except ParseFailure γ) :
    (quiet step).expansions = 0 := rfl

/-- The rounds of a computation that starts at a reader are paid by the text that is left, by the
expansions in it and by a credit, and the expansions stay within the limit. -/
structure Bounded {γ : Type} (limit bound : Nat) (r : Reader) (credit : Nat) (run : Traced γ) :
    Prop where
  distinct : ∀ round ∈ run.rounds, round.opened.Nodup
  within : r.log.expansions ≤ limit → r.log.expansions + run.expansions ≤ limit
  spent : run.rounds.length ≤ credit + r.remaining + run.expansions * (bound + 1)

theorem Bounded.quiet {γ : Type} {limit bound credit : Nat} {r : Reader}
    {step : Except ParseFailure γ} : Bounded limit bound r credit (Traced.quiet step) :=
  ⟨nofun, fun room => room, Nat.zero_le _⟩

theorem Bounded.ite {γ : Type} {limit bound credit : Nat} {r : Reader} {condition : Prop}
    [Decidable condition] {run other : Traced γ}
    (yes : condition → Bounded limit bound r credit run)
    (no : ¬condition → Bounded limit bound r credit other) :
    Bounded limit bound r credit (if condition then run else other) := by
  split
  · exact yes ‹_›
  · exact no ‹_›

/-- The reader counts the expansions, and what is not spent is left as a credit. -/
structure Accounts (limit bound : Nat) (r : Reader) (credit : Nat) (run : Traced α)
    (left : α → Nat) : Prop extends Bounded limit bound r credit run where
  counted {a : α} : run.outcome = .ok a →
    (reached a).log.expansions = r.log.expansions + run.expansions
  saved {a : α} : run.outcome = .ok a → run.rounds.length + left a + (reached a).remaining ≤
    credit + r.remaining + run.expansions * (bound + 1)

section Follow

variable {γ δ : Type} {limit bound credit : Nat} {r : Reader} {first : Traced γ}
  {next : (a : γ) → first.outcome = .ok a → Traced δ}

theorem follow_of_error {failure : ParseFailure} (ran : first.outcome = .error failure) :
    first.follow next = ⟨first.rounds, .error failure⟩ := by
  unfold follow
  split
  · rename_i other
    cases ran.symm.trans other
    rfl
  · rename_i other
    cases ran.symm.trans other

theorem follow_of_ok {a : γ} (ran : first.outcome = .ok a) : first.follow next =
    ⟨first.rounds ++ (next a ran).rounds, (next a ran).outcome⟩ := by
  unfold follow
  split
  · rename_i other
    cases ran.symm.trans other
  · rename_i other
    cases ran.symm.trans other
    rfl

theorem expansions_follow {a : γ} (ran : first.outcome = .ok a) :
    (first.follow next).expansions = first.expansions + (next a ran).expansions := by
  rw [follow_of_ok ran]
  exact List.countP_append

/-- What goes on from a reader with a credit that the first computation left. -/
theorem Bounded.follow (bounded : Bounded limit bound r credit first)
    (rest : ∀ a ran, ∃ middle more, Bounded limit bound middle more (next a ran) ∧
      middle.log.expansions = r.log.expansions + first.expansions ∧
      first.rounds.length + more + middle.remaining ≤
        credit + r.remaining + first.expansions * (bound + 1)) :
    Bounded limit bound r credit (first.follow next) := by
  cases ran : first.outcome with
  | error failure =>
    rw [follow_of_error ran]
    exact ⟨bounded.distinct, bounded.within, bounded.spent⟩
  | ok a =>
    obtain ⟨middle, more, others, counted, saved⟩ := rest a ran
    refine ⟨?_, fun room => ?_, ?_⟩
    · rw [follow_of_ok ran]
      exact fun round mem => (List.mem_append.mp mem).elim (bounded.distinct round)
        (others.distinct round)
    · have := others.within (counted ▸ bounded.within room)
      rw [expansions_follow ran]
      omega
    · have := others.spent
      rw [expansions_follow ran, follow_of_ok ran, List.length_append, Nat.add_mul]
      omega

theorem Accounts.chain [Reaching δ] {left : δ → Nat} (bounded : Bounded limit bound r credit first)
    (rest : ∀ a ran, ∃ middle more, Accounts limit bound middle more (next a ran) left ∧
      middle.log.expansions = r.log.expansions + first.expansions ∧
      first.rounds.length + more + middle.remaining ≤
        credit + r.remaining + first.expansions * (bound + 1)) :
    Accounts limit bound r credit (first.follow next) left := by
  refine ⟨bounded.follow fun a ran => ?_, fun went => ?_, fun went => ?_⟩
  · obtain ⟨middle, more, accounts, others⟩ := rest a ran
    exact ⟨middle, more, accounts.toBounded, others⟩
  · cases ran : first.outcome with
    | error failure => rw [follow_of_error ran] at went; cases went
    | ok a =>
      obtain ⟨middle, more, accounts, counted, -⟩ := rest a ran
      rw [follow_of_ok ran] at went
      rw [accounts.counted went, counted, expansions_follow ran, Nat.add_assoc]
  · cases ran : first.outcome with
    | error failure => rw [follow_of_error ran] at went; cases went
    | ok a =>
      obtain ⟨middle, more, accounts, -, saved⟩ := rest a ran
      rw [follow_of_ok ran] at went
      have := accounts.saved went
      rw [expansions_follow ran, follow_of_ok ran, List.length_append, Nat.add_mul]
      omega

/-- A step without rounds goes before. -/
theorem Bounded.past [Reaching γ] {step : Except ParseFailure γ} {least : γ → Nat}
    {next : (a : γ) → (Traced.quiet step).outcome = .ok a → Traced δ} (takes : Takes r step least)
    (rest : ∀ a ran, Bounded limit bound (reached a) credit (next a ran)) :
    Bounded limit bound r credit ((Traced.quiet step).follow next) := by
  refine Bounded.quiet.follow fun a ran => ⟨reached a, credit, rest a ran, takes.same ran, ?_⟩
  have := takes.taken ran
  rw [expansions_quiet]
  show 0 + _ + _ ≤ _
  omega

end Follow

namespace Accounts

variable {limit bound credit : Nat} {r next : Reader} {cx : Context} {run first : Traced α}
  {step : Except ParseFailure α} {least : α → Nat} {left : α → Nat} {left' : β → Nat}

theorem quiet (takes : Takes r step least) :
    Accounts limit bound r credit (Traced.quiet step) fun a => credit + least a where
  toBounded := .quiet
  counted found := takes.same found
  saved found := by
    have := takes.taken found
    simp only [Traced.quiet, List.length_nil, expansions, List.countP_nil]
    omega

theorem fail {failure : ParseFailure} :
    Accounts limit bound r credit (Traced.quiet (.error failure)) left where
  toBounded := .quiet
  counted := nofun
  saved := nofun

/-- A last step. -/
theorem last (passes : Passes r step) :
    Accounts limit bound r credit (Traced.quiet step) fun _ => 0 where
  toBounded := .quiet
  counted := passes.same
  saved {a} found := by
    have accounts : Accounts limit bound r credit _ _ := quiet passes
    have := accounts.saved found
    omega

theorem done {a : α} (here : reached a = r) (kept : left a ≤ credit) :
    Accounts limit bound r credit (pure a) left where
  toBounded := .quiet
  counted found := by cases found; rw [here]; rfl
  saved found := by
    cases found
    rw [here]
    show 0 + _ + _ ≤ _ + 0 * _
    omega

/-- What is skipped is a credit. -/
theorem further {more : Nat} (accounts : Accounts limit bound next more run left)
    (same : next.log.expansions = r.log.expansions)
    (paid : more + next.remaining ≤ credit + r.remaining) :
    Accounts limit bound r credit run left where
  distinct := accounts.distinct
  within := same ▸ accounts.within
  spent := by
    have := accounts.spent
    omega
  counted found := same ▸ accounts.counted found
  saved found := by
    have := accounts.saved found
    omega

theorem pastBlanks (accounts : Accounts limit bound r.skipBlanks credit run left) :
    Accounts limit bound r credit run left :=
  accounts.further rfl (Nat.add_le_add_left r.remaining_skipBlanks_le _)

/-- A credit that is not touched is left. -/
theorem frame (kept : Nat) (accounts : Accounts limit bound r credit run left) :
    Accounts limit bound r (kept + credit) run fun a => kept + left a where
  distinct := accounts.distinct
  within := accounts.within
  spent := by
    have := accounts.spent
    omega
  counted := accounts.counted
  saved {a} found := by
    have := accounts.saved found
    omega

theorem follow {after : (a : α) → first.outcome = .ok a → Traced β}
    (accounts : Accounts limit bound r credit first left)
    (rest : ∀ a ran, Accounts limit bound (reached a) (left a) (after a ran) left') :
    Accounts limit bound r credit (first.follow after) left' :=
  chain accounts.toBounded fun a ran =>
    ⟨reached a, left a, rest a ran, accounts.counted ran, accounts.saved ran⟩

/-- A step that reads nothing. -/
theorem aside {γ : Type} {step : Except ParseFailure γ} {after : γ → Traced β}
    (rest : ∀ a, Accounts limit bound r credit (after a) left') :
    Accounts limit bound r credit (Traced.quiet step >>= after) left' := by
  refine chain .quiet fun a _ => ⟨r, credit, rest a, rfl, ?_⟩
  rw [expansions_quiet]
  show 0 + _ + _ ≤ _
  omega

theorem ite {condition : Prop} [Decidable condition] {other : Traced α}
    (yes : condition → Accounts limit bound r credit run left)
    (no : ¬condition → Accounts limit bound r credit other left) :
    Accounts limit bound r credit (if condition then run else other) left := by
  split
  · exact yes ‹_›
  · exact no ‹_›

/-- A round is paid by the credit. -/
theorem inRound (limited : cx.Limited bound) (accounts : Accounts limit bound r credit run left) :
    Accounts limit bound r (credit + 1) (Traced.inRound cx run) left where
  distinct := List.forall_mem_cons.mpr ⟨limited.distinct, accounts.distinct⟩
  within := accounts.within
  spent := by
    have := accounts.spent
    show run.rounds.length + 1 ≤ _ + run.expansions * (bound + 1)
    omega
  counted := accounts.counted
  saved {a} found := by
    have := accounts.saved found
    show run.rounds.length + 1 + left a + _ ≤ _ + run.expansions * (bound + 1)
    omega

/-- A round that takes a byte is paid by that. -/
theorem round {after : (a : α) → (Traced.quiet step).outcome = .ok a → Traced β}
    (limited : cx.Limited bound) (takes : Takes r step fun _ => 1)
    (rest : ∀ a ran, Accounts limit bound (reached a) (credit + 1) (after a ran) left') :
    Accounts limit bound r (credit + 1) (Traced.inRound cx ((Traced.quiet step).follow after))
      left' :=
  .inRound limited (.follow (.quiet takes) rest)

/-- A round that reads a reference is paid by the reference. -/
theorem reference (limited : cx.Limited bound) :
    Accounts cx.options.maxExpansions bound r (credit + 1) (Traced.reference r cx)
      fun found => credit + 1 + found.1.worth bound := by
  have distinct : ∀ round ∈ (Traced.reference r cx).rounds, round.opened.Nodup :=
    List.forall_mem_singleton.mpr limited.distinct
  have length : (Traced.reference r cx).rounds.length = 1 := rfl
  have outcome : (Traced.reference r cx).outcome = r.reference cx := rfl
  rcases read : r.reference cx with failure | ⟨content | ⟨entity, replacement⟩, next⟩
  · have none : (Traced.reference r cx).expansions = 0 := by
      simp [expansions, Traced.reference, expandedBy, read]
    exact ⟨⟨distinct, by omega, by omega⟩, by simp [outcome, read], by simp [outcome, read]⟩
  · have none : (Traced.reference r cx).expansions = 0 := by
      simp [expansions, Traced.reference, expandedBy, read]
    obtain ⟨same, left, -⟩ := Reader.of_reference_text read
    refine ⟨⟨distinct, by omega, by omega⟩, fun found => ?_, fun found => ?_⟩
    · cases read.symm.trans found
      exact none ▸ same
    · cases read.symm.trans found
      simp only [reached_pair, reached_reader, Reference.worth]
      omega
  · have one : (Traced.reference r cx).expansions = 1 := by
      simp [expansions, Traced.reference, expandedBy, read]
    obtain ⟨counted, room, -, left⟩ := Reader.of_reference_entity read
    refine ⟨⟨distinct, fun _ => by omega, by omega⟩, fun found => ?_, fun found => ?_⟩
    · cases read.symm.trans found
      exact one ▸ counted
    · cases read.symm.trans found
      simp only [reached_pair, reached_reader, Reference.worth, one]
      omega

/-- The rounds in replacement text are paid by what it is worth. -/
theorem enter {γ : Type} {replacement : String} {inner : Traced (γ × Reader)}
    {after : γ × Reader → Traced β} (short : Text.byteLength replacement.toList ≤ bound)
    (inside : Accounts limit bound (next.enter replacement) 1 inner fun _ => 0)
    (rest : ∀ found, Accounts limit bound (next.resume found.2) credit (after found) left') :
    Accounts limit bound next (credit + (bound + 1)) (inner >>= after) left' := by
  have entered : (next.enter replacement).log = next.log := rfl
  have whole : (next.enter replacement).remaining = Text.byteLength replacement.toList := rfl
  have bounded : Bounded limit bound next (credit + (bound + 1)) inner := by
    have spent := inside.spent
    rw [whole] at spent
    exact ⟨inside.distinct, inside.within, by omega⟩
  refine chain bounded fun found ran => ⟨next.resume found.2, credit, rest found, ?_, ?_⟩
  · exact inside.counted ran
  · have saved := inside.saved ran
    have resumed : (next.resume found.2).remaining = next.remaining := rfl
    rw [whole] at saved
    omega

end Accounts

variable {limit bound credit : Nat} {r : Reader} {cx : Context}

/-! ## Tags -/

theorem accounts_attributeText {cx : Context} (limited : cx.Limited bound) (quote : Option Char)
    (r : Reader) (value : List Char) :
    Accounts cx.options.maxExpansions bound r 1 (attributeText cx quote r value) fun _ => 0 := by
  rw [attributeText]
  split
  · exact .inRound limited (.last (.ite (fun _ => .fail) fun _ => .stay rfl))
  · refine .ite (fun _ => .inRound limited (.last (.pass rfl (Reader.remaining_skip_le ..))))
      fun _ => .ite (fun _ => .inRound limited (.fail)) fun _ => .ite (fun _ => ?_) fun _ => ?_
    · refine .follow (.reference limited) fun found read => ?_
      rcases found with ⟨content | ⟨entity, replacement⟩, next⟩
      · exact accounts_attributeText limited quote next _
      · refine .ite (fun _ => .fail) fun _ => .enter
          (limited.short _ (Reader.mem_of_reference read)) ?_ fun ⟨value, inner⟩ => ?_
        · exact accounts_attributeText
            (limited.opening (Reader.of_reference_entity read).2.2.1) none (next.enter replacement)
            value
        · exact accounts_attributeText limited quote (next.resume inner) value
    · exact .round limited (Reader.takes_char_one ..) fun found read =>
        accounts_attributeText limited quote found.2 _
  termination_by (cx.unopened, r.rest.length)
  decreasing_by
    · exact .right _ (Reader.length_lt_of_reference read)
    · exact .left _ _ (Reader.unopened_lt_of_reference read)
    · exact .right _ (by simpa using Reader.length_lt_of_reference read)
    · exact .right _ (Reader.length_lt_of_char read)

theorem accounts_attributeValue (limited : cx.Limited bound) (r : Reader) :
    Accounts cx.options.maxExpansions bound r 0 (attributeValue r cx) fun _ => 0 :=
  .follow (.quiet (Reader.takes_openQuote ..)) fun ⟨_, _⟩ _ =>
    .follow (accounts_attributeText limited ..) fun ⟨_, _⟩ _ => .done rfl (Nat.le_refl _)

theorem accounts_attr (limited : cx.Limited bound) (r : Reader) :
    Accounts cx.options.maxExpansions bound r 0 (attr r cx) fun _ => 0 :=
  .follow (.quiet (Reader.takes_name_one ..)) fun ⟨_, _⟩ _ => .pastBlanks <|
    .follow (.quiet (Reader.takes_expect ..)) fun _ _ => .pastBlanks <|
    .follow ((accounts_attributeValue limited _).frame 2) fun ⟨_, _⟩ _ =>
    .done rfl (Nat.zero_le _)

theorem accounts_attributes {cx : Context} (limited : cx.Limited bound) (r : Reader)
    (found : List Attribute) :
    Accounts cx.options.maxExpansions bound r 0 (attributes cx r found) fun _ => 0 := by
  rw [attributes]
  refine .ite (fun _ => .last (.pass rfl r.remaining_skipBlanks_le)) fun _ =>
    .ite (fun _ => .fail) fun _ => .pastBlanks ?_
  refine .follow (accounts_attr limited _) fun found read =>
    .follow (.quiet (Reader.passes_keepAttribute ..)) fun kept listed => ?_
  exact accounts_attributes limited kept.2 kept.1
  termination_by r.rest.length
  decreasing_by
    rw [Reader.rest_of_keepAttribute listed]
    rw [outcome_attr] at read
    exact Nat.lt_of_lt_of_le (Reader.length_lt_of_attr read) (Reader.length_skipBlanks_le r)

theorem accounts_startTag (limited : cx.Limited bound) (r : Reader) (depth : Nat) (scope : Scope) :
    Accounts cx.options.maxExpansions bound r 0 (startTag r cx depth scope) fun _ => 2 :=
  .ite (fun _ => .fail) fun _ =>
    .follow (.quiet (Reader.takes_expect ..)) fun _ _ =>
    .follow (.quiet (Reader.takes_name_one ..)) fun ⟨_, _⟩ _ =>
    .follow ((accounts_attributes limited ..).frame 2) fun ⟨_, _⟩ _ =>
    .follow (.quiet (Reader.passes_elementUri ..)) fun ⟨_, _⟩ _ =>
    .follow (.quiet (Reader.passes_resolveAttributes ..)) fun ⟨_, _⟩ _ =>
    .follow (.quiet (Reader.passes_tagEnd _)) fun ⟨_, _⟩ _ => .done rfl (Nat.le_refl _)

/-! ## Content -/

theorem accounts_item (limited : cx.Limited bound) (r : Reader) (level : Level) :
    Accounts cx.options.maxExpansions bound r 0 (item r cx level) fun _ => 2 := by
  refine .ite (fun _ => ?_) fun _ => .ite (fun _ => ?_) fun _ => .ite (fun _ => ?_) fun _ => ?_
  · exact .follow (.quiet (Reader.takes_cdataSection ..)) fun ⟨_, _⟩ _ => .done rfl (by omega)
  · exact .follow (.quiet (Reader.takes_comment ..)) fun ⟨_, _⟩ _ => .done rfl (by omega)
  · exact .follow (.quiet (Reader.takes_instruction ..)) fun ⟨⟨_, _⟩, _⟩ _ => .done rfl (by omega)
  · exact .follow (accounts_startTag limited ..) fun ⟨_, _⟩ _ => .done rfl (Nat.le_refl _)

/-- Each element that is open pays the round that closes it. -/
theorem accounts_content {cx : Context} (limited : cx.Limited bound) (base : Level) (r : Reader)
    (here : List Draft) (path : List OpenElement) (pending : Pending) :
    Accounts cx.options.maxExpansions bound r (path.length + 1)
      (content cx base r here path pending) fun _ => 0 := by
  rw [content.eq_def]
  split
  · split
    · exact .inRound limited (.last (.stay rfl))
    · exact .inRound limited (.follow (.quiet (Reader.passes_report ..)) fun next noted =>
        accounts_content limited base next ..)
  · rename_i more
    refine .ite (fun _ => .ite (fun _ => ?_) fun _ => ?_) fun _ => .ite (fun _ => ?_) fun _ =>
      .ite (fun _ => ?_) fun _ => ?_
    · split
      · exact .inRound limited (.last (.stay rfl))
      · exact .inRound limited (.follow (.quiet (Reader.takes_endTag ..)) fun next closed =>
          (accounts_content limited base next ..).further rfl
            (Nat.add_le_add_right (Nat.le_succ _) _))
    · refine .inRound limited (.follow ((accounts_item limited ..).frame path.length) ?_)
      rintro ⟨kind | tag, next⟩ read
      · exact (accounts_content limited base next ..).further rfl
          (Nat.add_le_add_right (Nat.le_succ _) _)
      · exact accounts_content limited base next [] (⟨tag, _⟩ :: path) .empty
    · refine .follow (.reference limited) fun found read => ?_
      rcases found with ⟨found | ⟨entity, replacement⟩, next⟩
      · exact .aside fun pending => accounts_content limited base next ..
      · have short := limited.short _ (Reader.mem_of_reference read)
        have inside := limited.opening (Reader.of_reference_entity read).2.2.1
        refine .ite (fun _ => .aside fun pending => ?_) fun _ => .enter short ?_
          fun copied => .ite (fun _ => ?_) fun _ => .fail
        · exact (accounts_content limited base next ..).further rfl
            (Nat.add_le_add_right (Nat.le_add_right ..) _)
        · exact accounts_content inside (base.inside path) (next.enter replacement) [] [] .empty
        · exact accounts_content limited base (next.resume copied.2) ..
    · refine .inRound limited (.follow (.quiet (Reader.passes_report ..)) fun next noted =>
        .aside fun pending => ?_)
      have begins : "]]>".toList <+: next.rest := by
        rw [Reader.rest_report noted]
        exact Reader.startsWith_iff.mp ‹_›
      have taken : Text.byteLength "]]>".toList + (next.skip 3).remaining = next.remaining :=
        Reader.remaining_skip_prefix begins
      have size : Text.byteLength "]]>".toList = 3 := rfl
      have shorter : (next.skip 3).rest.length < r.rest.length := by
        rw [← Reader.rest_report noted]
        exact Reader.length_skip_lt (by decide) (by simp [Reader.rest_report noted, more])
      refine (accounts_content limited base (next.skip 3) ..).further rfl ?_
      show path.length + 1 + _ ≤ path.length + next.remaining
      omega
    · exact .round limited (Reader.takes_char_one ..) fun found read => .aside fun pending =>
        accounts_content limited base found.2 ..
  termination_by (cx.unopened, r.rest.length, path.length)
  decreasing_by
    · rw [Reader.rest_report noted]
      exact .right _ (.right _ (by simp only [*, List.length_cons, Nat.lt_succ_self]))
    · exact .right _ (.left _ _ (Reader.length_lt_of_endTag closed))
    · exact .right _ (.left _ _ (Reader.length_lt_of_item (outcome_item r .. ▸ read)))
    · exact .right _ (.left _ _ (Reader.length_lt_of_item (outcome_item r .. ▸ read)))
    · exact .right _ (.left _ _ (Reader.length_lt_of_reference read))
    · exact .right _ (.left _ _ (Reader.length_lt_of_reference read))
    · exact .left _ _ (Reader.unopened_lt_of_reference read)
    · exact .right _ (.left _ _ (by simpa using Reader.length_lt_of_reference read))
    · exact .right _ (.left _ _ shorter)
    · exact .right _ (.left _ _ (Reader.length_lt_of_char read))

theorem accounts_rootElement (limited : cx.Limited bound) (r : Reader) :
    Accounts cx.options.maxExpansions bound r 0 (rootElement r cx) fun _ => 0 := by
  refine .follow (accounts_startTag limited ..) fun ⟨tag, r₁⟩ _ =>
    .ite (fun _ => .done rfl (Nat.zero_le _)) fun _ => ?_
  have inside : Accounts cx.options.maxExpansions bound r₁ 2 _ _ :=
    (accounts_content limited ⟨1, tag.scope⟩ r₁ [] [] .empty).further rfl
      (Nat.add_le_add_right (Nat.le_succ _) _)
  refine .follow inside fun ⟨children, r₂⟩ _ => .ite (fun _ => ?_) fun _ => ?_
  · exact .follow (.quiet (Reader.passes_report ..)) fun _ _ => .done rfl (Nat.le_refl _)
  · exact .follow (.quiet (Reader.takes_endTag ..)) fun _ _ => .done rfl (Nat.zero_le _)

/-! ## Whole documents -/

theorem bounded_parse (options : ParseOptions) (text : String) :
    Bounded options.maxExpansions (Text.byteLength text.toList) (Reader.ofText text) 0
      (parse options text) := by
  refine .past (Reader.passes_head _) fun ⟨declaration, r₁⟩ headed =>
    .past (Reader.passes_misc ..) fun ⟨early, r₂⟩ misc₁ =>
    .past (Reader.passes_typeDeclaration ..) fun ⟨⟨middle, table⟩, r₃⟩ type => ?_
  have left₁ := (Reader.passes_head ..).taken headed
  have left₂ := (Reader.passes_misc ..).taken misc₁
  simp only [reached_pair, reached_reader] at left₁ left₂
  have start : (Reader.ofText text).remaining = Text.byteLength text.toList := rfl
  have limited : Context.Limited ⟨options, table, []⟩ (Text.byteLength text.toList) :=
    ⟨List.nodup_nil, Reader.within_of_typeDeclaration (by omega) type⟩
  refine .ite (fun _ => .quiet) fun _ => .ite (fun _ => .quiet) fun _ => ?_
  have element := accounts_rootElement limited r₃
  refine element.toBounded.follow fun ⟨root, r₄⟩ ran =>
    ⟨r₄, 0, ?_, element.counted ran, element.saved ran⟩
  exact .past (Reader.passes_misc ..) fun ⟨nodes, r₅⟩ _ =>
    .ite (fun _ => .past (.stay rfl) fun _ _ => .quiet)
      fun _ => .past (Reader.passes_report ..) fun _ _ => .quiet

end Traced

/-- The expansion of entities is bounded. Run round by round, a parse yields what it yields; it
expands no more references than the limit admits and takes no more rounds than the bytes of the
text and of that many replacement texts account for. No entity is opened in itself, and a document
holds no more bytes than the text has, once for the text and once for each expansion. -/
theorem expansion_bounded (options : ParseOptions) (text : String) :
    (Traced.parse options text).outcome = parse options text ∧
    (Traced.parse options text).expansions ≤ options.maxExpansions ∧
    (Traced.parse options text).rounds.length ≤
      (1 + options.maxExpansions) * (Text.byteLength text.toList + 1) ∧
    (∀ round ∈ (Traced.parse options text).rounds, round.opened.Nodup) ∧
    ∀ doc, Document.ofXml options text = .ok doc →
      (doc.order.map fun id => (doc.kind id).byteSize).sum ≤
        (1 + options.maxExpansions) * Text.byteLength text.toList := by
  have bounded := Traced.bounded_parse options text
  have fresh : (Reader.ofText text).log.expansions = 0 := rfl
  have within : (Traced.parse options text).expansions ≤ options.maxExpansions := by
    have := bounded.within (Nat.zero_le _)
    omega
  refine ⟨Traced.outcome_parse options text, within, ?_, bounded.distinct, ?_⟩
  · have spent := bounded.spent
    have paid := Nat.mul_le_mul_right (Text.byteLength text.toList + 1) within
    have whole : (Reader.ofText text).remaining = Text.byteLength text.toList := rfl
    rw [Nat.add_mul]
    omega
  · intro doc parsed
    have linked := Document.wellLinked_ofXml parsed
    obtain ⟨draft, read, rfl⟩ := map_eq_ok.mp parsed
    have size : ((Document.ofDraft draft).tree Document.root).byteSize =
        Draft.byteSizes draft.nodes := by
      rw [Document.tree_ofDraft, Tree.byteSize, Draft.byteSizeAll_toTrees]
      exact Nat.zero_add _
    rw [linked.order_eq, Document.sum_byteSize_preorder linked _ linked.root_live, size]
    exact byteSizes_of_parse read

section Replaced

open Reader

/-- A document in which a reference to an entity stood. -/
def replaced : Document :=
  Document.ofDraft ⟨none, none, none, [],
    [.written (.doctype "a" none none) [],
      .written (.element ⟨none, "a"⟩ none []) [.written (.text "xy") []]]⟩

theorem ofXml_replaced :
    Document.ofXml {} "<!DOCTYPE a [<!ENTITY e \"xy\">]><a>&e;</a>" = .ok replaced := by
  let table : EntityTable := ⟨[("e", "xy")], [], false⟩
  let cx : Context := ⟨{}, table, []⟩
  let start := Reader.ofText "<!DOCTYPE a [<!ENTITY e \"xy\">]><a>&e;</a>"
  let named : Reader := ⟨" [<!ENTITY e \"xy\">]><a>&e;</a>".toList, ⟨1, 12, 11⟩, none, ⟨[], 0⟩⟩
  let value : Reader := ⟨"\"xy\">]><a>&e;</a>".toList, ⟨1, 25, 24⟩, none, ⟨[], 0⟩⟩
  let valued : Reader := ⟨">]><a>&e;</a>".toList, ⟨1, 29, 28⟩, none, ⟨[], 0⟩⟩
  let opened : Reader := ⟨"<a>&e;</a>".toList, ⟨1, 32, 31⟩, none, ⟨[], 0⟩⟩
  let inside : Reader := ⟨"&e;</a>".toList, ⟨1, 35, 34⟩, none, ⟨[], 0⟩⟩
  let closing : Reader := ⟨"</a>".toList, ⟨1, 38, 37⟩, none, ⟨[], 1⟩⟩
  let ended : Reader := ⟨[], ⟨1, 42, 41⟩, none, ⟨[], 1⟩⟩
  let type : Draft := .written (.doctype "a" none none) []
  let root : Draft := .written (.element ⟨none, "a"⟩ none []) [.written (.text "xy") []]
  have name : (start.skip 10).name {} = .ok ("a", named) := by cbv
  have definition : value.entityDefinition {} = .ok (some "xy", valued) := by
    refine bind_eq_ok.mpr ⟨((none, none), value), ?_, ?_⟩
    · rw [externalId, if_neg (by decide), if_neg (by decide)]
    · cbv
  have letter : (named.skip 11).entityName {} = .ok ("e", named.skip 12) := by cbv
  have entity : (named.skip 2).entityDeclaration {} .empty = .ok (table, valued.skip 1) := by
    refine bind_eq_ok.mpr ⟨named.skip 10, rfl, bind_eq_ok.mpr ⟨named.skip 11, rfl, bind_eq_ok.mpr
      ⟨(false, named.skip 11), rfl, bind_eq_ok.mpr ⟨_, letter, bind_eq_ok.mpr ⟨value, rfl,
        bind_eq_ok.mpr ⟨_, definition, bind_eq_ok.mpr ⟨valued, ?_, rfl⟩⟩⟩⟩⟩⟩⟩
    rw [unparsedMark, if_neg (by decide)]
    rfl
  have subset : internalSubset {} (named.skip 2) .empty = .ok (table, valued.skip 2) := by
    rw [internalSubset_eq, if_neg (by decide), if_neg (by decide), subsetItem,
      if_neg (by decide), if_pos (by decide)]
    refine bind_eq_ok.mpr ⟨_, entity, ?_⟩
    rw [internalSubset_eq, if_neg (by decide), if_pos (by decide)]
    rfl
  have doctype : start.doctype {} = .ok ((⟨"a", none, none⟩, table), opened) := by
    refine bind_eq_ok.mpr ⟨start.skip 9, rfl, bind_eq_ok.mpr ⟨start.skip 10, rfl, bind_eq_ok.mpr
      ⟨_, name, bind_eq_ok.mpr ⟨((none, none), named.skip 1), ?_, ?_⟩⟩⟩⟩
    · rw [externalId, if_neg (by decide), if_neg (by decide)]
      rfl
    · dsimp only
      rw [if_pos (by decide)]
      exact bind_eq_ok.mpr ⟨_, subset, rfl⟩
  have declared : start.typeDeclaration {} [] = .ok (([type], table), opened) := by
    rw [typeDeclaration, if_pos (by decide)]
    exact bind_eq_ok.mpr ⟨_, doctype, bind_eq_ok.mpr ⟨_, misc_eq_ok rfl rfl, rfl⟩⟩
  have tag : opened.startTag cx 1 .initial =
      .ok (⟨⟨none, "a"⟩, none, [], .initial, false⟩, inside) := by cbv
  have read : inside.reference cx = .ok (.entity "e" "xy", closing) := by cbv
  have content : content cx ⟨1, .initial⟩ inside [] [] .empty =
      .ok ([.written (.text "xy") []], closing) := by
    rw [content_eq]
    refine bind_eq_ok.mpr ⟨_, read, bind_eq_ok.mpr ⟨Pending.empty.add "xy".toList, rfl, ?_⟩⟩
    rw [content_markup (by rfl), if_pos (by decide)]
    rfl
  have last : closing.endTag {} ⟨none, "a"⟩ = .ok ended := by cbv
  have element : opened.rootElement cx = .ok (root, ended) :=
    bind_eq_ok.mpr ⟨_, tag, bind_eq_ok.mpr ⟨_, content, bind_eq_ok.mpr ⟨_, last, rfl⟩⟩⟩
  exact map_eq_ok.mpr ⟨_, parse_eq_ok_iff.mpr ⟨none, start, [], start, [type], table, opened, root,
    ended, [root, type], ended, ended, rfl, misc_eq_ok rfl rfl, declared, rfl, rfl, element,
    misc_eq_ok rfl rfl, rfl, rfl⟩, rfl⟩

/-- A document that holds a replacement text, and is bounded by it. -/
theorem expansion_bounded_replaced :
    Document.ofXml {} "<!DOCTYPE a [<!ENTITY e \"xy\">]><a>&e;</a>" = .ok replaced ∧
    (replaced.order.map fun id => (replaced.kind id).byteSize).sum ≤
      (1 + ParseOptions.maxExpansions {}) *
        Text.byteLength "<!DOCTYPE a [<!ENTITY e \"xy\">]><a>&e;</a>".toList :=
  ⟨ofXml_replaced, (expansion_bounded {} _).2.2.2.2 replaced ofXml_replaced⟩

end Replaced

end Xml
end Markup
