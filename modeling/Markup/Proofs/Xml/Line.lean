import Markup.Proofs.Xml.Step

/-!
# Content up to a delimiter

Comments, CDATA sections and instructions run up to the first place where their delimiter begins.
What is read is what stands there with its line ends turned into line feeds; text without carriage
returns is read as it stands.
-/

namespace Markup.Xml

/-- Content as it is read: a carriage return, alone or before a line feed, is a line feed. -/
def lineEnds : List Char → List Char
  | '\r' :: '\n' :: rest => '\n' :: lineEnds rest
  | '\r' :: rest => '\n' :: lineEnds rest
  | c :: rest => c :: lineEnds rest
  | [] => []

/-- A mark that follows a text begins nowhere earlier. -/
def Clear (mark : List Char) : List Char → Prop
  | [] => True
  | c :: rest => ¬ mark <+: c :: rest ++ mark ∧ Clear mark rest

theorem lineEnds_eq_self {text : List Char} (plain : '\r' ∉ text) : lineEnds text = text := by
  fun_induction lineEnds text with
  | case1 => simp at plain
  | case2 => simp at plain
  | case3 c rest _ _ ih => rw [ih fun listed => plain (List.mem_cons_of_mem c listed)]
  | case4 => rfl

theorem not_mem_lineEnds (text : List Char) : '\r' ∉ lineEnds text := by
  fun_induction lineEnds text with
  | case1 rest ih => simpa using ih
  | case2 rest _ ih => simpa using ih
  | case3 c rest _ other ih =>
    intro listed
    rcases List.mem_cons.mp listed with rfl | later
    · exact other rfl
    · exact ih later
  | case4 => nofun

theorem isLegal_lineEnds {text : List Char} (legal : IsLegal text) : IsLegal (lineEnds text) := by
  fun_induction lineEnds text with
  | case1 rest ih => exact isLegal_cons.mpr ⟨by decide, ih (by simp_all)⟩
  | case2 rest _ ih => exact isLegal_cons.mpr ⟨by decide, ih (by simp_all)⟩
  | case3 c rest _ _ ih =>
    rw [isLegal_cons] at legal
    exact isLegal_cons.mpr ⟨legal.1, ih legal.2⟩
  | case4 => exact isLegal_nil

/-- What begins a text as it is read, line feeds apart, begins the text. -/
theorem prefix_of_prefix_lineEnds {start text tail : List Char} (noFeed : '\n' ∉ start)
    (h : start <+: lineEnds text ++ tail) : start <+: text ++ tail := by
  fun_induction lineEnds text generalizing start with
  | case1 rest ih =>
    cases start with
    | nil => exact List.nil_prefix
    | cons a start =>
      obtain ⟨rfl, -⟩ := List.cons_prefix_cons.mp h
      simp at noFeed
  | case2 rest _ ih =>
    cases start with
    | nil => exact List.nil_prefix
    | cons a start =>
      obtain ⟨rfl, -⟩ := List.cons_prefix_cons.mp h
      simp at noFeed
  | case3 c rest _ _ ih =>
    cases start with
    | nil => exact List.nil_prefix
    | cons a start =>
      obtain ⟨rfl, later⟩ := List.cons_prefix_cons.mp h
      exact List.cons_prefix_cons.mpr
        ⟨rfl, ih (fun listed => noFeed (List.mem_cons_of_mem a listed)) later⟩
  | case4 => exact h

/-- A delimiter: it is not empty and reaches over no line end. -/
def IsMark (mark : List Char) : Prop := mark ≠ [] ∧ '\n' ∉ mark

instance (mark : List Char) : Decidable (IsMark mark) := inferInstanceAs (Decidable (_ ∧ _))

theorem IsMark.exists_cons {mark : List Char} (isMark : IsMark mark) :
    ∃ a rest, mark = a :: rest ∧ a ≠ '\n' := by
  cases mark with
  | nil => exact absurd rfl isMark.1
  | cons a rest => exact ⟨a, rest, rfl, fun same => isMark.2 (by simp [same])⟩

theorem IsMark.not_prefix {mark rest : List Char} (isMark : IsMark mark) :
    ¬ mark <+: '\n' :: rest := by
  intro begins
  obtain ⟨a, later, rfl, solid⟩ := isMark.exists_cons
  exact solid (List.cons_prefix_cons.mp begins).1

theorem Clear.lineEnds {mark text : List Char} (isMark : IsMark mark) (clear : Clear mark text) :
    Clear mark (lineEnds text) := by
  fun_induction Xml.lineEnds text with
  | case1 rest ih => exact ⟨isMark.not_prefix, ih clear.2.2⟩
  | case2 rest _ ih => exact ⟨isMark.not_prefix, ih clear.2⟩
  | case3 c rest _ _ ih =>
    refine ⟨fun begins => ?_, ih clear.2⟩
    obtain ⟨a, mark, rfl, -⟩ := isMark.exists_cons
    obtain ⟨rfl, later⟩ := List.cons_prefix_cons.mp begins
    apply clear.1 (List.cons_prefix_cons.mpr ⟨rfl, ?_⟩)
    exact prefix_of_prefix_lineEnds (fun listed => isMark.2 (List.mem_cons_of_mem a listed)) later
  | case4 => trivial

theorem prefix_append_right_iff {start text tail : List Char}
    (short : start.length ≤ text.length) : start <+: text ++ tail ↔ start <+: text :=
  ⟨fun begins => List.prefix_of_prefix_length_le begins (List.prefix_append text tail) short,
    fun begins => begins.trans (List.prefix_append text tail)⟩

/-- Where a mark follows a text, whatever comes next, it begins nowhere earlier. -/
theorem Clear.not_prefix {mark text tail : List Char} (clear : Clear mark text)
    (nonempty : text ≠ []) : ¬ mark <+: text ++ mark ++ tail := by
  rw [prefix_append_right_iff (by simp only [List.length_append]; omega)]
  cases text with
  | nil => exact absurd rfl nonempty
  | cons c rest => exact clear.1

/-- A mark that begins no earlier than where it stands begins nowhere in the text before it. -/
theorem not_prefix_of_spelled {mark whole text tail : List Char} (absent : ¬ mark <+: whole)
    (spelled : whole = text ++ mark ++ tail) : ¬ mark <+: text ++ mark := by
  intro early
  apply absent
  rw [spelled]
  exact early.trans (List.prefix_append _ tail)

namespace Reader

variable {r next : Reader} {options : ParseOptions} {text tail before content : List Char} {c : Char}

/-- A line end is read as a line feed. -/
theorem char_feed (spelled : r.rest = '\r' :: '\n' :: tail) :
    r.char options = .ok ('\n', r.skip 2) := by
  unfold char
  simp [spelled]

theorem char_return (spelled : r.rest = '\r' :: tail) (single : tail.head? ≠ some '\n') :
    r.char options = .ok ('\n', r.skip 1) := by
  unfold char
  split
  · simp_all
  · rename_i _ known
    rw [spelled] at known
    obtain ⟨-, rfl⟩ := List.cons.inj known
    simp at single
  · rfl
  · rename_i _ other known
    obtain ⟨rfl, -⟩ := List.cons.inj (spelled.symm.trans known)
    exact absurd rfl other

/-- How a character that was read stood in the text. -/
theorem spelled_of_char (strict : options.recover = false) (h : r.char options = .ok (c, next)) :
    (c = '\n' ∧ r.rest = '\r' :: '\n' :: next.rest) ∨
      (c = '\n' ∧ r.rest = '\r' :: next.rest ∧ next.rest.head? ≠ some '\n') ∨
      (c ≠ '\r' ∧ isDocumentChar c = true ∧ r.rest = c :: next.rest) := by
  unfold char at h
  split at h
  · exact absurd h not_fail
  · rename_i spelled
    cases h
    exact .inl ⟨rfl, by simp [spelled]⟩
  · rename_i tail single spelled
    cases h
    refine .inr (.inl ⟨rfl, by simp [spelled], ?_⟩)
    intro feed
    rw [rest_skip, spelled, List.drop_one, List.tail_cons, List.head?_eq_some_iff] at feed
    obtain ⟨later, rfl⟩ := feed
    exact single later rfl
  · rename_i first tail _ single spelled
    split at h
    · rename_i legal
      cases h
      refine .inr (.inr ⟨?_, legal, by simp [spelled]⟩)
      rintro rfl
      exact single rfl
    · obtain ⟨middle, reported, -⟩ := exists_of_bind_ok h
      exact absurd reported (report_ne_ok strict)

/-- From a text that is followed by a mark, one character is read off the front. -/
theorem exists_char {mark : List Char} (isMark : IsMark mark) (legal : IsLegal text)
    (clear : Clear mark text) (nonempty : text ≠ []) (spelled : r.rest = text ++ mark ++ tail) :
    ∃ c later next, r.char options = .ok (c, next) ∧ next.rest = later ++ mark ++ tail ∧
      lineEnds text = c :: lineEnds later ∧ later.length < text.length ∧
      IsLegal later ∧ Clear mark later := by
  fun_cases lineEnds text with
  | case1 rest =>
    refine ⟨'\n', rest, r.skip 2, char_feed (by rw [spelled]; rfl), by simp [spelled], rfl, ?_, ?_,
      clear.2.2⟩
    · simp only [List.length_cons]
      omega
    · exact (isLegal_cons.mp (isLegal_cons.mp legal).2).2
  | case2 rest single =>
    have alone : (rest ++ mark ++ tail).head? ≠ some '\n' := by
      obtain ⟨a, others, rfl, solid⟩ := isMark.exists_cons
      intro feed
      cases rest with
      | nil => exact solid (by simpa using feed)
      | cons d rest => exact single rest (by simpa using feed)
    exact ⟨'\n', rest, r.skip 1, char_return (by rw [spelled]; rfl) alone, by simp [spelled], rfl,
      by simp, (isLegal_cons.mp legal).2, clear.2⟩
  | case3 c rest crlf other =>
    rw [isLegal_cons] at legal
    exact ⟨c, rest, r.skip 1, char_eq_ok (by rw [spelled]; rfl) legal.1 other, by simp [spelled],
      rfl, by simp, legal.2, clear.2⟩
  | case4 => exact absurd rfl nonempty

/-- A character that was read before a text that a mark follows extends the text to the front. -/
theorem extends_of_char {mark : List Char} (strict : options.recover = false) (isMark : IsMark mark)
    (read : r.char options = .ok (c, next)) (inside : ¬ mark <+: r.rest) (legal : IsLegal text)
    (clear : Clear mark text) (spelled : next.rest = text ++ mark ++ tail) :
    ∃ longer, lineEnds longer = c :: lineEnds text ∧ IsLegal longer ∧ Clear mark longer ∧
      r.rest = longer ++ mark ++ tail := by
  rcases spelled_of_char strict read with ⟨rfl, whole⟩ | ⟨rfl, whole, single⟩ | ⟨plain, ok, whole⟩
  · rw [spelled] at whole
    refine ⟨'\r' :: '\n' :: text, by simp [lineEnds], ?_, ⟨?_, isMark.not_prefix, clear⟩, whole⟩
    · exact isLegal_cons.mpr ⟨by decide, isLegal_cons.mpr ⟨by decide, legal⟩⟩
    · exact not_prefix_of_spelled inside whole
  · have alone : ∀ rest, text ≠ '\n' :: rest := by
      rintro rest rfl
      simp [spelled] at single
    rw [spelled] at whole
    refine ⟨'\r' :: text, lineEnds.eq_2 text alone, isLegal_cons.mpr ⟨by decide, legal⟩, ⟨?_, clear⟩,
      whole⟩
    exact not_prefix_of_spelled inside whole
  · rw [spelled] at whole
    refine ⟨c :: text, ?_, isLegal_cons.mpr ⟨ok, legal⟩, ⟨?_, clear⟩, whole⟩
    · exact lineEnds.eq_3 c text (fun rest same => absurd same plain) plain
    · exact not_prefix_of_spelled inside whole

/-! ## Content up to its delimiter -/

variable {close : String} {within : Construct}

theorem upTo_cons (open_ : ¬ close.toList <+: r.rest) (read : r.char options = .ok (c, next)) :
    upTo options close within r before = upTo options close within next (c :: before) := by
  have more : r.atEnd = false := by
    cases spelled : r.rest with
    | nil => simp [char, spelled, fail] at read
    | cons d rest => simp [atEnd, spelled]
  rw [upTo]
  split
  · rename_i done
    simp [more] at done
  · split
    · rename_i begins
      exact absurd (startsWith_iff.mp begins) open_
    · split
      · rename_i failed
        rw [read] at failed
        cases failed
      · rename_i again
        rw [read] at again
        cases again
        rfl

/-- Content is read up to the first place where its delimiter begins. -/
theorem exists_upTo (options : ParseOptions) (within : Construct) (before : List Char)
    (isMark : IsMark close.toList) (legal : IsLegal text)
    (clear : Clear close.toList text) (spelled : r.rest = text ++ close.toList ++ tail) :
    ∃ next, upTo options close within r before = .ok ((lineEnds text).reverse ++ before, next) ∧
      next.rest = tail := by
  -- Two characters may be read as one, so that the induction is on the length.
  induction count : text.length using Nat.strongRecOn generalizing text r before with
  | ind length ih =>
    by_cases nonempty : text = []
    · subst nonempty
      have more : r.atEnd = false := by
        obtain ⟨a, mark, listed, -⟩ := isMark.exists_cons
        simp [atEnd, spelled, listed]
      have begins : r.startsWith close = true := startsWith_iff.mpr (by simp [spelled])
      refine ⟨r.skip close.length, ?_, rest_skip_length (by simpa using spelled)⟩
      rw [upTo]
      simp [more, begins, lineEnds]
    · have inside : ¬ close.toList <+: r.rest := by
        rw [spelled]
        exact clear.not_prefix nonempty
      obtain ⟨c, later, next, read, rest, same, shorter, legal, clear⟩ :=
        exists_char isMark legal clear nonempty spelled
      obtain ⟨last, reads, ends⟩ :=
        ih later.length (count ▸ shorter) (c :: before) legal clear rest rfl
      refine ⟨last, ?_, ends⟩
      rw [upTo_cons inside read, reads, same]
      simp

/-- What was read up to a delimiter is what stands before it. -/
theorem spelled_of_upTo (strict : options.recover = false) (isMark : IsMark close.toList)
    (h : upTo options close within r before = .ok (content, next)) :
    ∃ text, content = (lineEnds text).reverse ++ before ∧ IsLegal text ∧
      Clear close.toList text ∧ r.rest = text ++ close.toList ++ next.rest := by
  fun_induction upTo options close within r before with
  | case1 => exact absurd h not_fail
  | case2 r before _ begins =>
    cases h
    obtain ⟨tail, spelled⟩ := startsWith_iff.mp begins
    refine ⟨[], rfl, isLegal_nil, trivial, ?_⟩
    rw [List.nil_append, ← spelled]
    exact congrArg _ (rest_skip_length spelled.symm).symm
  | case3 => cases h
  | case4 r before _ begins c middle read ih =>
    obtain ⟨text, rfl, legal, clear, spelled⟩ := ih h
    rw [startsWith_iff] at begins
    obtain ⟨longer, same, legal, clear, spelled⟩ :=
      extends_of_char strict isMark read begins legal clear spelled
    exact ⟨longer, by simp [same], legal, clear, spelled⟩

end Reader
end Markup.Xml
