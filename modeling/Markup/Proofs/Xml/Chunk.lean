import Markup.Proofs.Xml.Tag

/-!
# Content piece by piece

Without indentation a tree is written as its nodes stand, one after the other. A CDATA node whose
content holds the end of a section is written as several sections. Outside tags, what is written
never has a greater-than sign in it that a reader could take for the end of a section. So it is known
what one round of the loop over content does with a piece of text, a reference, a node without
children, and the start and the end of an element.
-/

namespace Markup.Xml

/-! ## Sections -/

/-- The content of a CDATA node, cut wherever the end of a section would stand in it: the first
part and the others. -/
def sections : List Char → List Char × List (List Char)
  | ']' :: ']' :: '>' :: rest => ([']', ']'], ('>' :: (sections rest).1) :: (sections rest).2)
  | c :: rest => (c :: (sections rest).1, (sections rest).2)
  | [] => ([], [])

/-- What is written between two sections. -/
def sectionBreak : String := "]]><![CDATA["

theorem splitSections_eq (text : List Char) :
    splitSections text = (sections text).1 ++ (sections text).2.flatMap (sectionBreak.toList ++ ·) := by
  fun_induction sections text with
  | case1 rest ih =>
    have step : splitSections (']' :: ']' :: '>' :: rest) =
        "]]]]><![CDATA[>".toList ++ splitSections rest := rfl
    rw [step, ih]
    simp [sectionBreak]
  | case2 c rest other ih =>
    rw [splitSections.eq_def]
    split
    · rename_i known
      obtain ⟨rfl, rfl⟩ := List.cons.inj known
      exact absurd rfl (other _ rfl)
    · rename_i known
      obtain ⟨rfl, rfl⟩ := List.cons.inj known
      rw [ih, List.cons_append]
    · contradiction
  | case3 =>
    rw [splitSections.eq_def]
    rfl

/-- The first section is what its node begins with. -/
theorem begins_sections (text : List Char) : (sections text).1 <+: text := by
  fun_induction sections text with
  | case1 rest ih => exact ⟨'>' :: rest, rfl⟩
  | case2 c rest other ih => exact List.cons_prefix_cons.mpr ⟨rfl, ih⟩
  | case3 => exact List.nil_prefix

/-- The end of a section begins no earlier than where it stands if it begins nowhere in the text:
no proper end of it begins it. -/
theorem not_prefix_section_end {text : List Char} (absent : ¬ "]]>".toList <+: text)
    (nonempty : text ≠ []) : ¬ "]]>".toList <+: text ++ "]]>".toList := by
  match text, nonempty with
  | [a], _ => simp [List.cons_prefix_cons]
  | [a, b], _ => simp [List.cons_prefix_cons]
  | a :: b :: c :: rest, _ => rwa [prefix_append_right_iff (by simp)]

theorem clear_sections (text : List Char) :
    Clear "]]>".toList (sections text).1 ∧ ∀ part ∈ (sections text).2, Clear "]]>".toList part := by
  fun_induction sections text with
  | case1 rest ih =>
    refine ⟨by simp [Clear, List.cons_prefix_cons], ?_⟩
    intro part listed
    rcases List.mem_cons.mp listed with rfl | later
    · exact ⟨by simp [List.cons_prefix_cons], ih.1⟩
    · exact ih.2 part later
  | case2 c rest other ih =>
    refine ⟨⟨not_prefix_section_end ?_ nofun, ih.1⟩, ih.2⟩
    intro begins
    obtain ⟨later, same⟩ := begins.trans (List.cons_prefix_cons.mpr ⟨rfl, begins_sections rest⟩)
    obtain ⟨rfl, rest_eq⟩ := List.cons.inj same
    exact other later rfl rest_eq.symm
  | case3 => exact ⟨trivial, nofun⟩

theorem isSection_sections {text : List Char} (legal : IsLegal text) :
    IsSection (sections text).1 ∧ ∀ part ∈ (sections text).2, IsSection part := by
  have clear := clear_sections text
  refine ⟨⟨fun c listed => legal c ((begins_sections text).subset listed), clear.1⟩,
    fun part listed => ⟨?_, clear.2 part listed⟩⟩
  fun_induction sections text with
  | case1 rest ih =>
    simp only [isLegal_cons] at legal
    rcases List.mem_cons.mp listed with rfl | later
    · refine isLegal_cons.mpr ⟨legal.2.2.1, fun c within => ?_⟩
      exact legal.2.2.2 c ((begins_sections rest).subset within)
    · exact ih legal.2.2.2 (clear_sections rest) later
  | case2 c rest other ih => exact ih (isLegal_cons.mp legal).2 (clear_sections rest) listed
  | case3 => cases listed

/-- Content without the end of a section is one section. -/
theorem sections_eq_self {text : List Char} (clear : Clear "]]>".toList text) :
    sections text = (text, []) := by
  fun_induction sections text with
  | case1 rest ih => exact absurd ⟨rest ++ "]]>".toList, rfl⟩ clear.1
  | case2 c rest other ih => rw [ih clear.2]
  | case3 => rfl

/-! ## Trees as they are written -/

mutual

/-- A tree as it is written without indentation. -/
def spell : Tree → List Char
  | .node .document children => spellAll children
  | .node (.element name _ attributes) children =>
    writtenHead name attributes ++ (writtenEnd children.isEmpty ++
      if children.isEmpty then [] else spellAll children ++ ("</".toList ++ name.toText.toList ++ ['>']))
  | .node kind _ => (writeLeaf kind).toList

/-- Several trees as they are written without indentation. -/
def spellAll : List Tree → List Char
  | [] => []
  | tree :: rest => spell tree ++ spellAll rest

end

mutual

theorem toList_write {options : WriteOptions} (flat : options.indent = false) (level : Nat)
    (tree : Tree) : (write options level false [] tree).toList = spell tree := by
  match tree with
  | .node .document children => rw [write, spell, toList_writeAll flat]
  | .node (.element name uri attributes) children =>
    rw [write, spell]
    cases children with
    | nil =>
      simp [WriteOptions.margin, WriteOptions.lineEnd, declarationsOf, writtenHead, writtenEnd,
        List.flatMap_map]
    | cons child others =>
      have inner := toList_writeAll flat (level + 1) (child :: others)
      simp [WriteOptions.margin, WriteOptions.lineEnd, declarationsOf, writtenHead, writtenEnd,
        List.flatMap_map, flat, inner]
  | .node (.text content) children => rw [write, spell] <;> nofun
  | .node (.cdata content) children => rw [write, spell] <;> nofun
  | .node (.comment content) children =>
    simp [write, spell, WriteOptions.margin, WriteOptions.lineEnd]
  | .node (.instruction target data) children =>
    simp [write, spell, WriteOptions.margin, WriteOptions.lineEnd]
  | .node (.doctype name publicId systemId) children =>
    simp [write, spell, WriteOptions.lineEnd]

theorem toList_writeAll {options : WriteOptions} (flat : options.indent = false) (level : Nat)
    (trees : List Tree) : (writeAll options level false false trees).toList = spellAll trees := by
  match trees with
  | [] => simp [writeAll, spellAll]
  | tree :: rest =>
    simp [writeAll, spellAll, toList_write flat level tree, toList_writeAll flat level rest]

end

/-! ## Rounds of the loop -/

/-- Text in which no greater-than sign stands before the next piece of markup. -/
def Calm : List Char → Prop
  | [] => True
  | c :: rest => c = '<' ∨ c ≠ '>' ∧ Calm rest

theorem Calm.not_prefix {text : List Char} (calm : Calm text) : ¬ "]]>".toList <+: text := by
  rintro ⟨rest, rfl⟩
  simp [Calm] at calm

theorem calm_append {text tail : List Char} (plain : '>' ∉ text) (calm : Calm tail) :
    Calm (text ++ tail) := by
  induction text with
  | nil => exact calm
  | cons c rest ih =>
    rw [List.mem_cons, not_or] at plain
    exact .inr ⟨Ne.symm plain.1, ih plain.2⟩

namespace Pending

theorem add_add (pending : Pending) (first second : List Char) :
    (pending.add first).add second = pending.add (first ++ second) := by
  simp [add, Text.byteLength_append, Nat.add_assoc]

@[simp] theorem add_nil (pending : Pending) : pending.add [] = pending := by
  simp [add]

theorem length_add (pending : Pending) (text : List Char) :
    (pending.add text).length = pending.length + Text.byteLength text := rfl

theorem chars_add (pending : Pending) (text : List Char) :
    (pending.add text).chars = text.reverse ++ pending.chars := rfl

end Pending

namespace Reader

variable {r next : Reader} {cx : Context} {base : Level} {here : List Draft}
  {path : List OpenElement} {pending : Pending} {tail text : List Char} {c : Char}

theorem extend_eq_ok (options : ParseOptions)
    (room : pending.length + Text.byteLength text ≤ options.maxTextLength) :
    r.extend options pending text = .ok (pending.add text) := by
  rw [extend]
  simp [Pending.length_add, Nat.not_lt.mpr room]

/-- A character of text is kept with the text before it. -/
theorem content_char (spelled : r.rest = c :: tail) (amp : c ≠ '&') (lt : c ≠ '<')
    (calm : Calm r.rest) (read : r.char cx.options = .ok (c, next))
    (room : pending.length + c.utf8Size ≤ cx.options.maxTextLength) :
    content cx base r here path pending = content cx base next here path (pending.add [c]) := by
  have solid : r.startsWith "]]>" = false := by
    rw [← Bool.not_eq_true, startsWith_iff]
    exact calm.not_prefix
  have extended : next.extend cx.options pending [c] = .ok (pending.add [c]) :=
    extend_eq_ok _ (by simpa using room)
  rw [content.eq_def cx base r]
  split
  · simp_all
  · rename_i d rest known
    obtain ⟨rfl, -⟩ := List.cons.inj (spelled.symm.trans known)
    simp only [beq_iff_eq, amp, lt, ↓reduceIte, solid, Bool.false_eq_true]
    split
    · rename_i failed
      rw [read] at failed
      cases failed
    · rename_i again
      rw [read] at again
      cases again
      rw [extended]

/-- A reference to characters is kept with the text before it. -/
theorem content_reference (spelled : r.rest = '&' :: tail)
    (read : r.reference cx = .ok (.text text, next))
    (room : pending.length + Text.byteLength text ≤ cx.options.maxTextLength) :
    content cx base r here path pending = content cx base next here path (pending.add text) := by
  have extended : next.extend cx.options pending text = .ok (pending.add text) :=
    extend_eq_ok _ room
  rw [content.eq_def cx base r]
  split
  · simp_all
  · rename_i d rest known
    obtain ⟨rfl, -⟩ := List.cons.inj (spelled.symm.trans known)
    simp only [beq_iff_eq, Char.reduceEq, ↓reduceIte]
    split
    · rename_i failed
      rw [read] at failed
      cases failed
    · rename_i again
      rw [read] at again
      cases again
      rw [extended]
    · rename_i again
      rw [read] at again
      cases again

/-- What the loop does at a piece of markup. -/
theorem content_markup (spelled : r.rest = '<' :: tail) :
    content cx base r here path pending =
      if r.startsWith "</" then
        match path with
        | [] => .ok ((pending.flush cx.options here).reverse, r)
        | element :: path => r.endTag cx.options element.tag.name >>= fun next =>
          content cx base next (element.close (pending.flush cx.options here)) path .empty
      else r.item cx (base.inside path) >>= fun found =>
        match found.1 with
        | .leaf kind =>
          content cx base found.2 (.written kind [] :: pending.flush cx.options here) path .empty
        | .start tag =>
          content cx base found.2 [] (⟨tag, pending.flush cx.options here⟩ :: path) .empty := by
  rw [content.eq_def cx base r]
  split
  · simp_all
  · rename_i d rest known
    obtain ⟨rfl, -⟩ := List.cons.inj (spelled.symm.trans known)
    simp only [beq_self_eq_true, ↓reduceIte]
    split
    · cases path with
      | nil => rfl
      | cons element path =>
        dsimp only
        split
        · rename_i ended
          rw [ended]
          rfl
        · rename_i ended
          rw [ended]
          rfl
    · split
      · rename_i read
        rw [read]
        rfl
      · rename_i read
        rw [read]
        rfl
      · rename_i read
        rw [read]
        rfl

end Reader

end Markup.Xml
