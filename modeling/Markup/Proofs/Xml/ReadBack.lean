import Markup.Proofs.Xml.Chunk

/-!
# Reading back what was written

A tree is readable where a tag stands if its names, references to namespaces and characters pass
the checks of the parser there. Reading what is written for a readable tree yields the tree again,
up to text that is joined, line ends that are normalized and sections that are kept apart.
-/

namespace Markup.Xml

mutual

/-- Whether a tree that is written at some depth, in some scope, can be read. -/
def Readable (options : ParseOptions) (depth : Nat) (scope : Scope) : Tree → Prop
  | .node (.element name uri attributes) children =>
    depth < options.maxDepth ∧ IsTag options scope name uri attributes ∧
      ReadableAll options (depth + 1) (scope.declare attributes) children
  | .node (.text content) _ => IsLegal content.toList
  | .node (.cdata content) _ => IsLegal content.toList
  | .node (.comment content) _ => IsComment content.toList
  | .node (.instruction target data) _ =>
    IsTarget options target ∧ ∀ text ∈ data, IsData text.toList
  | .node .document _ => False
  | .node (.doctype ..) _ => False

/-- Whether trees that are written one after the other can be read. -/
def ReadableAll (options : ParseOptions) (depth : Nat) (scope : Scope) : List Tree → Prop
  | [] => True
  | tree :: rest => Readable options depth scope tree ∧ ReadableAll options depth scope rest

end

/-- What was read of some content: the nodes so far, latest first, and the text after them. -/
structure Progress where
  here : List Draft
  pending : Pending

namespace Progress

/-- Nothing read so far. -/
def start : Progress := ⟨[], .empty⟩

/-- The nodes read so far, latest first, that after them as a text node. -/
def flush (options : ParseOptions) (progress : Progress) : List Draft :=
  progress.pending.flush options progress.here

/-- What was read, followed by a node. -/
def push (options : ParseOptions) (progress : Progress) (draft : Draft) : Progress :=
  ⟨draft :: progress.flush options, .empty⟩

/-- What was read, followed by text. -/
def add (progress : Progress) (text : List Char) : Progress :=
  ⟨progress.here, progress.pending.add text⟩

mutual

/-- What was read after a tree was read that had been written. -/
def absorb (options : ParseOptions) (progress : Progress) : Tree → Progress
  | .node (.element name uri attributes) children =>
    progress.push options <| .written (.element name uri attributes)
      (absorbAll options start children |>.flush options).reverse
  | .node (.text content) _ => progress.add content.toList
  | .node (.cdata content) _ =>
    (sections content.toList).2.foldl
      (fun progress part =>
        progress.push options (.written (.cdata (String.ofList (lineEnds part))) []))
      (progress.push options
        (.written (.cdata (String.ofList (lineEnds (sections content.toList).1))) []))
  | .node (.comment content) _ =>
    progress.push options (.written (.comment (String.ofList (lineEnds content.toList))) [])
  | .node (.instruction target data) _ =>
    progress.push options (.written (.instruction target data) [])
  | .node _ _ => progress

/-- What was read after trees were read that had been written. -/
def absorbAll (options : ParseOptions) (progress : Progress) : List Tree → Progress
  | [] => progress
  | tree :: rest => absorbAll options (absorb options progress tree) rest

end

end Progress

namespace Reader

variable {r next : Reader} {cx : Context} {base level : Level} {tail text : List Char}

/-! ## Pieces of markup -/

theorem exists_item_comment (cx : Context) (level : Level) (within : IsComment text)
    (spelled : r.rest = "<!--".toList ++ text ++ "-->".toList ++ tail) :
    ∃ next, r.item cx level = .ok (.leaf (.comment (String.ofList (lineEnds text))), next) ∧
      next.rest = tail := by
  obtain ⟨next, read, ends⟩ := exists_comment cx.options within spelled
  refine ⟨next, ?_, ends⟩
  have notSection : r.startsWith "<![CDATA[" = false := by simp [startsWith, spelled, List.isPrefixOf]
  have begins : r.startsWith "<!--" = true := startsWith_iff.mpr (by simp [spelled])
  simp [item, notSection, begins, read, bind, Except.bind, pure, Except.pure]

theorem exists_item_section (cx : Context) (level : Level) (within : IsSection text)
    (spelled : r.rest = "<![CDATA[".toList ++ text ++ "]]>".toList ++ tail) :
    ∃ next, r.item cx level = .ok (.leaf (.cdata (String.ofList (lineEnds text))), next) ∧
      next.rest = tail := by
  obtain ⟨next, read, ends⟩ := exists_cdataSection cx.options within spelled
  refine ⟨next, ?_, ends⟩
  have begins : r.startsWith "<![CDATA[" = true := startsWith_iff.mpr (by simp [spelled])
  simp [item, begins, read, bind, Except.bind, pure, Except.pure]

/-- An instruction is read as it is written. -/
theorem exists_writtenInstruction {options : ParseOptions} {target : String} {data : Option String}
    (free : IsTarget options target) (within : ∀ text ∈ data, IsData text.toList)
    (spelled : r.rest = (writeLeaf (.instruction target data)).toList ++ tail) :
    r.startsWith "<!--" = false ∧ r.startsWith "<?" = true ∧
      ∃ next, r.instruction options = .ok ((target, data), next) ∧ next.rest = tail := by
  have begins : ∃ rest, r.rest = '<' :: '?' :: rest := by
    cases data <;> simp [writeLeaf, toString] at spelled <;> exact ⟨_, spelled⟩
  obtain ⟨rest, begins⟩ := begins
  refine ⟨by simp [startsWith, begins, List.isPrefixOf], startsWith_iff.mpr (by simp [begins]), ?_⟩
  cases data with
  | none => exact exists_instruction free (by simpa [writeLeaf, toString] using spelled)
  | some data =>
    have read := exists_instruction_data free (within data rfl)
      (show r.rest = "<?".toList ++ target.toList ++ ' ' :: data.toList ++ "?>".toList ++ tail by
        simpa [writeLeaf, toString] using spelled)
    rwa [String.ofList_toList] at read

theorem exists_item_instruction (level : Level) {target : String} {data : Option String}
    (free : IsTarget cx.options target) (within : ∀ text ∈ data, IsData text.toList)
    (spelled : r.rest = (writeLeaf (.instruction target data)).toList ++ tail) :
    ∃ next, r.item cx level = .ok (.leaf (.instruction target data), next) ∧ next.rest = tail := by
  obtain ⟨notComment, begins, next, read, ends⟩ := exists_writtenInstruction free within spelled
  refine ⟨next, ?_, ends⟩
  obtain ⟨rest, spelled'⟩ := startsWith_iff.mp begins
  have notSection : r.startsWith "<![CDATA[" = false := by
    simp [startsWith, ← spelled', List.isPrefixOf]
  simp [item, notSection, notComment, begins, read, bind, Except.bind, pure, Except.pure]

theorem exists_item_tag (closed : Bool) {name : QName} {uri : Option String}
    {attributes : List Attribute} (room : 4 ≤ cx.options.maxNameLength)
    (shallow : level.depth < cx.options.maxDepth)
    (isTag : IsTag cx.options level.scope name uri attributes)
    (spelled : r.rest = writtenHead name attributes ++ (writtenEnd closed ++ tail)) :
    r.startsWith "</" = false ∧ ∃ next, next.rest = tail ∧
      r.item cx level = .ok (if closed then .leaf (.element name uri attributes)
        else .start ⟨name, uri, attributes, level.scope.declare attributes, false⟩, next) := by
  obtain ⟨next, read, ends⟩ := exists_startTag closed room shallow isTag spelled
  obtain ⟨c, letters, named, start⟩ := isTag.named.exists_cons
  have other := ne_of_isNameStart start
  rw [writtenHead, named] at spelled
  have notEnd : r.startsWith "</" = false := by
    simp [startsWith, spelled, List.isPrefixOf, (other '/' (by decide)).symm]
  have notSection : r.startsWith "<![CDATA[" = false := by
    simp [startsWith, spelled, List.isPrefixOf, (other '!' (by decide)).symm]
  have notComment : r.startsWith "<!--" = false := by
    simp [startsWith, spelled, List.isPrefixOf, (other '!' (by decide)).symm]
  have notInstruction : r.startsWith "<?" = false := by
    simp [startsWith, spelled, List.isPrefixOf, (other '?' (by decide)).symm]
  refine ⟨notEnd, next, ends, ?_⟩
  cases closed
  all_goals
    simp [item, notSection, notComment, notInstruction, read, StartTag.kind, bind, Except.bind, pure,
      Except.pure]

/-! ## Content as it is written -/

/-- What comes of the rest of some content after what was read of it. -/
def goOn (cx : Context) (base : Level) (path : List OpenElement) (r : Reader)
    (progress : Progress) : Except ParseFailure (List Draft × Reader) :=
  content cx base r progress.here path progress.pending

variable {path : List OpenElement} {progress : Progress}

theorem goOn_text (room : 4 ≤ cx.options.maxNameLength) (legal : IsLegal text) (calm : Calm tail)
    (fits : progress.pending.length + Text.byteLength text ≤ cx.options.maxTextLength)
    (spelled : r.rest = text.flatMap escapeTextChar ++ tail) :
    ∃ next, next.rest = tail ∧
      goOn cx base path r progress = goOn cx base path next (progress.add text) := by
  induction text generalizing r progress with
  | nil => exact ⟨r, spelled, by simp [Progress.add]⟩
  | cons c text ih =>
    rw [isLegal_cons] at legal
    rw [Text.byteLength_cons] at fits
    rw [List.flatMap_cons, List.append_assoc] at spelled
    have joined : (progress.add [c]).add text = progress.add (c :: text) := by
      simp [Progress.add, Pending.add_add]
    have step : ∃ next, next.rest = text.flatMap escapeTextChar ++ tail ∧
        goOn cx base path r progress = goOn cx base path next (progress.add [c]) := by
      rcases escapeTextChar_cases room legal.1 with refers | ⟨same, amp, lt, gt, cr⟩
      · obtain ⟨next, read, rest⟩ := refers.read spelled
        obtain ⟨letters, marked⟩ := List.head?_eq_some_iff.mp refers.marked
        rw [marked] at spelled
        exact ⟨next, rest, content_reference spelled read (by simp; omega)⟩
      · have plain : '>' ∉ c :: text.flatMap escapeTextChar := by
          rw [List.mem_cons, not_or, List.mem_flatMap]
          refine ⟨Ne.symm gt, ?_⟩
          rintro ⟨d, listed, within⟩
          exact not_mem_escapeTextChar (legal.2 d listed) within
        rw [same] at spelled
        have calm' : Calm r.rest := by
          rw [spelled]
          exact (calm_append plain calm :)
        refine ⟨r.skip 1, by simp [spelled], ?_⟩
        exact content_char spelled amp lt calm' (char_eq_ok spelled legal.1 cr) (by omega)
    obtain ⟨next, rest, first⟩ := step
    obtain ⟨last, ends, others⟩ := ih legal.2
      (show (progress.add [c]).pending.length + Text.byteLength text ≤ _ by
        simp only [Progress.add, Pending.length_add, Text.byteLength_cons, Text.byteLength_nil]
        omega) rest
    exact ⟨last, ends, by rw [first, others, joined]⟩

theorem goOn_leaf {kind : NodeKind} {c : Char} (spelled : r.rest = '<' :: c :: tail)
    (other : c ≠ '/') (read : r.item cx (base.inside path) = .ok (.leaf kind, next)) :
    goOn cx base path r progress =
      goOn cx base path next (progress.push cx.options (.written kind [])) := by
  have notEnd : r.startsWith "</" = false := by
    simp [startsWith, spelled, List.isPrefixOf, Ne.symm other]
  rw [goOn, content_markup spelled, notEnd, read]
  rfl

theorem goOn_sections {part : List Char} {others : List (List Char)} (within : IsSection part)
    (all : ∀ part ∈ others, IsSection part)
    (spelled : r.rest = "<![CDATA[".toList ++ (part ++ others.flatMap (sectionBreak.toList ++ ·)) ++
      "]]>".toList ++ tail) :
    ∃ next, next.rest = tail ∧ goOn cx base path r progress =
      goOn cx base path next (others.foldl
        (fun progress part =>
          progress.push cx.options (.written (.cdata (String.ofList (lineEnds part))) []))
        (progress.push cx.options (.written (.cdata (String.ofList (lineEnds part))) []))) := by
  induction others generalizing r part progress with
  | nil =>
    obtain ⟨next, read, ends⟩ := exists_item_section cx (base.inside path) within
      (show r.rest = "<![CDATA[".toList ++ part ++ "]]>".toList ++ tail by simpa using spelled)
    exact ⟨next, ends, goOn_leaf spelled (by decide) read⟩
  | cons second others ih =>
    obtain ⟨next, read, rest⟩ := exists_item_section cx (base.inside path) within
      (show r.rest = "<![CDATA[".toList ++ part ++ "]]>".toList ++ ("<![CDATA[".toList ++
        (second ++ others.flatMap (sectionBreak.toList ++ ·)) ++ "]]>".toList ++ tail) by
          simpa [sectionBreak] using spelled)
    obtain ⟨last, ends, more⟩ := ih (all second List.mem_cons_self)
      (fun part later => all part (List.mem_cons_of_mem _ later)) rest
    exact ⟨last, ends, (goOn_leaf spelled (by decide) read).trans more⟩

theorem goOn_empty {name : QName} {uri : Option String} {attributes : List Attribute}
    (room : 4 ≤ cx.options.maxNameLength) (shallow : (base.inside path).depth < cx.options.maxDepth)
    (isTag : IsTag cx.options (base.inside path).scope name uri attributes)
    (spelled : r.rest = writtenHead name attributes ++ (writtenEnd true ++ tail)) :
    ∃ next, next.rest = tail ∧ goOn cx base path r progress =
      goOn cx base path next
        (progress.push cx.options (.written (.element name uri attributes) [])) := by
  obtain ⟨notEnd, next, ends, read⟩ := exists_item_tag true room shallow isTag spelled
  refine ⟨next, ends, ?_⟩
  rw [goOn, content_markup spelled, notEnd, read]
  rfl

/-- An element that is opened is read by itself, what comes before it is set aside. -/
theorem goOn_open {name : QName} {uri : Option String} {attributes : List Attribute}
    (room : 4 ≤ cx.options.maxNameLength) (shallow : (base.inside path).depth < cx.options.maxDepth)
    (isTag : IsTag cx.options (base.inside path).scope name uri attributes)
    (spelled : r.rest = writtenHead name attributes ++ (writtenEnd false ++ tail)) :
    ∃ next, next.rest = tail ∧ goOn cx base path r progress =
      goOn cx base
        (⟨⟨name, uri, attributes, (base.inside path).scope.declare attributes, false⟩,
          progress.flush cx.options⟩ :: path) next .start := by
  obtain ⟨notEnd, next, ends, read⟩ := exists_item_tag false room shallow isTag spelled
  refine ⟨next, ends, ?_⟩
  rw [goOn, content_markup spelled, notEnd, read]
  rfl

/-- At its end tag an element joins what comes before it. -/
theorem goOn_close {element : OpenElement} (named : IsName cx.options element.tag.name.toText)
    (spelled : r.rest = "</".toList ++ element.tag.name.toText.toList ++ '>' :: tail) :
    ∃ next, next.rest = tail ∧ goOn cx base (element :: path) r progress =
      goOn cx base path next ⟨element.close (progress.flush cx.options), .empty⟩ := by
  obtain ⟨next, closed, ends⟩ := exists_endTag named spelled
  have begins : r.startsWith "</" = true := startsWith_iff.mpr (by simp [spelled])
  refine ⟨next, ends, ?_⟩
  rw [goOn, content_markup spelled, begins]
  simp only [↓reduceIte, closed, bind, Except.bind]
  rfl

/-! ## Trees as they are written -/

theorem byteLength_flatMap_escapeTextChar (legal : IsLegal text) :
    Text.byteLength text ≤ Text.byteLength (text.flatMap escapeTextChar) := by
  induction text with
  | nil => simp
  | cons c text ih =>
    rw [isLegal_cons] at legal
    rw [List.flatMap_cons, Text.byteLength_append, Text.byteLength_cons]
    exact Nat.add_le_add (utf8Size_escapeTextChar legal.1) (ih legal.2)

theorem spell_element (name : QName) (uri : Option String) (attributes : List Attribute)
    (child : Tree) (others : List Tree) :
    spell (.node (.element name uri attributes) (child :: others)) =
      writtenHead name attributes ++ (writtenEnd false ++ (spellAll (child :: others) ++
        ("</".toList ++ name.toText.toList ++ ['>']))) := by
  rw [spell]
  rfl

/-- A CDATA node is spelled in sections. -/
theorem spell_cdata (content : String) (children : List Tree) :
    spell (.node (.cdata content) children) = "<![CDATA[".toList ++ ((sections content.toList).1 ++
      (sections content.toList).2.flatMap (sectionBreak.toList ++ ·)) ++ "]]>".toList := by
  rw [← splitSections_eq, spell]
  · simp [writeLeaf, toString]
  all_goals simp

/-- Text before the next piece of markup stays within a limit that holds for all of the text. -/
def Fits (options : ParseOptions) (progress : Progress) (rest : List Char) : Prop :=
  progress.pending.length + Text.byteLength rest ≤ options.maxTextLength

theorem Fits.of_empty {options : ParseOptions} {later : Progress}
    (fits : Fits options progress (text ++ tail)) (empty : later.pending = .empty) :
    Fits options later tail := by
  rw [Fits, Text.byteLength_append] at fits
  have nothing : later.pending.length = 0 := by rw [empty]; rfl
  rw [Fits, nothing]
  omega

theorem pending_sections (options : ParseOptions) (parts : List (List Char))
    (empty : progress.pending = .empty) :
    (parts.foldl (fun progress part =>
      progress.push options (.written (.cdata (String.ofList (lineEnds part))) []))
      progress).pending = .empty := by
  induction parts generalizing progress with
  | nil => exact empty
  | cons part parts ih => exact ih rfl

/-- After a tree was read, what is left still fits. -/
theorem Fits.absorb {options : ParseOptions} {depth : Nat} {scope : Scope} {tree : Tree}
    (readable : Readable options depth scope tree)
    (fits : Fits options progress (spell tree ++ tail)) :
    Fits options (progress.absorb options tree) tail := by
  obtain ⟨kind, children⟩ := tree
  cases kind with
  | document => exact readable.elim
  | doctype => exact readable.elim
  | text content =>
    have longer := byteLength_flatMap_escapeTextChar (show IsLegal content.toList from readable)
    rw [Fits, spell, Text.byteLength_append] at fits
    · simp only [writeLeaf, escapeText, String.toList_ofList] at fits
      simp only [Fits, Progress.absorb, Progress.add, Pending.length_add]
      omega
    all_goals simp
  | cdata content =>
    apply fits.of_empty
    rw [Progress.absorb]
    exact pending_sections options _ rfl
  | comment content =>
    apply fits.of_empty
    rw [Progress.absorb]
    rfl
  | instruction target data =>
    apply fits.of_empty
    rw [Progress.absorb]
    rfl
  | element name uri attributes =>
    apply fits.of_empty
    rw [Progress.absorb]
    rfl

theorem calm_spell {options : ParseOptions} {depth : Nat} {scope : Scope} {tree : Tree}
    (readable : Readable options depth scope tree) (calm : Calm tail) :
    Calm (spell tree ++ tail) := by
  obtain ⟨kind, children⟩ := tree
  cases kind with
  | document => exact readable.elim
  | doctype => exact readable.elim
  | text content =>
    rw [spell, writeLeaf, escapeText, String.toList_ofList]
    · refine calm_append ?_ calm
      rw [List.mem_flatMap]
      rintro ⟨c, listed, within⟩
      exact not_mem_escapeTextChar (readable c listed) within
    all_goals simp
  | cdata content => simp [spell, writeLeaf, toString, Calm]
  | comment content => simp [spell, writeLeaf, toString, Calm]
  | instruction target data => cases data <;> simp [spell, writeLeaf, toString, Calm]
  | element name uri attributes => simp [spell, writtenHead, Calm]

theorem calm_spellAll {options : ParseOptions} {depth : Nat} {scope : Scope} {trees : List Tree}
    (readable : ReadableAll options depth scope trees) (calm : Calm tail) :
    Calm (spellAll trees ++ tail) := by
  induction trees with
  | nil => exact calm
  | cons tree others ih =>
    rw [spellAll, List.append_assoc]
    exact calm_spell readable.1 (ih readable.2)

mutual

/-- A readable tree is read back from what is written for it. -/
theorem goOn_tree (room : 4 ≤ cx.options.maxNameLength) (tree : Tree) {r : Reader}
    {tail : List Char} {path : List OpenElement} {progress : Progress}
    (readable : Readable cx.options (base.inside path).depth (base.inside path).scope tree)
    (calm : Calm tail) (fits : Fits cx.options progress (spell tree ++ tail))
    (spelled : r.rest = spell tree ++ tail) :
    ∃ next, next.rest = tail ∧
      goOn cx base path r progress = goOn cx base path next (progress.absorb cx.options tree) := by
  obtain ⟨kind, children⟩ := tree
  cases kind with
  | document => exact readable.elim
  | doctype => exact readable.elim
  | text content =>
    have short := byteLength_flatMap_escapeTextChar (show IsLegal content.toList from readable)
    rw [spell, writeLeaf, escapeText, String.toList_ofList] at spelled fits
    · rw [Fits, Text.byteLength_append] at fits
      exact goOn_text room readable calm (by omega) spelled
    all_goals simp
  | cdata content =>
    obtain ⟨first, others⟩ := isSection_sections (show IsLegal content.toList from readable)
    rw [spell_cdata] at spelled
    obtain ⟨next, ends, read⟩ := goOn_sections first others spelled
    exact ⟨next, ends, by rw [Progress.absorb]; exact read⟩
  | comment content =>
    rw [spell] at spelled
    · have spelled' : r.rest = "<!--".toList ++ content.toList ++ "-->".toList ++ tail := by
        simpa [writeLeaf, toString] using spelled
      obtain ⟨next, read, ends⟩ := exists_item_comment cx (base.inside path) readable spelled'
      exact ⟨next, ends, goOn_leaf spelled' (by decide) read⟩
    all_goals simp
  | instruction target data =>
    rw [spell] at spelled
    · obtain ⟨next, read, ends⟩ :=
        exists_item_instruction (base.inside path) readable.1 readable.2 spelled
      obtain ⟨rest, marked⟩ : ∃ rest, r.rest = '<' :: '?' :: rest := by
        cases data <;> simp [writeLeaf, toString] at spelled <;> exact ⟨_, spelled⟩
      exact ⟨next, ends, goOn_leaf marked (by decide) read⟩
    all_goals simp
  | element name uri attributes =>
    cases children with
    | nil =>
      obtain ⟨shallow, isTag, -⟩ := readable
      have spelled' : r.rest = writtenHead name attributes ++ (writtenEnd true ++ tail) := by
        simpa [spell] using spelled
      exact goOn_empty room shallow isTag spelled'
    | cons child others =>
      obtain ⟨shallow, isTag, inside⟩ := readable
      rw [spell_element] at spelled fits
      have spelled' : r.rest = writtenHead name attributes ++ (writtenEnd false ++
          (spellAll (child :: others) ++ ("</".toList ++ name.toText.toList ++ '>' :: tail))) := by
        simpa using spelled
      have fits' : Fits cx.options .start
          (spellAll (child :: others) ++ ("</".toList ++ name.toText.toList ++ '>' :: tail)) := by
        simp only [Fits, Text.byteLength_append, Text.byteLength_cons, Text.byteLength_nil] at fits ⊢
        have nothing : Progress.start.pending.length = 0 := rfl
        omega
      let element : OpenElement :=
        ⟨⟨name, uri, attributes, (base.inside path).scope.declare attributes, false⟩,
          progress.flush cx.options⟩
      have within : ReadableAll cx.options (base.inside (element :: path)).depth
          (base.inside (element :: path)).scope (child :: others) := inside
      obtain ⟨first, rest, opened⟩ := goOn_open room shallow isTag spelled'
      obtain ⟨second, rest', read⟩ :=
        goOn_trees room (child :: others) within (by simp [Calm]) fits' rest
      have named : IsName cx.options element.tag.name.toText := isTag.named
      obtain ⟨last, ends, closed⟩ := goOn_close named rest'
      refine ⟨last, ends, ?_⟩
      calc goOn cx base path r progress
          = goOn cx base (element :: path) first .start := opened
        _ = goOn cx base (element :: path) second
              (Progress.start.absorbAll cx.options (child :: others)) := read
        _ = goOn cx base path last (progress.absorb cx.options
              (.node (.element name uri attributes) (child :: others))) := closed

/-- Readable trees are read back from what is written for them. -/
theorem goOn_trees (room : 4 ≤ cx.options.maxNameLength) (trees : List Tree) {r : Reader}
    {tail : List Char} {path : List OpenElement} {progress : Progress}
    (readable : ReadableAll cx.options (base.inside path).depth (base.inside path).scope trees)
    (calm : Calm tail) (fits : Fits cx.options progress (spellAll trees ++ tail))
    (spelled : r.rest = spellAll trees ++ tail) :
    ∃ next, next.rest = tail ∧ goOn cx base path r progress =
      goOn cx base path next (progress.absorbAll cx.options trees) := by
  cases trees with
  | nil => exact ⟨r, by simpa [spellAll] using spelled, rfl⟩
  | cons tree others =>
    rw [spellAll, List.append_assoc] at spelled fits
    obtain ⟨middle, rest, first⟩ := goOn_tree room tree readable.1
      (calm_spellAll readable.2 calm) fits spelled
    obtain ⟨last, ends, more⟩ := goOn_trees room others readable.2 calm
      (fits.absorb readable.1) rest
    exact ⟨last, ends, first.trans more⟩

end

end Reader
end Markup.Xml
