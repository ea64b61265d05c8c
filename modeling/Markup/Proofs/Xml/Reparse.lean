import Markup.Proofs.Xml.ReadBack
import Markup.Xml.Parser

/-!
# Parsing what was written for an element

The text that is written for an element is a document of its own. The parser accepts it, and the
root element that it yields is the element as it is read back.
-/

namespace Markup.Xml

/-- What the parser makes of the text that is written for an element. -/
def readBack (options : ParseOptions) (tree : Tree) : Tree :=
  .node tree.kind
    (Draft.toTrees ((Progress.start.absorbAll options tree.children).flush options).reverse)

namespace Reader

variable {r next : Reader} {cx : Context} {tail text : List Char} {name : QName}
  {uri : Option String} {attributes : List Attribute} {children : List Tree}

/-- An element is read as the root element if what stands between its tags is read up to its end
tag. -/
theorem exists_rootElement_of_goOn (cx : Context) (room : 4 ≤ cx.options.maxNameLength)
    (shallow : 0 < cx.options.maxDepth) (isTag : IsTag cx.options .initial name uri attributes)
    {progress : Progress}
    (inside : ∀ first : Reader,
      first.rest = text ++ ("</".toList ++ name.toText.toList ++ '>' :: tail) →
      ∃ second, second.rest = "</".toList ++ name.toText.toList ++ '>' :: tail ∧
        goOn cx ⟨1, Scope.initial.declare attributes⟩ [] first .start =
          goOn cx ⟨1, Scope.initial.declare attributes⟩ [] second progress)
    (spelled : r.rest = writtenHead name attributes ++ (writtenEnd false ++
      (text ++ ("</".toList ++ name.toText.toList ++ '>' :: tail)))) :
    ∃ next, r.rootElement cx = .ok (.written (.element name uri attributes)
      (progress.flush cx.options).reverse, next) ∧ next.rest = tail := by
  obtain ⟨first, read, rest⟩ := exists_startTag false room shallow isTag spelled
  obtain ⟨second, rest', more⟩ := inside first rest
  have begins : second.startsWith "</" = true := startsWith_iff.mpr (by simp [rest'])
  obtain ⟨last, closed, ends⟩ := exists_endTag isTag.named rest'
  have stopped : content cx ⟨1, Scope.initial.declare attributes⟩ first [] [] .empty =
      .ok ((progress.flush cx.options).reverse, second) := by
    refine more.trans ?_
    rw [goOn, content_markup rest', begins]
    rfl
  have going : second.atEnd = false := by simp [atEnd, rest']
  refine ⟨last, ?_, ends⟩
  simp [rootElement, read, stopped, going, closed, StartTag.kind, bind, Except.bind, pure,
    Except.pure]

/-- The root element is read back from what is written for it. -/
theorem exists_rootElement (cx : Context) (room : 4 ≤ cx.options.maxNameLength)
    (readable : Readable cx.options 0 .initial (.node (.element name uri attributes) children))
    (fits : Text.byteLength r.rest ≤ cx.options.maxTextLength)
    (spelled : r.rest = spell (.node (.element name uri attributes) children) ++ tail) :
    ∃ next, r.rootElement cx = .ok (.written (.element name uri attributes)
      ((Progress.start.absorbAll cx.options children).flush cx.options).reverse, next) ∧
        next.rest = tail := by
  obtain ⟨shallow, isTag, inside⟩ := readable
  cases children with
  | nil =>
    have spelled' : r.rest = writtenHead name attributes ++ (writtenEnd true ++ tail) := by
      simpa [spell] using spelled
    obtain ⟨next, read, ends⟩ := exists_startTag true room shallow isTag spelled'
    refine ⟨next, ?_, ends⟩
    simp only [rootElement, read, bind, Except.bind]
    rfl
  | cons child others =>
    have spelled' : r.rest = writtenHead name attributes ++ (writtenEnd false ++
        (spellAll (child :: others) ++ ("</".toList ++ name.toText.toList ++ '>' :: tail))) := by
      rw [spelled, spell_element]
      simp
    refine exists_rootElement_of_goOn cx room shallow isTag (fun first rest => ?_) spelled'
    have within : ReadableAll cx.options (Level.inside ⟨1, Scope.initial.declare attributes⟩ []).depth
        (Level.inside ⟨1, Scope.initial.declare attributes⟩ []).scope (child :: others) := inside
    have fits' : Fits cx.options .start
        (spellAll (child :: others) ++ ("</".toList ++ name.toText.toList ++ '>' :: tail)) := by
      rw [spelled'] at fits
      simp only [Text.byteLength_append] at fits
      simp only [Fits, Text.byteLength_append]
      have nothing : Progress.start.pending.length = 0 := rfl
      omega
    exact goOn_trees room (child :: others) within (by simp [Calm]) fits' rest

theorem misc_eq_ok {options : ParseOptions} {before : List Draft}
    (comment : r.skipBlanks.startsWith "<!--" = false)
    (instruction : r.skipBlanks.startsWith "<?" = false) :
    misc options r before = .ok (before, r.skipBlanks) := by
  rw [misc]
  simp [comment, instruction]

end Reader

open Reader

/-- A text is parsed if each part of it is read where the one before it ended. -/
theorem parse_eq_ok_iff {options : ParseOptions} {text : String} {draft : DocumentDraft} :
    parse options text = .ok draft ↔
      ∃ declaration r₁ early r₂ middle table r₃ root r₄ late r₅ last,
        (ofText text).head = .ok (declaration, r₁) ∧
        misc options r₁ [] = .ok (early, r₂) ∧
        r₂.typeDeclaration options early = .ok ((middle, table), r₃) ∧
        r₃.atEnd = false ∧ r₃.sees '<' = true ∧
        r₃.rootElement ⟨options, table, []⟩ = .ok (root, r₄) ∧
        misc options r₄ (root :: middle) = .ok (late, r₅) ∧
        (if r₅.atEnd then .ok r₅ else r₅.report options .contentAfterRoot) = .ok last ∧
        draft = ⟨declaration.map (·.version), declaration.bind (·.encoding),
          declaration.bind (·.standalone), last.diagnostics, late.reverse⟩ := by
  constructor
  · intro h
    obtain ⟨⟨declaration, r₁⟩, headed, h⟩ := bind_eq_ok.mp h
    obtain ⟨⟨early, r₂⟩, first, h⟩ := bind_eq_ok.mp h
    obtain ⟨⟨⟨middle, table⟩, r₃⟩, type, h⟩ := bind_eq_ok.mp h
    dsimp only at h
    split at h
    · exact absurd h not_fail
    · rename_i more
      split at h
      · exact absurd h not_fail
      · rename_i begins
        obtain ⟨⟨root, r₄⟩, element, h⟩ := bind_eq_ok.mp h
        obtain ⟨⟨late, r₅⟩, second, h⟩ := bind_eq_ok.mp h
        have ended : ∃ last, (if r₅.atEnd then .ok r₅ else r₅.report options .contentAfterRoot) =
            .ok last ∧ draft = ⟨declaration.map (·.version), declaration.bind (·.encoding),
              declaration.bind (·.standalone), last.diagnostics, late.reverse⟩ := by
          dsimp only at h
          split at h
          · rename_i done
            cases h
            exact ⟨r₅, by rw [if_pos done], rfl⟩
          · rename_i done
            obtain ⟨last, reported, h⟩ := bind_eq_ok.mp h
            cases h
            exact ⟨last, by rw [if_neg done, reported], rfl⟩
        obtain ⟨last, finished, rfl⟩ := ended
        exact ⟨declaration, r₁, early, r₂, middle, table, r₃, root, r₄, late, r₅, last, headed,
          first, type, by simpa using more, by simpa using begins, element, second, finished, rfl⟩
  · rintro ⟨declaration, r₁, early, r₂, middle, table, r₃, root, r₄, late, r₅, last, headed, first,
      type, more, begins, element, second, finished, rfl⟩
    refine bind_eq_ok.mpr ⟨_, headed, bind_eq_ok.mpr ⟨_, first, bind_eq_ok.mpr ⟨_, type, ?_⟩⟩⟩
    dsimp only
    rw [if_neg (by simp [more]), if_neg (by simp [begins])]
    refine bind_eq_ok.mpr ⟨_, element, bind_eq_ok.mpr ⟨_, second, ?_⟩⟩
    dsimp only
    split at finished
    · rename_i done
      cases finished
      rw [if_pos done]
      rfl
    · rename_i done
      rw [if_neg done]
      exact bind_eq_ok.mpr ⟨_, finished, rfl⟩

/-- Before the start tag of an element, nothing else is read. -/
theorem startsWith_element {r : Reader} {c : Char} {rest : List Char}
    (start : isNameStart c = true) (spelled : r.rest = '<' :: c :: rest) :
    r.startsWith "<?xml" = false ∧ r.startsWith "<!--" = false ∧ r.startsWith "<?" = false ∧
      r.startsWith "<!DOCTYPE" = false := by
  have other := ne_of_isNameStart start
  simp [startsWith, spelled, List.isPrefixOf, (other '?' (by decide)).symm,
    (other '!' (by decide)).symm]

/-- Before a tag there are no blanks to pass over. -/
theorem rest_beforeRoot {text : String} {rest : List Char} (begins : text.toList = '<' :: rest) :
    (ofText text).skipBlanks.skipBlanks.rest = text.toList := by
  have solid : (ofText text).skipBlanks.rest = text.toList :=
    rest_skipBlanks_cons (show (ofText text).rest = _ from begins) (by decide)
  exact (rest_skipBlanks_cons (solid.trans begins) (by decide)).trans solid

/-- A text that begins with a start tag is parsed from its root element on. -/
theorem parse_eq {options : ParseOptions} {text : String} {c : Char} {rest : List Char}
    (start : isNameStart c = true) (begins : text.toList = '<' :: c :: rest) :
    parse options text =
      ((ofText text).skipBlanks.skipBlanks.rootElement ⟨options, .empty, []⟩ >>= fun root =>
        misc options root.2 [root.1] >>= fun nodes =>
          if nodes.2.atEnd then pure ⟨none, none, none, nodes.2.diagnostics, nodes.1.reverse⟩
          else nodes.2.report options .contentAfterRoot >>= fun last =>
            pure ⟨none, none, none, last.diagnostics, nodes.1.reverse⟩) := by
  have whole : (ofText text).rest = '<' :: c :: rest := begins
  have solid := (rest_skipBlanks_cons whole (by decide)).trans whole
  have solid' := (rest_skipBlanks_cons solid (by decide)).trans solid
  have first := startsWith_element start whole
  have second := startsWith_element start solid'
  have headed : (ofText text).head = .ok (none, (ofText text).skipBlanks) := by
    simp [head, seesDeclaration, seesBlank, whole, first.1, Text.isMarkupBlank]
  have untyped : (ofText text).skipBlanks.skipBlanks.typeDeclaration options [] =
      .ok (([], .empty), (ofText text).skipBlanks.skipBlanks) := by
    simp [typeDeclaration, second.2.2.2]
  have more : (ofText text).skipBlanks.skipBlanks.atEnd = false := by simp [atEnd, solid']
  have sees : (ofText text).skipBlanks.skipBlanks.sees '<' = true := by simp [Reader.sees, solid']
  simp only [parse, headed, misc_eq_ok second.2.1 second.2.2.1, untyped, more, sees, bind,
    Except.bind]
  rfl

/-- A text that is one element and nothing else is a document. -/
theorem parse_eq_ok {options : ParseOptions} {text : String} {c : Char} {rest : List Char}
    {root : Draft} {last : Reader} (start : isNameStart c = true)
    (begins : text.toList = '<' :: c :: rest)
    (read : (ofText text).skipBlanks.skipBlanks.rootElement ⟨options, .empty, []⟩ =
      .ok (root, last)) (ends : last.rest = []) :
    parse options text = .ok ⟨none, none, none, last.skipBlanks.diagnostics, [root]⟩ := by
  have done : last.skipBlanks.rest = [] := by rw [skipBlanks_rest, ends]; rfl
  have after : misc options last [root] = .ok ([root], last.skipBlanks) :=
    misc_eq_ok (by simp [startsWith, done]) (by simp [startsWith, done])
  have finished : last.skipBlanks.atEnd = true := by simp [atEnd, done]
  simp [parse_eq start begins, read, after, finished, bind, Except.bind, pure, Except.pure]

/-- What is written for a readable element begins with its name. -/
theorem exists_cons_of_readable {options : ParseOptions} {depth : Nat} {scope : Scope} {tree : Tree}
    (isElement : tree.kind.isElement = true) (readable : Readable options depth scope tree) :
    ∃ c rest, spell tree = '<' :: c :: rest ∧ isNameStart c = true := by
  obtain ⟨kind, children⟩ := tree
  cases kind with
  | element name uri attributes =>
    obtain ⟨c, letters, named, start⟩ := readable.2.1.named.exists_cons
    exact ⟨c, _, by rw [spell, writtenHead, named]; rfl, start⟩
  | _ => cases isElement

/-- The parser accepts the text that is written for a readable element. -/
theorem exists_parse {options : ParseOptions} {text : String} {tree : Tree}
    (room : 4 ≤ options.maxNameLength) (isElement : tree.kind.isElement = true)
    (readable : Readable options 0 .initial tree) (spelled : text.toList = spell tree)
    (fits : Text.byteLength text.toList ≤ options.maxTextLength) :
    ∃ draft, parse options text = .ok draft ∧
      Draft.toTrees draft.nodes = [readBack options tree] := by
  obtain ⟨c, rest, begins, start⟩ := exists_cons_of_readable isElement readable
  have solid := rest_beforeRoot (spelled.trans begins)
  obtain ⟨kind, children⟩ := tree
  cases kind with
  | element name uri attributes =>
    obtain ⟨last, read, ends⟩ := exists_rootElement ⟨options, .empty, []⟩ room readable
      (show Text.byteLength (ofText text).skipBlanks.skipBlanks.rest ≤ _ by rw [solid]; exact fits)
      (by rw [solid, spelled, List.append_nil])
    exact ⟨_, parse_eq_ok start (spelled.trans begins) read ends, rfl⟩
  | _ => cases isElement

end Markup.Xml
