import Mathlib
import Markup.Document.Writer
import Markup.Proofs.Html.Escapes
import Markup.Proofs.Html.Structure
import Markup.Proofs.Xml.Tag

/-!
# Paragraphs that are read leniently

A paragraph with an attribute and a text is written and read as HTML. Only the document around it is
another one: what the attribute and the text hold comes back unchanged, whatever characters there
are. Where the paragraph is in a default namespace, this is declared in its tag, and the declaration
is read as one more attribute.
-/

namespace Markup.Html

open Document
open Xml (writeAttribute writtenHead writtenEnd declarationsOf escapeTextChar escapeAttributeChar)

variable {cursor : Cursor} {attr : Attribute} {attributes before : List Attribute}
  {tail : List Char}

namespace Cursor

/-! ## Tags -/

/-- A name that is read as it stands where a lenient tag has an attribute. -/
structure IsWord (name : String) : Prop where
  nonempty : name.toList ≠ []
  member : ∀ c ∈ name.toList, isAttributeChar c = true
  lower : Text.lowerAscii name.toList = name.toList

/-- What an attribute is read as after earlier ones, latest first. Of those of one name only the
first is read. -/
def readAfter (before : List Attribute) (attr : Attribute) : List Attribute :=
  if before.any (·.name.toText == attr.name.toText) then before
  else ⟨splitName attr.name.toText, none, attr.value⟩ :: before

theorem skipBlanks_of_solid {c : Char} (spelled : cursor.rest = c :: tail)
    (solid : Text.isMarkupBlank c = false) : cursor.skipBlanks.rest = c :: tail := by
  rw [skipBlanks, skipWhile, leading, rest_skip, spelled,
    List.takeWhile_cons_of_neg (by simp [solid])]
  rfl

theorem skipBlanks_of_blank {c : Char} (spelled : cursor.rest = ' ' :: c :: tail)
    (solid : Text.isMarkupBlank c = false) : cursor.skipBlanks.rest = c :: tail := by
  rw [skipBlanks, skipWhile, leading, rest_skip, spelled, List.takeWhile_cons_of_pos (by decide),
    List.takeWhile_cons_of_neg (by simp [solid])]
  rfl

theorem exists_attributeValue {value : String}
    (spelled : cursor.rest = '"' :: (value.toList.flatMap escapeAttributeChar ++ '"' :: tail)) :
    ∃ next, cursor.attributeValue = (value, next) ∧ next.rest = tail := by
  have inner : (cursor.skip 1).rest = value.toList.flatMap escapeAttributeChar ++ '"' :: tail := by
    rw [rest_skip, spelled]
    rfl
  obtain ⟨next, read, rest⟩ := exists_textUpTo survives_attribute rfl value inner
  refine ⟨next.skip 1, ?_, by rw [rest_skip, rest]; rfl⟩
  unfold attributeValue
  split
  · simp_all
  · rename_i quote more shape
    obtain ⟨rfl, -⟩ := List.cons.inj (shape.symm.trans spelled)
    rw [if_pos (by decide)]
    exact congrArg (fun found : String × Cursor => (found.1, found.2.skip 1)) read

theorem exists_oneAttribute (word : IsWord attr.name.toText) (before : List Attribute)
    (spelled : cursor.rest = attr.name.toText.toList ++
      '=' :: '"' :: (attr.value.toList.flatMap escapeAttributeChar ++ '"' :: tail)) :
    ∃ next, cursor.oneAttribute before = (readAfter before attr, next) ∧ next.rest = tail := by
  have name : cursor.leading isAttributeChar = attr.name.toText.toList := by
    rw [leading, spelled, List.takeWhile_append_of_pos word.member,
      List.takeWhile_cons_of_neg (by decide), List.append_nil]
  have named : (cursor.skipWhile isAttributeChar).rest =
      '=' :: '"' :: (attr.value.toList.flatMap escapeAttributeChar ++ '"' :: tail) := by
    rw [skipWhile, name, rest_skip, spelled, List.drop_left]
  have equals := skipBlanks_of_solid named (by decide)
  have quoted : ((cursor.skipWhile isAttributeChar).skipBlanks.skip 1).rest =
      '"' :: (attr.value.toList.flatMap escapeAttributeChar ++ '"' :: tail) := by
    rw [rest_skip, equals]
    rfl
  obtain ⟨next, read, rest⟩ := exists_attributeValue (skipBlanks_of_solid quoted (by decide))
  have value : (cursor.skipWhile isAttributeChar).attributeRest attr.name.toText =
      (attr.value, next) := by
    have goesOn : (cursor.skipWhile isAttributeChar).skipBlanks.startsWith "=" = true := by
      rw [startsWith, equals]
      rfl
    rw [attributeRest]
    exact (if_pos goesOn).trans read
  rw [oneAttribute, name, word.lower, String.ofList_toList, value]
  dsimp only
  rw [addAttribute, readAfter]
  split
  · exact ⟨_, rfl, rest⟩
  · exact ⟨_, rfl, rest⟩

theorem attributes_of_writtenEnd {closed : Bool} (before : List Attribute)
    (spelled : cursor.rest = writtenEnd closed ++ tail) :
    ∃ next, cursor.attributes before = (before.reverse, next) ∧
      next.rest = writtenEnd closed ++ tail := by
  have solid : cursor.skipBlanks.rest = writtenEnd closed ++ tail := by
    cases closed with
    | true => exact skipBlanks_of_solid spelled (by decide)
    | false => exact skipBlanks_of_solid spelled (by decide)
  have last : attributesRound (cursor, before) = none := by
    rw [attributesRound, solid]
    cases closed <;> rfl
  exact ⟨cursor.skipBlanks, by rw [attributes_eq, last], solid⟩

theorem attributesRound_of_word (before : List Attribute) {name : String} (word : IsWord name)
    (spelled : cursor.skipBlanks.rest = name.toList ++ tail) :
    attributesRound (cursor, before) = some ((cursor.skipBlanks.oneAttribute before).2,
      (cursor.skipBlanks.oneAttribute before).1) := by
  obtain ⟨first, more, shape⟩ := List.exists_cons_of_ne_nil word.nonempty
  have member := word.member first (by rw [shape]; exact List.mem_cons_self)
  rw [shape, List.cons_append] at spelled
  have found : cursor.skipBlanks.leading isAttributeChar ≠ [] := by
    rw [leading, spelled, List.takeWhile_cons_of_pos member]
    exact List.cons_ne_nil _ _
  unfold attributesRound
  dsimp only
  split
  · simp_all
  · rename_i shape'
    obtain ⟨rfl, -⟩ := List.cons.inj (spelled.symm.trans shape')
    cases member
  · rename_i shape'
    obtain ⟨rfl, -⟩ := List.cons.inj (spelled.symm.trans shape')
    cases member
  · rw [if_neg found]

/-- Written attributes are read one after the other. -/
theorem exists_attributes {closed : Bool} (words : ∀ attr ∈ attributes, IsWord attr.name.toText)
    (before : List Attribute)
    (spelled : cursor.rest = (attributes.flatMap fun attr => (writeAttribute attr).toList) ++
      (writtenEnd closed ++ tail)) :
    ∃ next, cursor.attributes before = ((attributes.foldl readAfter before).reverse, next) ∧
      next.rest = writtenEnd closed ++ tail := by
  induction attributes generalizing cursor before with
  | nil => exact attributes_of_writtenEnd before spelled
  | cons attr rest ih =>
    obtain ⟨word, words⟩ := List.forall_mem_cons.mp words
    obtain ⟨first, more, shape⟩ := List.exists_cons_of_ne_nil word.nonempty
    have member := word.member first (by rw [shape]; exact List.mem_cons_self)
    have solid : Text.isMarkupBlank first = false := by
      simp only [isAttributeChar, endsAttributeName, Text.isAsciiBlank, Bool.not_eq_true',
        Bool.or_eq_false_iff] at member
      exact member.1.1.1.1.1.1.1
    have ahead : cursor.skipBlanks.rest = attr.name.toText.toList ++
        '=' :: '"' :: (attr.value.toList.flatMap escapeAttributeChar ++
          '"' :: ((rest.flatMap fun attr => (writeAttribute attr).toList) ++
            (writtenEnd closed ++ tail))) := by
      rw [List.flatMap_cons, Xml.toList_writeAttribute] at spelled
      rw [shape] at spelled ⊢
      refine skipBlanks_of_blank ?_ solid
      rw [spelled]
      simp [Xml.escapeAttribute]
    obtain ⟨middle, read, left⟩ := exists_oneAttribute word before ahead
    obtain ⟨last, reads, ended⟩ := ih words (readAfter before attr) left
    refine ⟨last, ?_, ended⟩
    rw [attributes_eq, attributesRound_of_word before word ahead, read]
    exact reads

theorem exists_tagEnd {closed : Bool} (spelled : cursor.rest = writtenEnd closed ++ tail) :
    ∃ next, cursor.tagEnd = (closed, next) ∧ next.rest = tail := by
  unfold tagEnd startsWith
  rw [spelled]
  cases closed with
  | true => exact ⟨cursor.skip 2, rfl, by rw [rest_skip, spelled]; rfl⟩
  | false => exact ⟨cursor.skip 1, rfl, by rw [rest_skip, spelled]; rfl⟩

/-- The start tag of a paragraph is read with its attributes. -/
theorem exists_startTag {closed : Bool} (words : ∀ attr ∈ attributes, IsWord attr.name.toText)
    (some : attributes ≠ [])
    (spelled : cursor.rest = writtenHead ⟨none, "p"⟩ attributes ++ (writtenEnd closed ++ tail)) :
    cursor.startTag.1.token = .start "p" (attributes.foldl readAfter []).reverse closed "" ∧
      cursor.startTag.2.rest = tail := by
  have inner : (cursor.skip 1).rest = 'p' ::
      ((attributes.flatMap fun attr => (writeAttribute attr).toList) ++
        (writtenEnd closed ++ tail)) := by
    rw [rest_skip, spelled]
    rfl
  have name : (cursor.skip 1).leading isTagChar = ['p'] := by
    obtain ⟨attr, others, rfl⟩ := List.exists_cons_of_ne_nil some
    rw [leading, inner, List.flatMap_cons, Xml.toList_writeAttribute]
    rfl
  have named : ((cursor.skip 1).skipWhile isTagChar).rest =
      (attributes.flatMap fun attr => (writeAttribute attr).toList) ++
        (writtenEnd closed ++ tail) := by
    rw [skipWhile, name, rest_skip, inner]
    rfl
  obtain ⟨middle, read, left⟩ := exists_attributes words [] named
  obtain ⟨last, ended, rest⟩ := exists_tagEnd left
  have tag : (cursor.skip 1).tagName = ("p", (cursor.skip 1).skipWhile isTagChar) := by
    rw [tagName, name]
    rfl
  rw [startTag, tag]
  dsimp only
  rw [read]
  dsimp only
  have markup : (!closed && holdsRawText "p") = false := by
    rw [show holdsRawText "p" = false by decide, Bool.and_false]
  simp only [ended, markup, Bool.false_eq_true, ↓reduceIte]
  exact ⟨trivial, rest⟩

theorem endTag_paragraph (spelled : cursor.rest = "</p>".toList) :
    cursor.endTag.1.token = .finish "p" ∧ cursor.endTag.2.rest = [] := by
  have name : (cursor.skip 2).tagName = ("p", (cursor.skip 2).skip 1) := by
    rw [tagName, skipWhile, leading, rest_skip, spelled]
    rfl
  have ended : ((cursor.skip 2).skip 1).rest = ['>'] := by
    rw [rest_skip, rest_skip, spelled]
    rfl
  rw [endTag, name]
  refine ⟨rfl, ?_⟩
  change ((cursor.skip 2).skip 1).skipTag.rest = []
  rw [skipTag, rest_skip, skipWhile, leading, rest_skip, ended]
  rfl

/-! ## Tokens -/

theorem lexeme_start {closed : Bool} (words : ∀ attr ∈ attributes, IsWord attr.name.toText)
    (some : attributes ≠ [])
    (spelled : cursor.rest = writtenHead ⟨none, "p"⟩ attributes ++ (writtenEnd closed ++ tail)) :
    cursor.lexeme.1.token = .start "p" (attributes.foldl readAfter []).reverse closed "" ∧
      cursor.lexeme.2.rest = tail := by
  have same : cursor.lexeme = ({ cursor with reports := [] } : Cursor).startTag := by
    unfold lexeme startsWith startsIgnoringCase
    dsimp only
    rw [spelled]
    rfl
  rw [same]
  exact exists_startTag words some spelled

theorem lexeme_finish (spelled : cursor.rest = "</p>".toList) :
    cursor.lexeme.1.token = .finish "p" ∧ cursor.lexeme.2.rest = [] := by
  have same : cursor.lexeme = ({ cursor with reports := [] } : Cursor).endTag := by
    unfold lexeme startsWith startsIgnoringCase
    dsimp only
    rw [spelled]
    rfl
  rw [same]
  exact endTag_paragraph spelled

/-- Where no less-than sign comes next, text comes next. -/
theorem lexeme_text {c : Char} {more : List Char} (spelled : cursor.rest = c :: more)
    (other : c ≠ '<') : cursor.lexeme = ({ cursor with reports := [] } : Cursor).text := by
  have lower : c.toLower ≠ '<' := toLower_ne (by decide) other
  have plain : beginsMarkup (c :: more) = false := by
    unfold beginsMarkup
    split <;> simp_all
  have doctype :
      ({ cursor with reports := [] } : Cursor).startsIgnoringCase "<!doctype" = false := by
    rw [startsIgnoringCase, spelled]
    simp [Text.startsIgnoringCase, Text.equalsIgnoringCase, Text.lowerAscii, lower]
  unfold lexeme
  dsimp only
  rw [doctype]
  simp [startsWith, spelled, Ne.symm other, plain]

/-- The text of a paragraph is read up to the end tag. -/
theorem lexeme_content {content : String} (some : content.isEmpty = false)
    (spelled : cursor.rest = content.toList.flatMap escapeTextChar ++ "</p>".toList) :
    cursor.lexeme.1.token = .text content ∧ cursor.lexeme.2.rest = "</p>".toList := by
  obtain ⟨c, others, shape⟩ : ∃ c others, content.toList = c :: others :=
    List.exists_cons_of_ne_nil (by simpa [← String.toList_eq_nil_iff] using some)
  obtain ⟨first, more, written, solid⟩ :
      ∃ first more, escapeTextChar c = first :: more ∧ first ≠ '<' := by
    rcases escapeTextChar_cases c with stands | ⟨same, -, less, -⟩
    · obtain ⟨more, marked⟩ := List.head?_eq_some_iff.mp stands.marked
      exact ⟨'&', more, marked, by decide⟩
    · exact ⟨c, [], same, less⟩
  have begins : cursor.rest = first :: (more ++ (others.flatMap escapeTextChar ++
      "</p>".toList)) := by
    rw [spelled, shape, List.flatMap_cons, written]
    simp
  have cleared : ({ cursor with reports := [] } : Cursor).rest =
    content.toList.flatMap escapeTextChar ++ "</p>".toList := spelled
  obtain ⟨next, read, rest⟩ := exists_textUpTo survives_text rfl content cleared
  rw [lexeme_text begins solid, text, read]
  exact ⟨rfl, rest⟩

theorem tokens_cons (more : cursor.rest ≠ []) : cursor.lexemes.map (·.token) =
    cursor.lexeme.1.token :: cursor.lexeme.2.lexemes.map (·.token) := by
  rw [lexemes, dif_neg more]
  rfl

theorem tokens_nil (ended : cursor.rest = []) : cursor.lexemes.map (·.token) = [] := by
  rw [lexemes, dif_pos ended]
  rfl

/-- What is written between the tags of an element that holds a text, and its end tag. An element
without a text has no end tag. -/
def writtenContent (content : String) : List Char :=
  if content.isEmpty then [] else content.toList.flatMap escapeTextChar ++ "</p>".toList

/-- The tokens of a written paragraph. -/
theorem tokens_paragraph {content : String} (words : ∀ attr ∈ attributes, IsWord attr.name.toText)
    (some : attributes ≠ [])
    (spelled : cursor.rest = writtenHead ⟨none, "p"⟩ attributes ++
      (writtenEnd content.isEmpty ++ writtenContent content)) :
    cursor.lexemes.map (·.token) =
      .start "p" (attributes.foldl readAfter []).reverse content.isEmpty "" ::
        if content.isEmpty then [] else [.text content, .finish "p"] := by
  obtain ⟨started, left⟩ := lexeme_start words some spelled
  rw [tokens_cons (by rw [spelled]; exact List.cons_ne_nil _ _), started]
  unfold writtenContent at left
  cases empty : content.isEmpty with
  | true =>
    rw [empty] at left
    rw [tokens_nil left]
    rfl
  | false =>
    rw [empty] at left
    have more : cursor.lexeme.2.rest ≠ [] := by rw [left]; simp
    obtain ⟨held, last⟩ := lexeme_content empty left
    obtain ⟨finished, ended⟩ := lexeme_finish last
    rw [tokens_cons more, held, tokens_cons (by rw [last]; exact List.cons_ne_nil _ _), finished,
      tokens_nil ended]
    rfl

end Cursor

/-! ## Documents -/

/-- A document with nothing in its body but a paragraph. -/
def paragraphAlone (attributes : List Attribute) : Document :=
  ((Document.empty.grow root (.plainElement "html")).grow ⟨2, 0⟩ (.plainElement "body")).grow
    ⟨3, 0⟩ (.element ⟨none, "p"⟩ none attributes)

/-- The same with a text in the paragraph, unless it is empty. -/
def paragraphWith (attributes : List Attribute) (content : String) : Document :=
  if content.isEmpty then paragraphAlone attributes
  else (paragraphAlone attributes).grow ⟨4, 0⟩ (.text content)

namespace Builder

/-- The elements that are open in the body. -/
def around : List (NodeId × String) := [(⟨3, 0⟩, "body"), (⟨2, 0⟩, "html")]

/-- The elements that are open in the paragraph. -/
def within : List (NodeId × String) := (⟨4, 0⟩, "p") :: around

theorem placeElement_closed (position : Position) (reports : List Diagnostic) :
    placeElement {} ⟨.empty, [], reports⟩ position "p" attributes true "" =
      .ok ⟨paragraphAlone attributes, around, reports⟩ := by cbv

theorem placeElement_opened (position : Position) (reports : List Diagnostic) :
    placeElement {} ⟨.empty, [], reports⟩ position "p" attributes false "" =
      .ok ⟨paragraphAlone attributes, within, reports⟩ := by cbv

theorem placeText_content {content : String} (some : content.isEmpty = false)
    (reports : List Diagnostic) :
    placeText {} ⟨paragraphAlone attributes, within, reports⟩ content =
      ⟨(paragraphAlone attributes).grow ⟨4, 0⟩ (.text content), within, reports⟩ := by
  rw [placeText, some]
  cases Text.isAllBlank content <;> rfl

theorem placeEnd_paragraph (doc : Document) (position : Position) (reports : List Diagnostic) :
    placeEnd {} ⟨doc, within, reports⟩ position "p" = ⟨doc, around, reports⟩ := by cbv

/-- A start tag of a paragraph is placed as an element of its own. -/
theorem place_start (closed : Bool) (told : List Diagnostic) (position : Position) :
    place {} .empty ⟨.start "p" attributes closed "", told, position⟩ =
      placeElement {} ⟨.empty, [], told.reverse⟩ position "p" attributes closed "" := by
  unfold place
  dsimp only
  rw [if_neg (by decide), empty, List.append_nil]

theorem places_paragraph {content : String} {lexemes : List Lexeme}
    (tokens : lexemes.map (·.token) = .start "p" attributes content.isEmpty "" ::
      if content.isEmpty then [] else [.text content, .finish "p"]) :
    ∃ reports, lexemes.foldlM (place {}) .empty =
      .ok ⟨paragraphWith attributes content, around, reports⟩ := by
  obtain ⟨⟨_, told, position⟩, others, rfl, rfl, more⟩ := List.map_eq_cons_iff.mp tokens
  rw [List.foldlM_cons, place_start, paragraphWith]
  cases empty : content.isEmpty with
  | true =>
    rw [empty, if_pos rfl, List.map_eq_nil_iff] at more
    subst more
    rw [placeElement_closed]
    exact ⟨_, rfl⟩
  | false =>
    rw [empty, if_neg Bool.false_ne_true] at more
    obtain ⟨⟨_, told', position'⟩, others', rfl, rfl, last⟩ := List.map_eq_cons_iff.mp more
    obtain ⟨⟨_, told'', position''⟩, none, rfl, rfl, ended⟩ := List.map_eq_cons_iff.mp last
    obtain rfl := List.map_eq_nil_iff.mp ended
    rw [placeElement_opened]
    have second : place {} ⟨paragraphAlone attributes, within, told.reverse⟩
        ⟨.text content, told', position'⟩ =
          .ok ⟨(paragraphAlone attributes).grow ⟨4, 0⟩ (.text content), within,
            told'.reverse ++ told.reverse⟩ := congrArg Except.ok (placeText_content empty _)
    have third : place {} ⟨(paragraphAlone attributes).grow ⟨4, 0⟩ (.text content), within,
        told'.reverse ++ told.reverse⟩ ⟨.finish "p", told'', position''⟩ =
          .ok ⟨(paragraphAlone attributes).grow ⟨4, 0⟩ (.text content), around,
            told''.reverse ++ (told'.reverse ++ told.reverse)⟩ :=
      congrArg Except.ok (placeEnd_paragraph ..)
    refine ⟨told''.reverse ++ (told'.reverse ++ told.reverse), ?_⟩
    simp only [List.foldlM_cons, List.foldlM_nil, bind, Except.bind, second, third]
    rfl

/-- Where there is a root element, the document is finished as it is. -/
theorem finish_of_some {b : Builder} {options : ParseOptions} (position : Position)
    (some : b.doc.rootElement?.isSome = true) :
    ∃ diagnostics, b.finish options position = .ok { b.doc with diagnostics } := by
  unfold finish
  dsimp only
  rw [doc_closeAll, if_pos some]
  exact ⟨_, rfl⟩

end Builder

theorem rootElement_paragraphWith (content : String) (diagnostics : List Diagnostic) :
    { paragraphWith attributes content with diagnostics }.rootElement? = some ⟨2, 0⟩ := by
  unfold paragraphWith
  cases content.isEmpty <;> cbv

theorem children_html (content : String) (diagnostics : List Diagnostic) :
    { paragraphWith attributes content with diagnostics }.children ⟨2, 0⟩ = [⟨3, 0⟩] := by
  unfold paragraphWith
  cases content.isEmpty <;> cbv

theorem children_body (content : String) (diagnostics : List Diagnostic) :
    { paragraphWith attributes content with diagnostics }.children ⟨3, 0⟩ = [⟨4, 0⟩] := by
  unfold paragraphWith
  cases content.isEmpty <;> cbv

theorem kind_body (content : String) (diagnostics : List Diagnostic) :
    { paragraphWith attributes content with diagnostics }.kind ⟨3, 0⟩ = .plainElement "body" := by
  unfold paragraphWith
  cases content.isEmpty <;> cbv

theorem kind_paragraph (content : String) (diagnostics : List Diagnostic) :
    { paragraphWith attributes content with diagnostics }.kind ⟨4, 0⟩ =
      .element ⟨none, "p"⟩ none attributes := by
  unfold paragraphWith
  cases content.isEmpty <;> cbv

theorem textContent_paragraph (content : String) (diagnostics : List Diagnostic) :
    { paragraphWith attributes content with diagnostics }.textContent ⟨4, 0⟩ = content := by
  unfold paragraphWith
  cases empty : content.isEmpty with
  | true =>
    obtain rfl := String.isEmpty_iff.mp empty
    cbv
  | false => 
    have joined : { (paragraphAlone attributes).grow ⟨4, 0⟩ (.text content) with
        diagnostics }.textContent ⟨4, 0⟩ = content ++ "" := by cbv
    rw [if_neg Bool.false_ne_true, joined, String.append_empty]

/-! ## Written paragraphs -/

/-- The children of an element that holds a text and nothing else. -/
def textOnly (content : String) : List Tree :=
  if content.isEmpty then [] else [.node (.text content) []]

/-- A paragraph in no namespace or a default one takes along no other declaration. -/
theorem default_inheritedBindings {doc : Document} {id : NodeId} {uri : Option String}
    {value content : String}
    (shape : doc.tree id = .node (.element ⟨none, "p"⟩ uri [.plain "a" value]) (textOnly content)) :
    ∀ binding ∈ doc.inheritedBindings id, binding.1 = none := by
  have used : ∀ nsPrefix, (((doc.tree id).outline 0).flatMap fun entry =>
      usedPrefixes entry.2).contains nsPrefix = true → nsPrefix = none := by
    intro nsPrefix listed
    revert listed
    rw [shape, textOnly]
    cases uri <;> cases content.isEmpty <;>
      simp [Tree.outline, Tree.outlineAll, usedPrefixes, Attribute.plain]
  unfold inheritedBindings
  split
  · simp
  · split
    · simp
    · intro binding listed
      have relied := (List.mem_filter.mp listed).2
      simp only [Bool.and_eq_true] at relied
      exact used binding.1 relied.1.1

theorem toList_write_paragraph (options : Xml.WriteOptions)
    (bindings : List (Option String × String)) (uri : Option String)
    (attributes : List Attribute) (content : String) :
    (Xml.write options 0 false bindings
      (.node (.element ⟨none, "p"⟩ uri attributes) (textOnly content))).toList =
        writtenHead ⟨none, "p"⟩ (declarationsOf bindings ++ attributes) ++
          (writtenEnd content.isEmpty ++ Cursor.writtenContent content) := by
  have solid : Xml.isElementOnly [.node (.text content) []] = false := rfl
  rw [Xml.write, textOnly, Cursor.writtenContent]
  cases content.isEmpty with
  | true =>
    simp [Xml.WriteOptions.margin, Xml.WriteOptions.lineEnd, writtenHead, writtenEnd,
      List.flatMap_map]
  | false =>
    simp [Xml.WriteOptions.margin, Xml.WriteOptions.lineEnd, writtenHead, writtenEnd, solid,
      List.flatMap_map, Xml.writeAll, Xml.write, Xml.writeLeaf, Xml.escapeText, QName.toText]

/-- Declarations of the default namespace do not come in the way of an attribute after them. -/
theorem find_readAfter {declared : List Attribute}
    (defaults : ∀ attr ∈ declared, attr.name = ⟨none, "xmlns"⟩) (value : String) :
    ((declared ++ [Attribute.plain "a" value]).foldl Cursor.readAfter []).reverse.find?
      (·.isNamed "a" none) = some (.plain "a" value) := by
  have named : ∀ before : List Attribute, (∀ attr ∈ before, attr.name = ⟨none, "xmlns"⟩) →
      ∀ attr ∈ declared.foldl Cursor.readAfter before, attr.name = ⟨none, "xmlns"⟩ := by
    induction declared with
    | nil => exact fun before known => known
    | cons attr rest ih =>
      obtain ⟨first, defaults⟩ := List.forall_mem_cons.mp defaults
      intro before known
      refine ih defaults _ ?_
      rw [Cursor.readAfter, first]
      split
      · exact known
      · exact List.forall_mem_cons.mpr ⟨by cbv, known⟩
  have known := named [] (by simp)
  rw [List.foldl_append]
  generalize declared.foldl Cursor.readAfter [] = before at known
  have new : before.any (·.name.toText == "a") = false := by
    rw [List.any_eq_false]
    intro attr member
    rw [known attr member]
    decide
  have other : before.reverse.find? (·.isNamed "a" none) = none := by
    rw [List.find?_eq_none]
    intro attr member
    rw [Attribute.isNamed, Attribute.isDeclaration, known attr (List.mem_reverse.mp member)]
    exact Bool.false_ne_true
  have last : [Attribute.plain "a" value].foldl Cursor.readAfter before =
      .plain "a" value :: before := by
    change (if before.any (·.name.toText == "a") then before
      else ⟨Cursor.splitName "a", none, value⟩ :: before) = _
    rw [new, if_neg Bool.false_ne_true]
    rfl
  rw [last, List.reverse_cons, List.find?_append, other]
  rfl

/-- A written paragraph is read as HTML, in a body of its own. -/
theorem parse_written {text content : String} (words : ∀ attr ∈ attributes,
      Cursor.IsWord attr.name.toText) (some : attributes ≠ [])
    (spelled : text.toList = writtenHead ⟨none, "p"⟩ attributes ++
      (writtenEnd content.isEmpty ++ Cursor.writtenContent content)) :
    ∃ diagnostics, parse {} text = .ok
      { paragraphWith (attributes.foldl Cursor.readAfter []).reverse content with
        diagnostics } := by
  have begins : (Cursor.ofText text).rest = '<' :: 'p' :: ((attributes.flatMap fun attr =>
      (writeAttribute attr).toList) ++ (writtenEnd content.isEmpty ++
        Cursor.writtenContent content)) := by
    rw [Cursor.ofText, spelled]
    rfl
  have kept := Cursor.skipBlanks_of_solid begins (by decide)
  have plain : (Cursor.ofText text).skipBlanks.startsIgnoringCase "<!doctype" = false := by
    rw [Cursor.startsIgnoringCase, kept]
    rfl
  have tokens : (lexemesOf text).map (·.token) =
      .start "p" (attributes.foldl Cursor.readAfter []).reverse content.isEmpty "" ::
        if content.isEmpty then [] else [.text content, .finish "p"] := by
    rw [lexemesOf, plain, if_neg Bool.false_ne_true]
    exact Cursor.tokens_paragraph words some kept
  obtain ⟨reports, placed⟩ := Builder.places_paragraph tokens
  rw [parse_of_ink (by rw [kept]; exact List.cons_ne_nil _ _), placed]
  refine Builder.finish_of_some _ (Option.isSome_iff_exists.mpr ⟨⟨2, 0⟩, ?_⟩)
  exact rootElement_paragraphWith content (paragraphWith _ content).diagnostics

/-- A paragraph with one attribute and at most a text is written on its own, whatever document it
stands in. Then it is read as HTML, and there is a paragraph in the body with just the same value of
the attribute and the same text, whatever characters they hold. -/
theorem parse_written_paragraph {doc : Document} {id : NodeId} (options : Xml.WriteOptions)
    {uri : Option String} {value content : String}
    (shape : doc.tree id = .node (.element ⟨none, "p"⟩ uri [.plain "a" value]) (textOnly content)) :
    ∃ parsed html body paragraph, parse {} (doc.writeNode options id) = .ok parsed ∧
      parsed.rootElement? = some html ∧ parsed.children html = [body] ∧
      parsed.kind body = .plainElement "body" ∧ parsed.children body = [paragraph] ∧
      (parsed.kind paragraph).elementName? = some ⟨none, "p"⟩ ∧
      parsed.attribute? paragraph "a" = some value ∧ parsed.textContent paragraph = content := by
  have defaults : ∀ attr ∈ declarationsOf (doc.inheritedBindings id),
      attr.name = ⟨none, "xmlns"⟩ := by
    intro attr member
    obtain ⟨⟨nsPrefix, bound⟩, listed, rfl⟩ := List.mem_map.mp member
    obtain rfl : nsPrefix = none := default_inheritedBindings shape _ listed
    rfl
  have words : ∀ attr ∈ declarationsOf (doc.inheritedBindings id) ++ [.plain "a" value],
      Cursor.IsWord attr.name.toText := by
    intro attr member
    rcases List.mem_append.mp member with declared | single
    · rw [defaults attr declared]
      exact ⟨by decide, List.all_eq_true.mp rfl, by decide⟩
    · have named : (Attribute.plain "a" value).name = ⟨none, "a"⟩ := rfl
      rw [List.mem_singleton.mp single, named]
      exact ⟨by decide, List.all_eq_true.mp rfl, by decide⟩
  have spelled := toList_write_paragraph options (doc.inheritedBindings id) uri
    [.plain "a" value] content
  rw [← shape] at spelled
  obtain ⟨diagnostics, read⟩ := parse_written words (by simp) spelled
  refine ⟨_, ⟨2, 0⟩, ⟨3, 0⟩, ⟨4, 0⟩, read, rootElement_paragraphWith .., children_html ..,
    kind_body .., children_body .., ?_, ?_, textContent_paragraph ..⟩
  · rw [kind_paragraph]
    rfl
  · rw [attribute?, Document.attributes, kind_paragraph]
    exact congrArg (Option.map Attribute.value) (find_readAfter defaults value)

/-- A paragraph in the default namespace of the element around it. -/
def quotedParagraph : Document :=
  ((Document.empty.grow root (.element ⟨none, "b"⟩ (some "u") [.plain "xmlns" "u"])).grow ⟨2, 0⟩
    (.element ⟨none, "p"⟩ (some "u") [.plain "a" "\x00\"<\r\n&amp;"])).grow ⟨3, 0⟩
      (.text "\r</p>&lt\x1b")

theorem parse_written_paragraph_quoted :
    quotedParagraph.writeNode {} ⟨3, 0⟩ =
      "<p xmlns=\"u\" a=\"&#x0;&quot;&lt;&#13;&#10;&amp;amp;\">&#13;&lt;/p&gt;&amp;lt&#x1B;</p>" ∧
    ∃ parsed html body paragraph, parse {} (quotedParagraph.writeNode {} ⟨3, 0⟩) = .ok parsed ∧
      parsed.rootElement? = some html ∧ parsed.children html = [body] ∧
      parsed.kind body = .plainElement "body" ∧ parsed.children body = [paragraph] ∧
      (parsed.kind paragraph).elementName? = some ⟨none, "p"⟩ ∧
      parsed.attribute? paragraph "a" = some "\x00\"<\r\n&amp;" ∧
      parsed.textContent paragraph = "\r</p>&lt\x1b" := by
  have shape : quotedParagraph.tree ⟨3, 0⟩ =
      .node (.element ⟨none, "p"⟩ (some "u") [.plain "a" "\x00\"<\r\n&amp;"])
        (textOnly "\r</p>&lt\x1b") := by cbv
  exact ⟨by cbv, parse_written_paragraph {} shape⟩

end Markup.Html
