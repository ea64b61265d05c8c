import Markup.Proofs.Html.Frame
import Markup.Proofs.Html.Placing
import Markup.Proofs.Name

/-!
# The structure of a document

Where elements are implied, every token leaves the structure as it is or makes more of it. So a
document has one `html` element with at most a head and then a body in it, elements that never have
content have none, and no element is nested more deeply than the limit or the structure itself.
-/

namespace Markup.Html

/-! ## Tags -/

/-- The tag of a start tag does not begin with a colon, so that nothing is cut off it but a prefix
that is there. -/
def Token.HasProperTag : Token → Prop
  | .start tag _ _ _ => tag.toList.head? ≠ some ':'
  | _ => True

namespace Cursor

/-- A name without a prefix is a tag as it was written, unless the tag begins with a colon. -/
theorem localName_splitName {tag : String} (proper : tag.toList.head? ≠ some ':')
    (plain : (splitName tag).nsPrefix = none) : (splitName tag).localName = tag := by
  unfold splitName at plain ⊢
  dsimp only at plain ⊢
  rw [QName.ofText_eq] at plain ⊢
  cases cut : tag.toList.dropWhile (· != ':') with
  | nil => rfl
  | cons c after =>
    have bare : tag.toList.takeWhile (· != ':') = [] := by simpa [cut] using plain
    cases spelled : tag.toList with
    | nil => simp [spelled] at cut
    | cons first rest =>
      rw [spelled] at bare proper
      simp_all

theorem isVoidKind_splitName {tag : String} (proper : tag.toList.head? ≠ some ':')
    (solid : isVoid tag = false) (attributes : List Attribute) :
    isVoidKind (.element (splitName tag) none attributes) = false := by
  rw [isVoidKind]
  cases plain : (splitName tag).nsPrefix with
  | some => simp [NodeKind.elementName?, plain]
  | none => simp [NodeKind.elementName?, localName_splitName proper plain, solid]

/-- Lowering a character yields no other one, unless it yields a small letter. -/
theorem toLower_ne {c other : Char} (large : other.isLower = false) (apart : c ≠ other) :
    c.toLower ≠ other := by
  unfold Char.toLower
  split
  · rename_i upper
    rintro rfl
    have low : 65 ≤ c.val := upper.1
    have high : c.val ≤ 90 := upper.2
    have range : (decide (c.val + 32 ≥ 97) && decide (c.val + 32 ≤ 122)) = false := large
    simp only [Bool.and_eq_false_iff, decide_eq_false_iff_not] at range
    grind
  · exact apart

/-- A start tag is read where a letter comes after the `<`. -/
theorem hasProperTag_startTag {c : Cursor} {letter : Char} {rest : List Char}
    (spelled : c.rest = '<' :: letter :: rest) (isLetter : letter.isAlpha = true) :
    c.startTag.1.token.HasProperTag := by
  show (String.ofList (Text.lowerAscii ((c.skip 1).leading isTagChar))).toList.head? ≠ some ':'
  have after : (c.skip 1).rest = letter :: rest := by rw [skip, spelled]; rfl
  rw [String.toList_ofList, Text.lowerAscii, leading, after, List.head?_map, List.head?_takeWhile]
  intro colon
  obtain ⟨first, found, same⟩ := Option.map_eq_some_iff.mp colon
  obtain ⟨rfl, -⟩ : letter = first ∧ _ := by simpa using found
  refine toLower_ne (by decide) ?_ same
  rintro rfl
  cases isLetter

theorem hasProperTag_lexeme (c : Cursor) : c.lexeme.1.token.HasProperTag := by
  unfold lexeme
  dsimp only
  split_ifs with _ _ ending marked declared
  · unfold comment
    dsimp only
    split <;> exact trivial
  · exact trivial
  · exact trivial
  · exact trivial
  · -- None of the other characters that begin markup comes next.
    unfold beginsMarkup at marked
    split at marked
    · rename_i letter rest spelled
      refine hasProperTag_startTag spelled ?_
      simp only [startsWith, spelled, Bool.or_eq_true] at ending declared
      simp only [Bool.or_eq_true, beq_iff_eq] at marked
      rcases marked with ((isLetter | rfl) | rfl) | rfl
      · exact isLetter
      · exact absurd rfl ending
      · exact absurd (.inl rfl) declared
      · exact absurd (.inr rfl) declared
    · cases marked
  · exact trivial

theorem hasProperTag_doctype (c : Cursor) : c.doctype.1.token.HasProperTag := trivial

theorem hasProperTag_lexemes (c : Cursor) : ∀ lexeme ∈ c.lexemes, lexeme.token.HasProperTag := by
  fun_induction lexemes c with
  | case1 => exact List.forall_mem_nil _
  | case2 c more ih => exact List.forall_mem_cons.mpr ⟨c.hasProperTag_lexeme, ih⟩

end Cursor

/-- A tag of the structure is ended by no tag of another element. -/
theorem ends_of_isStructural {tag opened : String} (plain : isStructural tag = false)
    (structural : isStructural opened = true) : ends tag opened = false := by
  have other : tag ≠ "body" := by
    rintro rfl
    cases plain
  have cases_ : opened = "html" ∨ opened = "head" ∨ opened = "body" := by
    simpa [isStructural, or_assoc] using structural
  rcases cases_ with rfl | rfl | rfl
  · rfl
  · simpa [ends, enders] using other
  · rfl

namespace Builder

open Document

variable {options : ParseOptions} {limit : Nat} {b b' : Builder} {lexeme : Lexeme}
  {id parent : NodeId} {kind : NodeKind} {tag : String}

/-! ## Steps on the way -/

/-- What is built is in order, and its structure is there or is still to be made. -/
structure IsBuilt (limit : Nat) (b : Builder) : Prop where
  ordered : IsOrdered limit b
  stage : Stage b

/-- The body or the head is open, with the elements inside it. -/
def IsInPart (limit : Nat) (b : Builder) (id : NodeId) (tag : String) : Prop :=
  IsOrdered limit b ∧ ∃ html inner, IsFramed b html [(id, tag)] inner

theorem IsInPart.live (inside : IsInPart limit b id tag) : b.doc.IsLive id := by
  obtain ⟨ordered, html, inner, framed⟩ := inside
  exact ordered.live (id, tag) (by rw [framed.opened]; simp)

theorem IsInPart.isBuilt (inside : IsInPart limit b id tag) : IsBuilt limit b :=
  let ⟨ordered, _, _, framed⟩ := inside
  ⟨ordered, .framed framed⟩

/-- The parts of the structure are called what they are. -/
theorem Parts.structural {doc : Document} {html : NodeId} {part : List (NodeId × String)}
    (parts : Parts doc html part) : ∀ entry ∈ part, isStructural entry.2 = true := by
  cases parts with
  | none | closed => exact List.forall_mem_nil _
  | head | body => exact List.forall_mem_singleton.mpr rfl

theorem IsFramed.structural {html : NodeId} {part inner : List (NodeId × String)}
    (framed : IsFramed b html part inner) :
    ∀ entry ∈ part ++ [(html, "html")], isStructural entry.2 = true :=
  List.forall_mem_append.mpr ⟨framed.parts.structural, List.forall_mem_singleton.mpr rfl⟩

/-- Elements inside a part are closed. -/
theorem IsFramed.close {html : NodeId} {part inner inner' : List (NodeId × String)}
    (framed : IsFramed b html part inner) (left : inner' <:+ inner) :
    IsFramed { b with opened := inner' ++ (part ++ [(html, "html")]) } html part inner' where
  opened := rfl
  top := framed.top
  named := framed.named
  parts := framed.parts
  plain entry member := framed.plain entry (left.subset member)
  within bare := by
    have none := framed.within bare
    rw [none] at left
    exact List.suffix_nil.mp left

/-- The head is closed with all that is inside it. No end tag closes the other parts. -/
theorem IsFramed.closePart {html : NodeId} {part inner rest outer : List (NodeId × String)}
    {entry : NodeId × String} (framed : IsFramed b html part inner)
    (cut : part ++ [(html, "html")] = rest ++ entry :: outer)
    (kept : entry.2 ≠ "html" ∧ entry.2 ≠ "body") :
    IsFramed { b with opened := outer } html [] [] := by
  have last : ∀ {rest outer}, [(html, "html")] ≠ rest ++ entry :: outer := by
    intro rest outer cut
    have member : entry ∈ [(html, "html")] := by simp [cut]
    exact kept.1 (by rw [List.mem_singleton.mp member])
  obtain ⟨opened, top, named, parts, plain, within⟩ := framed
  cases parts with
  | none | closed => exact absurd cut last
  | head inside called =>
    cases rest with
    | nil =>
      obtain ⟨-, rfl⟩ := List.cons_eq_cons.mp cut
      exact ⟨rfl, top, named, .closed inside called, List.forall_mem_nil _, fun _ => rfl⟩
    | cons => exact absurd (List.cons_eq_cons.mp cut).2 last
  | body inside before called =>
    cases rest with
    | nil =>
      obtain ⟨rfl, -⟩ := List.cons_eq_cons.mp cut
      exact absurd rfl kept.2
    | cons => exact absurd (List.cons_eq_cons.mp cut).2 last

/-- An element inside a part is opened. -/
theorem IsFramed.push {html : NodeId} {part inner : List (NodeId × String)}
    (framed : IsFramed b html part inner) (inside : part ≠ []) (plain : isStructural tag = false) :
    IsFramed (b.push id tag) html part ((id, tag) :: inner) where
  opened := congrArg ((id, tag) :: ·) framed.opened
  top := framed.top
  named := framed.named
  parts := framed.parts
  plain := List.forall_mem_cons.mpr ⟨plain, framed.plain⟩
  within bare := absurd bare inside

namespace IsBuilt

theorem empty (limit : Nat) : IsBuilt limit .empty := ⟨.empty limit, .start rfl rfl⟩

/-- Reports change nothing. -/
theorem of_eq (built : IsBuilt limit b) (doc : b'.doc = b.doc) (opened : b'.opened = b.opened) :
    IsBuilt limit b' := by
  obtain ⟨_, _, reports⟩ := b
  obtain ⟨_, _, reports'⟩ := b'
  cases doc
  cases opened
  obtain ⟨⟨doc, live, element, solid, chain⟩, stage⟩ := built
  refine ⟨⟨doc, live, element, solid, chain⟩, ?_⟩
  cases stage with
  | start opened top => exact .start opened top
  | framed framed => exact .framed (framed.congr rfl rfl rfl fun _ _ => rfl)

theorem reports {α : Type} (built : IsBuilt limit b) (entries : List α)
    (step : Builder → α → Builder) (only : ∀ b entry, (step b entry).doc = b.doc ∧
      (step b entry).opened = b.opened) : IsBuilt limit (entries.foldl step b) := by
  induction entries generalizing b with
  | nil => exact built
  | cons entry rest ih => exact ih (built.of_eq (only b entry).1 (only b entry).2)

/-- What elements are called is all that matters of them. -/
theorem congr (built : IsBuilt limit b) (doc : Document) (same : SameLinks b.doc doc)
    (names : ∀ id, (doc.kind id).elementName? = (b.doc.kind id).elementName?) :
    IsBuilt limit { b with doc } := by
  have elements : ∀ id, doc.elements id = b.doc.elements id := fun id =>
    same.elements_eq fun id => by rw [NodeKind.isElement_eq, NodeKind.isElement_eq, names]
  refine ⟨built.ordered.congr same names, ?_⟩
  cases built.stage with
  | start opened top => exact .start opened ((elements root).trans top)
  | framed framed =>
    exact .framed (framed.congr rfl (elements root) (elements _) fun id _ => names id)

/-- A new node that is no element leaves the structure alone. -/
theorem append (built : IsBuilt limit b) (live : b.doc.IsLive parent)
    (solid : isVoidKind (b.doc.kind parent) = false) (plain : kind.isElement = false) :
    IsBuilt limit (b.append parent kind).2 := by
  refine ⟨built.ordered.append live solid fun element => ?_, ?_⟩
  · exact absurd (plain.symm.trans element) Bool.false_ne_true
  · cases built.stage with
    | start opened top =>
      refine .start opened ?_
      rw [top_append built.ordered.doc.linked live, top, plain]
      simp
    | framed framed => exact .framed (framed.append built.ordered live (.inl plain))

theorem add (built : IsBuilt limit b) (plain : kind.isElement = false) :
    IsBuilt limit (b.add kind) :=
  built.append built.ordered.live_current built.ordered.solid_current plain

theorem addMissing (built : IsBuilt limit b) (live : b.doc.IsLive id)
    (attributes : List Attribute) :
    IsBuilt limit { b with doc := addMissing b.doc id attributes } := by
  induction attributes generalizing b with
  | nil => exact built
  | cons attr rest ih =>
    rw [Builder.addMissing, List.foldl_cons]
    split
    · exact ih built live
    · have same : SameLinks b.doc (b.doc.setAttribute id attr) := .modifyAttributes live _
      refine ih (built.congr _ same fun other => ?_) (same.use.live_iff.mpr live)
      rw [setAttribute, modifyAttributes, kind_modifyKind]
      split
      · cases b.doc.kind other <;> rfl
      · rfl

theorem merge {found : NodeId × Builder} (built : IsBuilt limit found.2)
    (live : found.2.doc.IsLive found.1) (attributes : List Attribute) :
    IsBuilt limit (merge attributes found) := built.addMissing live attributes

theorem html (built : IsBuilt limit b) (one : 1 ≤ limit) :
    IsBuilt limit b.html.2 ∧ b.html.2.doc.IsLive b.html.1 :=
  let ⟨ordered, _, _, _, framed, _⟩ := framed_html built.ordered one built.stage
  ⟨⟨ordered, .framed framed⟩, framed.live ordered⟩

theorem body (built : IsBuilt limit b) (two : 2 ≤ limit) :
    IsInPart limit b.body.2 b.body.1 "body" := by
  obtain ⟨ordered, again, part, inner, framed, -⟩ :=
    framed_html built.ordered (Nat.le_of_succ_le two) built.stage
  have same : b.html.2.body = b.body := by rw [Builder.body, again, ← Builder.body]
  obtain ⟨ordered', inner', framed'⟩ := framed.body ordered two
  rw [same] at ordered' framed'
  exact ⟨ordered', _, inner', framed'⟩

theorem openHead (built : IsBuilt limit b) (two : 2 ≤ limit) (outside : b.isOpen "body" = false) :
    IsInPart limit b.openHead.2 b.openHead.1 "head" := by
  obtain ⟨ordered, again, part, inner, framed, made⟩ :=
    framed_html built.ordered (Nat.le_of_succ_le two) built.stage
  have same : b.html.2.openHead = b.openHead := by
    rw [Builder.openHead, Builder.head, again, ← Builder.head, ← Builder.openHead]
  have outside' : b.html.2.isOpen "body" = false := by
    rcases made with rfl | unchanged
    · obtain rfl := framed.within rfl
      rw [isOpen, framed.opened]
      rfl
    · rw [unchanged, outside]
  obtain ⟨ordered', inner', framed'⟩ := framed.openHead ordered two outside'
  rw [same] at ordered' framed'
  exact ⟨ordered', _, inner', framed'⟩

/-! ## Tokens -/

theorem placeStructural (built : IsBuilt limit b) (two : 2 ≤ limit) (position : Position)
    (tag : String) (attributes : List Attribute) :
    IsBuilt limit (b.placeStructural position tag attributes) := by
  unfold Builder.placeStructural
  split_ifs with _ _ inside
  · obtain ⟨made, live⟩ := built.html (Nat.le_of_succ_le two)
    exact made.merge live attributes
  · exact (built.body two).isBuilt.merge (built.body two).live attributes
  · exact built.of_eq rfl rfl
  · have outside : b.isOpen "body" = false := by simpa using inside
    have opened := built.openHead two outside
    exact opened.isBuilt.merge opened.live attributes

/-- A start tag ends elements inside a part only. -/
theorem closeEnded (built : IsBuilt limit b) (plain : isStructural tag = false) :
    IsBuilt limit (b.closeEnded tag) := by
  refine ⟨built.ordered.close (List.dropWhile_suffix _), ?_⟩
  cases built.stage with
  | start opened top =>
    refine .start ?_ top
    rw [Builder.closeEnded, opened]
    rfl
  | @framed html part inner framed =>
    have stays : (part ++ [(html, "html")]).dropWhile (fun entry => ends tag entry.2) =
        part ++ [(html, "html")] := by
      rw [List.dropWhile_eq_self_iff]
      intro _
      rw [ends_of_isStructural plain (framed.structural _ (List.getElem_mem _))]
      exact Bool.false_ne_true
    have kept : b.opened.dropWhile (fun entry => ends tag entry.2) =
        inner.dropWhile (fun entry => ends tag entry.2) ++ (part ++ [(html, "html")]) := by
      rw [framed.opened, List.dropWhile_append, stays]
      split
      · rename_i ended
        rw [List.isEmpty_iff.mp ended, List.nil_append]
      · rfl
    rw [Builder.closeEnded, kept]
    exact .framed (framed.close (List.dropWhile_suffix _))

/-- A start tag finds a part of the structure open. -/
theorem ready (built : IsBuilt limit b) (implied : options.noImplied = false) (two : 2 ≤ limit)
    (plain : isStructural tag = false) :
    ∃ id part, IsInPart limit (b.ready options tag) id part := by
  have ended := built.closeEnded plain
  rw [Builder.ready, implied, if_neg Bool.false_ne_true, prepare]
  split
  · rename_i headed
    have outside : (b.closeEnded tag).isOpen "body" = false := by
      simpa using (Bool.and_eq_true_iff.mp headed).2
    exact ⟨_, _, ended.openHead two outside⟩
  · exact ⟨_, _, ended.body two⟩

theorem placeElement (built : IsBuilt limit b) (implied : options.noImplied = false)
    (two : 2 ≤ limit) (deep : options.maxDepth ≤ limit) (plain : isStructural tag = false)
    (proper : tag.toList.head? ≠ some ':') {position : Position} {attributes : List Attribute}
    {closed : Bool} {rawText : String}
    (placed : placeElement options b position tag attributes closed rawText = .ok b') :
    IsBuilt limit b' := by
  obtain ⟨shallow, made, rfl, result⟩ := of_placeElement placed
  obtain ⟨id, part, ordered, html, inner, framed⟩ := built.ready implied two plain
  generalize b.ready options tag = b at shallow ordered framed result
  have live := ordered.live_current
  have fits : b.opened.length + 1 ≤ limit := Nat.le_trans shallow deep
  -- So many elements are open that the new one is neither at the top nor right inside `html`.
  have long : 2 ≤ b.opened.length := by
    rw [framed.opened]
    simp
  have apart : ∀ (path : List (NodeId × String)) {other}, path <:+ b.opened →
      path.length < 2 → (path.map (·.1) ++ [root]).head? = some other → b.current ≠ other := by
    rintro path other outer short innermost rfl
    have near := ordered.nesting_of_suffix outer innermost
    rw [ordered.nesting_current] at near
    omega
  have aside : b.current ≠ root ∧ b.current ≠ html :=
    ⟨apart [] List.nil_suffix (by decide) rfl,
      apart [(html, "html")]
        ⟨inner ++ [(id, part)], by rw [framed.opened, List.append_assoc]⟩ Nat.one_lt_two rfl⟩
  have added : IsBuilt limit
      (b.append b.current (.element (Cursor.splitName tag) none attributes)).2 :=
    ⟨ordered.append live ordered.solid_current fun _ => ordered.nesting_current ▸ fits,
      .framed (framed.append ordered live (.inr aside))⟩
  rcases result with rfl | ⟨content, rfl | rfl⟩
  · exact added
  · have more : Extended b.doc _ b.current _ (.element (Cursor.splitName tag) none attributes) :=
      extended_grow ordered.doc.linked live _
    refine added.append ((more.live_iff _).mpr (.inl rfl)) ?_ rfl
    exact (congrArg _ more.kind_new).trans (Cursor.isVoidKind_splitName proper content attributes)
  · refine ⟨ordered.push tag rfl (Cursor.isVoidKind_splitName proper content attributes) fits, ?_⟩
    exact .framed ((framed.append ordered live (.inr aside)).push (List.cons_ne_nil _ _) plain)

/-- An end tag closes elements inside a part, or the head. -/
theorem placeEnd (built : IsBuilt limit b) (implied : options.noImplied = false)
    (position : Position) (tag : String) : IsBuilt limit (placeEnd options b position tag) := by
  unfold Builder.placeEnd
  split
  · exact built.of_eq rfl rfl
  split
  · exact built
  rename_i stays
  have kept : tag ≠ "html" ∧ tag ≠ "body" := by simpa [implied] using stays
  split
  · exact built.of_eq rfl rfl
  rename_i before entry outer cut
  rw [List.span_eq_takeWhile_dropWhile, Prod.mk.injEq] at cut
  have whole : b.opened = before ++ entry :: outer := by
    rw [← cut.1, ← cut.2, List.takeWhile_append_dropWhile]
  have called : entry.2 = tag := by
    have solid : b.opened.dropWhile (fun entry => entry.2 != tag) ≠ [] := by simp [cut.2]
    have found := List.head_dropWhile_not (fun entry : NodeId × String => entry.2 != tag) solid
    simpa [cut.2] using found
  have outermost : outer <:+ b.opened := ⟨before ++ [entry], by simp [whole]⟩
  have closed : IsBuilt limit { b with opened := outer } := by
    refine ⟨built.ordered.close outermost, ?_⟩
    cases built.stage with
    | start opened => simp [opened] at whole
    | @framed html part inner framed =>
      -- The element that is closed is open inside the part, or it is the part.
      rw [framed.opened] at whole
      rcases List.append_eq_append_iff.mp whole with ⟨rest, -, cut⟩ | ⟨rest, spelled, cut⟩
      · exact .framed (framed.closePart cut (called ▸ kept))
      · cases rest with
        | nil => exact .framed (framed.closePart (show _ = [] ++ _ from cut.symm) (called ▸ kept))
        | cons first rest =>
          obtain ⟨-, rfl⟩ := List.cons_eq_cons.mp cut
          exact .framed (framed.close ⟨before ++ [first], by simp [spelled]⟩)
  exact closed.reports _ _ fun _ _ => ⟨rfl, rfl⟩

theorem placeText (built : IsBuilt limit b) (two : 2 ≤ limit) (content : String) :
    IsBuilt limit (placeText options b content) := by
  rcases placeText_cases options b content with same | same | ⟨-, same⟩
  · exact same.symm ▸ built
  · exact same.symm ▸ built.add rfl
  · exact same.symm ▸ (built.body two).isBuilt.add rfl

/-- Every token leaves the structure as it is or makes more of it. -/
theorem place (built : IsBuilt limit b) (implied : options.noImplied = false) (two : 2 ≤ limit)
    (deep : options.maxDepth ≤ limit) (proper : lexeme.token.HasProperTag)
    (placed : place options b lexeme = .ok b') : IsBuilt limit b' := by
  have heard : IsBuilt limit (b.hear lexeme) := built.of_eq rfl rfl
  have linked := heard.ordered.doc.linked
  cases places_of_place placed with
  | doctype =>
    exact heard.append linked.root_live (isVoidKind_of_not_isElement heard.ordered.doc.top) rfl
  | part => exact heard.placeStructural two _ _ _
  | element shown separate placed =>
    have plain := separate.resolve_left fun only => Bool.false_ne_true (implied.symm.trans only)
    rw [shown] at proper
    exact heard.placeElement implied two deep plain proper placed
  | finish => exact heard.placeEnd implied _ _
  | text => exact heard.placeText two _
  | comment => exact heard.add rfl
  | skipped => exact heard

theorem places (implied : options.noImplied = false) (two : 2 ≤ limit)
    (deep : options.maxDepth ≤ limit) {lexemes : List Lexeme}
    (proper : ∀ lexeme ∈ lexemes, lexeme.token.HasProperTag) (built : IsBuilt limit b)
    (placed : lexemes.foldlM (Builder.place options) b = .ok b') : IsBuilt limit b' := by
  induction lexemes generalizing b with
  | nil => exact Except.ok.inj placed ▸ built
  | cons lexeme rest ih =>
    obtain ⟨first, later⟩ := List.forall_mem_cons.mp proper
    rw [List.foldlM_cons] at placed
    obtain ⟨middle, one, others⟩ := bind_eq_ok.mp placed
    exact ih later (built.place implied two deep first one) others

end IsBuilt

end Builder

/-! ## Documents -/

/-- What is true of every document whose elements are implied: it has an `html` element with at most
a head and then a body in it and nothing else that is an element, elements that never have content
have none, and no element is nested too deeply. -/
structure HasStructure (limit : Nat) (doc : Document) (html : NodeId) : Prop where
  top : doc.elements Document.root = [html]
  named : Builder.IsNamed doc html "html"
  nesting : doc.nesting html = 1
  parts : ((doc.elements html).map fun id => (doc.kind id).elementName?).Sublist
    [some ⟨none, "head"⟩, some ⟨none, "body"⟩]
  void : ∀ id tag, doc.isAttached id = true → Builder.IsNamed doc id tag → isVoid tag = true →
    doc.children id = []
  nests : doc.NestsWithin limit

namespace Builder

open Document

variable {options : ParseOptions} {limit : Nat} {b : Builder}

theorem IsFramed.hasStructure {html : NodeId} {part inner : List (NodeId × String)}
    (framed : IsFramed b html part inner) (ordered : IsOrdered limit b) :
    HasStructure limit b.doc html where
  top := framed.top
  named := framed.named
  nesting :=
    have outermost : [(html, "html")] <:+ b.opened :=
      ⟨inner ++ part, by rw [framed.opened, List.append_assoc]⟩
    ordered.nesting_of_suffix outermost rfl
  parts := by
    have parts := framed.parts
    cases parts with
    | none inside => simp [inside]
    | closed inside called => simp [inside, called.elementName?_eq]
    | head inside called => simp [inside, called.elementName?_eq]
    | body inside before called =>
      rcases before with rfl | ⟨head, rfl, called'⟩
      · simp [inside, called.elementName?_eq]
      · simp [inside, called.elementName?_eq, called'.elementName?_eq]
  void id tag attached called never :=
    ordered.doc.void id (ordered.doc.linked.isAttached_iff.mp attached).1
      ((isVoidKind_of_isNamed called).trans never)
  nests id attached := ordered.doc.nests id (ordered.doc.linked.isAttached_iff.mp attached).1

theorem IsBuilt.hasStructure (built : IsBuilt limit b) (some : b.doc.elements root ≠ []) :
    ∃ html, HasStructure limit b.doc html := by
  cases built.stage with
  | start _ top => exact absurd top some
  | framed framed => exact ⟨_, framed.hasStructure built.ordered⟩

/-- Where nothing was built but comments and the like, the body is made at the end. -/
theorem IsBuilt.finish (built : IsBuilt limit b) (implied : options.noImplied = false)
    (two : 2 ≤ limit) {position : Position} {doc : Document}
    (finished : b.finish options position = .ok doc) : ∃ html, HasStructure limit doc html := by
  have reported : ∀ {b : Builder} (diagnostics : List Diagnostic), IsBuilt limit b →
      b.doc.elements root ≠ [] →
      ∃ html, HasStructure limit { b.doc with diagnostics } html :=
    fun {b} diagnostics built some =>
      (built.congr { b.doc with diagnostics } (.of_slots rfl rfl) fun _ => rfl).hasStructure some
  unfold Builder.finish at finished
  dsimp only at finished
  rw [doc_closeAll, rootElement?_eq_head?, implied, if_neg Bool.false_ne_true] at finished
  cases top : b.doc.elements root with
  | cons html rest =>
    rw [top] at finished
    obtain rfl := Except.ok.inj finished
    exact reported _ built (by simp [top])
  | nil =>
    rw [top] at finished
    obtain rfl := Except.ok.inj finished
    have bare : IsBuilt limit { b with opened := [] } :=
      ⟨built.ordered.close List.nil_suffix, .start rfl top⟩
    have closed : IsBuilt limit (b.closeAll position) :=
      bare.reports _ _ fun b entry => by split <;> exact ⟨rfl, rfl⟩
    have inside := closed.body two
    obtain ⟨html, _, framed⟩ := inside.2
    exact reported _ inside.isBuilt (by simp [framed.top])

end Builder

variable {options : ParseOptions} {text : String} {doc : Document}

theorem hasProperTag_lexemesOf (text : String) :
    ∀ lexeme ∈ lexemesOf text, lexeme.token.HasProperTag := by
  unfold lexemesOf
  generalize (Cursor.ofText text).skipBlanks = c
  dsimp only
  split
  · exact List.forall_mem_cons.mpr ⟨c.hasProperTag_doctype, Cursor.hasProperTag_lexemes _⟩
  · exact c.hasProperTag_lexemes

/-- Where elements are implied, every document that is read leniently has the structure that
documents have, however its markup is malformed. -/
theorem hasStructure_parse (implied : options.noImplied = false)
    (parsed : parse options text = .ok doc) :
    ∃ html, HasStructure (max options.maxDepth 2) doc html := by
  rw [parse_eq] at parsed
  dsimp only at parsed
  split at parsed
  · cases parsed
  · obtain ⟨built, placed, finished⟩ := bind_eq_ok.mp parsed
    have two : 2 ≤ max options.maxDepth 2 := Nat.le_max_right ..
    have whole := Builder.IsBuilt.places implied two (Nat.le_max_left ..)
      (hasProperTag_lexemesOf text) (.empty _) placed
    exact whole.finish implied two finished

/-- A stray end tag, an element without content, text and a late head. -/
theorem hasStructure_parse_stray : ∃ doc, parse {} "</p><br>a<head>" = .ok doc ∧
    ∃ html, HasStructure 256 doc html := by
  have read : (parse {} "</p><br>a<head>").isOk = true := by decide +kernel
  cases outcome : parse {} "</p><br>a<head>" with
  | error failure => rw [outcome] at read; cases read
  | ok doc => exact ⟨doc, rfl, hasStructure_parse rfl outcome⟩

end Markup.Html
