import Markup.Html.Parser
import Markup.Proofs.Outcome
import Markup.Proofs.Store.Containers
import Mathlib.Data.List.TakeDrop

/-!
# Lenient parsing keeps links in step

Whatever the tokens are, the document under construction keeps its links in step, and the open
elements are part of it. New nodes are placed below these or below the document node, so that only
containers hold anything.
-/

namespace Markup.Html.Builder

open Document

variable {b b' b'' : Builder} {id parent : NodeId}

/-- The document of a builder is in step, nodes hang below containers, and they are placed only
where there are such. -/
structure IsSound (b : Builder) : Prop where
  linked : b.doc.WellLinked
  hung : ∀ id parent, b.doc.IsLive id → b.doc.parent id = some parent →
    (b.doc.kind parent).isContainer = true
  top : b.doc.CanHold root
  opened : ∀ entry ∈ b.opened, b.doc.CanHold entry.1

/-- A change of a builder that takes no container away. -/
structure Keeps (b b' : Builder) : Prop where
  sound : b'.IsSound
  holds : ∀ id, b.doc.CanHold id → b'.doc.CanHold id

namespace Keeps

theorem refl (sound : b.IsSound) : Keeps b b := ⟨sound, fun _ holds => holds⟩

theorem trans (first : Keeps b b') (second : Keeps b' b'') : Keeps b b'' :=
  ⟨second.sound, fun id holds => second.holds id (first.holds id holds)⟩

/-- Only the open elements and the reports change. -/
theorem of_doc (sound : b.IsSound) (same : b'.doc = b.doc)
    (opened : ∀ entry ∈ b'.opened, entry ∈ b.opened ∨ b.doc.CanHold entry.1) : Keeps b b' where
  sound := by
    refine ⟨same ▸ sound.linked, same ▸ sound.hung, same ▸ sound.top, fun entry member => ?_⟩
    rw [same]
    exact (opened entry member).elim (sound.opened entry) (fun holds => holds)
  holds id holds := same ▸ holds

end Keeps

theorem isSound_empty : Builder.empty.IsSound where
  linked := wellLinked_empty
  hung _ parent _ _ := by
    rw [Builder.empty, kind_empty]
    rfl
  top := ⟨wellLinked_empty.root_live, rfl⟩
  opened := List.forall_mem_nil _

theorem canHold_current (sound : b.IsSound) : b.doc.CanHold b.current := by
  unfold current
  cases split : b.opened with
  | nil => exact sound.top
  | cons entry rest => exact sound.opened entry (by simp [split])

theorem live_current (sound : b.IsSound) : b.doc.IsLive b.current := (canHold_current sound).live

theorem keeps_report (sound : b.IsSound) (position : Position) (problem : Problem) :
    Keeps b (b.report position problem) := .of_doc sound rfl fun _ member => .inl member

theorem keeps_push (sound : b.IsSound) (holds : b.doc.CanHold id) (tag : String) :
    Keeps b (b.push id tag) := by
  refine .of_doc sound rfl fun entry member => ?_
  rcases List.mem_cons.mp member with rfl | member
  · exact .inr holds
  · exact .inl member

/-- A node of which all that was there is as it was is new in a document. -/
theorem Keeps.of_new {doc : Document} {fresh parent : NodeId} (sound : b.IsSound)
    (linked : doc.WellLinked) (live : ∀ id, doc.IsLive id ↔ id = fresh ∨ b.doc.IsLive id)
    (kinds : ∀ id, b.doc.IsLive id → doc.kind id = b.doc.kind id)
    (parents : ∀ id, b.doc.IsLive id → doc.parent id = b.doc.parent id)
    (above : doc.parent fresh = some parent) (holds : b.doc.CanHold parent) :
    Keeps b { b with doc } := by
  have kept : ∀ id, b.doc.CanHold id → doc.CanHold id := fun id holds =>
    ⟨(live id).mpr (.inr holds.live), by rw [kinds id holds.live, holds.container]⟩
  refine ⟨⟨linked, fun id host live' hangs => ?_, kept root sound.top,
    fun entry member => kept _ (sound.opened entry member)⟩, kept⟩
  show (doc.kind host).isContainer = true
  rcases (live id).mp live' with rfl | liveI
  · obtain rfl := Option.some.inj (above.symm.trans hangs)
    exact (kept _ holds).container
  · rw [parents id liveI] at hangs
    have liveO := (sound.linked.listed liveI hangs).1
    rw [kinds host liveO]
    exact sound.hung id host liveI hangs

theorem keeps_append (sound : b.IsSound) (holds : b.doc.CanHold parent) (kind : NodeKind) :
    Keeps b (b.append parent kind).2 ∧ (kind.isContainer = true →
      (b.append parent kind).2.doc.CanHold (b.append parent kind).1) := by
  have more : Extended b.doc (b.append parent kind).2.doc parent (b.append parent kind).1 kind :=
    extended_grow sound.linked holds.live kind
  refine ⟨.of_new sound more.linked more.live_iff more.kind_kept more.parent_kept more.parent_new
    holds, fun container => ⟨(more.live_iff _).mpr (.inl rfl), ?_⟩⟩
  rw [more.kind_new, container]

theorem keeps_add (sound : b.IsSound) (kind : NodeKind) : Keeps b (b.add kind) :=
  (keeps_append sound (canHold_current sound) kind).1

theorem canHold_of_childNamed? (sound : b.IsSound) (live : b.doc.IsLive parent) {name : String}
    (found : b.childNamed? parent name = some id) : b.doc.CanHold id where
  live := sound.linked.live_of_mem_children live (List.mem_of_find?_eq_some found)
  container := by
    have named := List.find?_some found
    rw [Bool.and_eq_true] at named
    exact NodeKind.isContainer_of_isElement named.1

theorem keeps_html (sound : b.IsSound) : Keeps b b.html.2 ∧ b.html.2.doc.CanHold b.html.1 := by
  unfold html
  cases found : b.childNamed? root "html" with
  | some id => exact ⟨.refl sound, canHold_of_childNamed? sound sound.linked.root_live found⟩
  | none =>
    have ⟨kept, holds⟩ := keeps_append sound sound.top (.plainElement "html")
    refine ⟨kept.trans (.of_doc kept.sound rfl fun entry member => ?_), holds rfl⟩
    rcases List.mem_append.mp member with member | member
    · exact .inl member
    · exact .inr (List.mem_singleton.mp member ▸ holds rfl)

/-- A new node is placed before a child of a container. -/
theorem keeps_insert (sound : b.IsSound) (holds : b.doc.CanHold parent) {reference : NodeId}
    (member : reference ∈ b.doc.children parent) (kind : NodeKind)
    (container : kind.isContainer = true) :
    Keeps b { b with doc := (b.doc.create kind).2.insertBefore reference (b.doc.create kind).1 } ∧
      ((b.doc.create kind).2.insertBefore reference (b.doc.create kind).1).CanHold
        (b.doc.create kind).1 := by
  have made := created kind sound.linked
  have linked := sound.linked.create kind
  obtain ⟨live, above⟩ := sound.linked.child holds.live member
  have liveR := made.live_of_live live
  have above' : (b.doc.create kind).2.parent reference = some parent :=
    (made.parent_kept live).trans above
  have use := linked.sameUse_insertBefore liveR made.live made.parent_eq
  obtain ⟨liveP, listed⟩ := linked.listed liveR above'
  obtain ⟨before, after, split⟩ := List.append_of_mem listed
  have inserted := inserted_insertBefore linked liveP made.live made.parent_eq split
  have linked' := linked.insertBefore liveR made.live made.parent_eq
    (made.ne_of_live sound.linked.root_live).symm (made.not_mem_ancestors sound.linked live)
  refine ⟨.of_new sound linked' (fun id => use.live_iff.trans (made.live_iff id))
    (fun id live => kind_insertBefore.trans (made.kind_kept live)) (fun id live => ?_) ?_ holds,
    use.live_iff.mpr made.live, ?_⟩
  · rw [inserted.parent_eq id (made.live_of_live live), if_neg (made.ne_of_live live),
      made.parent_kept live]
  · rw [inserted.parent_eq _ made.live, if_pos rfl]
  · rw [kind_insertBefore, made.kind_eq, container]

theorem keeps_head (sound : b.IsSound) : Keeps b b.head.2 ∧ b.head.2.doc.CanHold b.head.1 := by
  have ⟨kept, holds⟩ := keeps_html sound
  unfold head
  cases found : b.html.2.childNamed? b.html.1 "head" with
  | some id => simpa [found] using ⟨kept, canHold_of_childNamed? kept.sound holds.live found⟩
  | none =>
    cases body : b.html.2.childNamed? b.html.1 "body" with
    | some id =>
      have ⟨inserted, holdsN⟩ := keeps_insert kept.sound holds (List.mem_of_find?_eq_some body)
        (.plainElement "head") rfl
      simpa [found, body] using ⟨kept.trans inserted, holdsN⟩
    | none =>
      have ⟨appended, holdsN⟩ := keeps_append kept.sound holds (.plainElement "head")
      simpa [found, body] using ⟨kept.trans appended, holdsN rfl⟩

theorem keeps_openHead (sound : b.IsSound) :
    Keeps b b.openHead.2 ∧ b.openHead.2.doc.CanHold b.openHead.1 := by
  have ⟨kept, holds⟩ := keeps_head sound
  unfold openHead
  by_cases isOpen : b.head.2.isOpen "head" = true
  · simpa [isOpen] using ⟨kept, holds⟩
  · simpa [isOpen] using ⟨kept.trans (keeps_push kept.sound holds "head"), holds⟩

theorem keeps_closeHead (sound : b.IsSound) : Keeps b b.closeHead := by
  refine .of_doc sound rfl fun entry member => .inl ?_
  have listed := (List.takeWhile_sublist _).mem (List.mem_reverse.mp member)
  exact List.mem_reverse.mp listed

theorem keeps_body (sound : b.IsSound) : Keeps b b.body.2 ∧ b.body.2.doc.CanHold b.body.1 := by
  have ⟨kept, holds⟩ := keeps_html sound
  unfold body
  cases found : b.html.2.childNamed? b.html.1 "body" with
  | some id => simpa [found] using ⟨kept, canHold_of_childNamed? kept.sound holds.live found⟩
  | none =>
    have ⟨appended, holdsN⟩ := keeps_append kept.sound holds (.plainElement "body")
    have closed := keeps_closeHead appended.sound
    simpa [found] using ⟨(kept.trans appended).trans
      (closed.trans (keeps_push closed.sound (closed.holds _ (holdsN rfl)) "body")), holdsN rfl⟩

/-! ## Tokens -/

theorem keeps_setAttribute (sound : b.IsSound) (live : b.doc.IsLive id) (attr : Attribute) :
    Keeps b { b with doc := b.doc.setAttribute id attr } := by
  have same : SameLinks b.doc (b.doc.setAttribute id attr) := .modifyAttributes live _
  have kinds : ∀ other, ((b.doc.setAttribute id attr).kind other).isContainer =
      (b.doc.kind other).isContainer := isContainer_modifyAttributes _
  have kept : ∀ other, b.doc.CanHold other → (b.doc.setAttribute id attr).CanHold other :=
    fun other holds => ⟨same.use.live_iff.mpr holds.live, (kinds other).trans holds.container⟩
  refine ⟨⟨same.wellLinked sound.linked, fun other parent live hangs => ?_, kept root sound.top,
    fun entry member => kept _ (sound.opened entry member)⟩, kept⟩
  rw [same.parent] at hangs
  exact (kinds parent).trans (sound.hung other parent (same.use.live_iff.mp live) hangs)

theorem keeps_addMissing (sound : b.IsSound) (holds : b.doc.CanHold id)
    (attributes : List Attribute) :
    Keeps b { b with doc := addMissing b.doc id attributes } := by
  induction attributes generalizing b with
  | nil => exact .refl sound
  | cons attr rest ih =>
    rw [addMissing, List.foldl_cons]
    split
    · exact ih sound holds
    · have kept := keeps_setAttribute sound holds.live attr
      exact kept.trans (ih kept.sound (kept.holds id holds))

theorem keeps_merge {found : NodeId × Builder} (kept : Keeps b found.2)
    (holds : found.2.doc.CanHold found.1) (attributes : List Attribute) :
    Keeps b (merge attributes found) := kept.trans (keeps_addMissing kept.sound holds attributes)

theorem keeps_placeStructural (sound : b.IsSound) (position : Position) (tag : String)
    (attributes : List Attribute) : Keeps b (b.placeStructural position tag attributes) := by
  unfold placeStructural
  split
  · exact keeps_merge (keeps_html sound).1 (keeps_html sound).2 attributes
  · split
    · exact keeps_merge (keeps_body sound).1 (keeps_body sound).2 attributes
    · split
      · exact keeps_report sound position _
      · exact keeps_merge (keeps_openHead sound).1 (keeps_openHead sound).2 attributes

theorem keeps_closeEnded (sound : b.IsSound) (tag : String) : Keeps b (b.closeEnded tag) :=
  .of_doc sound rfl fun _ member => .inl ((List.dropWhile_sublist _).mem member)

theorem keeps_prepare (sound : b.IsSound) (tag : String) : Keeps b (b.prepare tag) := by
  unfold prepare
  split
  · exact (keeps_openHead sound).1
  · exact (keeps_body sound).1

theorem keeps_placeElement (sound : b.IsSound) {options : ParseOptions} {position : Position}
    {tag rawText : String} {attributes : List Attribute} {closed : Bool}
    (placed : placeElement options b position tag attributes closed rawText = .ok b') :
    Keeps b b' := by
  unfold placeElement at placed
  dsimp only at placed
  have ended := keeps_closeEnded sound tag
  have ready : Keeps b (if options.noImplied then b.closeEnded tag
      else (b.closeEnded tag).prepare tag) := by
    split
    · exact ended
    · exact ended.trans (keeps_prepare ended.sound tag)
  generalize (if options.noImplied then b.closeEnded tag
    else (b.closeEnded tag).prepare tag) = prepared at placed ready
  have ⟨appended, holds⟩ := keeps_append ready.sound (canHold_current ready.sound)
    (.element (Cursor.splitName tag) none attributes)
  have kept := ready.trans appended
  split at placed
  · simp at placed
  · split at placed
    · exact Except.ok.inj placed ▸ kept
    · split at placed
      · obtain rfl := Except.ok.inj placed
        split
        · exact kept
        · exact kept.trans (keeps_append appended.sound (holds rfl) _).1
      · exact Except.ok.inj placed ▸ kept.trans (keeps_push appended.sound (holds rfl) tag)

/-- Reports change nothing of the document. -/
theorem keeps_reports {α : Type} (sound : b.IsSound) (entries : List α)
    (step : Builder → α → Builder) (only : ∀ b entry, (step b entry).doc = b.doc ∧
      (step b entry).opened = b.opened) : Keeps b (entries.foldl step b) := by
  induction entries generalizing b with
  | nil => exact .refl sound
  | cons entry rest ih =>
    have kept : Keeps b (step b entry) :=
      .of_doc sound (only b entry).1 fun _ member => .inl ((only b entry).2 ▸ member)
    exact kept.trans (ih kept.sound)

theorem keeps_placeEnd (sound : b.IsSound) (options : ParseOptions) (position : Position)
    (tag : String) : Keeps b (placeEnd options b position tag) := by
  unfold placeEnd
  split
  · exact keeps_report sound position _
  · split
    · exact .refl sound
    · split
      · exact keeps_report sound position _
      · next inner entry outer split =>
        have kept : Keeps b { b with opened := outer } := by
          refine .of_doc sound rfl fun entry member => .inl ?_
          rw [List.span_eq_takeWhile_dropWhile, Prod.mk.injEq] at split
          have inside : outer ⊆ b.opened := by
            have kept := (List.dropWhile_sublist (fun x => x.2 != tag) (l := b.opened)).subset
            rw [split.2] at kept
            exact fun entry member => kept (List.mem_cons_of_mem _ member)
          exact inside member
        exact kept.trans (keeps_reports kept.sound _ _ fun _ _ => ⟨rfl, rfl⟩)

theorem keeps_placeText (sound : b.IsSound) (options : ParseOptions) (content : String) :
    Keeps b (placeText options b content) := by
  unfold placeText
  have body := (keeps_body sound).1
  simp only
  split_ifs
  · exact .refl sound
  · exact .refl sound
  · exact keeps_add sound _
  · exact body.trans (keeps_add body.sound _)
  · exact .refl sound
  · exact keeps_add sound _

theorem keeps_place (sound : b.IsSound) {options : ParseOptions} {lexeme : Lexeme}
    (placed : place options b lexeme = .ok b') : Keeps b b' := by
  unfold place at placed
  have reported : Keeps b { b with reports := lexeme.reports.reverse ++ b.reports } :=
    .of_doc sound rfl fun _ member => .inl member
  generalize { b with reports := lexeme.reports.reverse ++ b.reports } = b₁ at placed reported
  refine reported.trans ?_
  have sound := reported.sound
  simp only at placed
  split at placed
  · exact Except.ok.inj placed ▸ (keeps_append sound sound.top _).1
  · split at placed
    · exact Except.ok.inj placed ▸ keeps_placeStructural sound _ _ _
    · exact keeps_placeElement sound placed
  · exact Except.ok.inj placed ▸ keeps_placeEnd sound _ _ _
  · exact Except.ok.inj placed ▸ keeps_placeText sound _ _
  · exact Except.ok.inj placed ▸ keeps_add sound _
  · exact Except.ok.inj placed ▸ .refl sound

theorem keeps_places {options : ParseOptions} {lexemes : List Lexeme} (sound : b.IsSound)
    (placed : lexemes.foldlM (place options) b = .ok b') : Keeps b b' := by
  induction lexemes generalizing b with
  | nil => exact Except.ok.inj placed ▸ .refl sound
  | cons lexeme rest ih =>
    rw [List.foldlM_cons] at placed
    obtain ⟨middle, first, later⟩ := bind_eq_ok.mp placed
    have kept := keeps_place sound first
    exact kept.trans (ih kept.sound later)

/-- What is finished is a document that was built, with the reports. -/
theorem exists_of_finish (sound : b.IsSound) {options : ParseOptions} {position : Position}
    {doc : Document} (finished : b.finish options position = .ok doc) :
    ∃ built : Builder, built.IsSound ∧ doc = { built.doc with diagnostics := doc.diagnostics } := by
  unfold finish at finished
  have closed : Keeps b (b.closeAll position) := by
    unfold closeAll
    have kept : Keeps b { b with opened := [] } := .of_doc sound rfl (by simp)
    refine kept.trans (keeps_reports kept.sound _ _ fun b entry => ?_)
    split <;> exact ⟨rfl, rfl⟩
  simp only at finished
  split at finished
  · obtain rfl := Except.ok.inj finished
    exact ⟨_, closed.sound, rfl⟩
  · split at finished
    · simp at finished
    · obtain rfl := Except.ok.inj finished
      exact ⟨_, (keeps_body closed.sound).1.sound, rfl⟩

end Markup.Html.Builder

namespace Markup.Html

open Document

variable {options : ParseOptions} {text : String} {doc : Document}

theorem exists_of_parse (parsed : parse options text = .ok doc) :
    ∃ built : Builder, built.IsSound ∧ doc = { built.doc with diagnostics := doc.diagnostics } := by
  unfold parse at parsed
  dsimp only at parsed
  split at parsed
  · simp at parsed
  · obtain ⟨built, placed, finished⟩ := bind_eq_ok.mp parsed
    have sound := (Builder.keeps_places Builder.isSound_empty placed).sound
    exact Builder.exists_of_finish sound finished

/-- A document that was read leniently has its links in step. -/
theorem wellLinked_parse (parsed : parse options text = .ok doc) : doc.WellLinked := by
  obtain ⟨built, sound, same⟩ := exists_of_parse parsed
  have links : SameLinks built.doc doc := same ▸ .of_slots rfl rfl
  exact links.wellLinked sound.linked

/-- Only containers hold anything in a document that was read leniently. -/
theorem onlyContainersHold_parse (parsed : parse options text = .ok doc) :
    doc.OnlyContainersHold := by
  obtain ⟨built, sound, same⟩ := exists_of_parse parsed
  have links : SameLinks built.doc doc := same ▸ .of_slots rfl rfl
  exact (onlyContainersHold_of_hung sound.linked sound.hung).of_sameLinks links
    fun id => same ▸ rfl

end Markup.Html
