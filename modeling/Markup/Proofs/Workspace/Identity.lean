import Markup.Proofs.Html.Growth
import Markup.Proofs.Store.Turnover
import Markup.Proofs.Workspace.Targets

/-!
# Which node a name stands for

A name stands for one node as long as the document lasts. What is removed is a node with everything
below it, and from then on its names are those of nodes that are gone, whatever takes over their
slots.
-/

/-! ## Documents without freed slots

Whatever is parsed, the document only grows meanwhile. So at first its slots are just its nodes. -/

namespace Markup.Document

variable {doc doc' : Document}

/-- Where no slot is free, none is free after nodes were added. -/
theorem Enlarged.unfreed (enlarged : Enlarged doc doc')
    (kept : ∀ id : NodeId, id.index < doc.slots.size → doc.isRemoved id = false) :
    doc'.free = [] := by
  refine List.eq_nil_iff_forall_not_mem.mpr fun index waits => ?_
  obtain ⟨inside', removed⟩ := (enlarged.pooled.free_iff ⟨index, 0⟩).mp waits
  by_cases inside : index < doc.slots.size
  · rcases enlarged.kept ⟨index, 0⟩ inside with ⟨-, same⟩ | ⟨-, -, kept'⟩
    · rw [same, kept ⟨index, 0⟩ inside] at removed
      cases removed
    · rw [kept'] at removed
      cases removed
  · rw [enlarged.added ⟨index, 0⟩ (by simpa using inside) inside'] at removed
    cases removed

/-- A document that has grown from nothing has no freed slots. -/
theorem unfreed_of_enlarged (enlarged : Enlarged empty doc) : doc.free = [] := by
  apply enlarged.unfreed
  rintro ⟨_ | _ | index, generation⟩ inside
  · rfl
  · rfl
  · exact absurd inside (by simp [empty])

theorem enlarged_empty : Enlarged empty empty := .refl wellLinked_empty.isPooled

theorem unfreed_ofDraft (draft : Xml.DocumentDraft) : (ofDraft draft).free = [] := by
  apply unfreed_of_enlarged
  refine Enlarged.isKept.addDrafts draft.nodes ?_ fun _ _ => .of_all (fun _ => trivial) _
  exact enlarged_empty.congr rfl rfl (fun _ => rfl) fun _ => rfl

theorem unfreed_ofXml {options : Xml.ParseOptions} {text : String}
    (parsed : ofXml options text = .ok doc) : doc.free = [] := by
  obtain ⟨draft, -, rfl⟩ := map_eq_ok.mp parsed
  exact unfreed_ofDraft draft

end Markup.Document

namespace Markup.Html

theorem unfreed_parse {options : ParseOptions} {text : String} {doc : Document}
    (parsed : parse options text = .ok doc) : doc.free = [] := by
  obtain ⟨built, enlarged, same⟩ :=
    kept_parse Document.Enlarged.isKept (fun _ _ => trivial) Document.enlarged_empty parsed
  have unfreed := Document.unfreed_of_enlarged enlarged
  rw [same]
  exact unfreed

end Markup.Html

namespace Markup

open Document

variable {doc : Document} {id : NodeId} {workspace : Workspace} {number : Nat}

/-! ## Histories -/

/-- The documents that runs begin with. -/
inductive IsBeginning : Document → Prop
  | empty : IsBeginning .empty
  | xml {options : Xml.ParseOptions} {text : String} {doc : Document}
      (parsed : ofXml options text = .ok doc) : IsBeginning doc
  | bytes {bytes : List UInt8} {doc : Document} (parsed : ofBytes bytes = .ok doc) :
      IsBeginning doc
  | html {options : Html.ParseOptions} {text : String} {doc : Document}
      (parsed : Html.parse options text = .ok doc) : IsBeginning doc
  | loaded {options : OpenDocument.LoadOptions} {bytes : List UInt8} {opened : OpenDocument}
      (read : OpenDocument.load options bytes = .ok opened) : IsBeginning opened.tree

/-- A beginning is empty or was built by a parser, whatever is known about the text besides. -/
theorem IsBeginning.of_parsed {motive : Document → Prop} (beginning : IsBeginning doc)
    (empty : motive .empty)
    (xml : ∀ {options text doc}, ofXml options text = .ok doc → motive doc)
    (html : ∀ {options text doc}, Html.parse options text = .ok doc → motive doc)
    (besides : ∀ {doc doc' : Document}, motive doc → doc'.slots = doc.slots →
      doc'.free = doc.free → motive doc') : motive doc := by
  cases beginning with
  | empty => exact empty
  | xml parsed => exact xml parsed
  | bytes parsed =>
    unfold ofBytes at parsed
    split at parsed
    · cases parsed
    · obtain ⟨middle, read, rfl⟩ := map_eq_ok.mp parsed
      exact besides (xml read) rfl rfl
  | html parsed => exact html parsed
  | loaded read =>
    unfold OpenDocument.load at read
    split at read
    · cases read
    · split at read
      · cases read
      · obtain ⟨tree, parsed, read⟩ := bind_eq_ok.mp read
        have built : motive tree := by
          unfold OpenDocument.parse at parsed
          split at parsed
          · exact xml parsed
          · exact html parsed
        split at read
        · cases read
        · cases read
          exact besides built rfl rfl

/-- What was parsed is in step, and none of its slots was freed. -/
theorem IsBeginning.sound (beginning : IsBeginning doc) : doc.WellLinked ∧ doc.free = [] :=
  beginning.of_parsed (motive := fun doc => doc.WellLinked ∧ doc.free = []) ⟨wellLinked_empty, rfl⟩
    (fun parsed => ⟨wellLinked_ofXml parsed, unfreed_ofXml parsed⟩)
    (fun parsed => ⟨Html.wellLinked_parse parsed, Html.unfreed_parse parsed⟩)
    fun ⟨linked, unfreed⟩ slots free =>
      ⟨(SameLinks.of_slots slots free).wellLinked linked, free.trans unfreed⟩

/-- Open documents together with what was noted down of one of them. -/
structure History where
  workspace : Workspace
  chronicle : Chronicle

namespace History

variable {history : History}

/-- What is there before anything is done. -/
def start (number : Nat) (workspace : Workspace) : History :=
  ⟨workspace, .start (workspace.tree number)⟩

/-- What is there after one deed. -/
def next (number : Nat) (history : History) (deed : Deed) : History :=
  ⟨deed.effect history.workspace, history.chronicle.note (history.workspace.tree number)
    ((deed.effect history.workspace).tree number)⟩

/-- What is there after several deeds. -/
def after (number : Nat) (history : History) (deeds : List Deed) : History :=
  deeds.foldl (next number) history

/-- Whether each deed may be done when its turn comes. -/
def Admits (number : Nat) : History → List Deed → Prop
  | _, [] => True
  | history, deed :: rest =>
    deed.Admissible number history.workspace ∧ (history.next number deed).Admits number rest

/-- The document is open and in step, and what was noted down of it is all that there was. -/
structure IsAccurate (number : Nat) (history : History) : Prop where
  opened : number < history.workspace.documents.size
  linked : (history.workspace.tree number).WellLinked
  accurate : history.chronicle.IsAccurate (history.workspace.tree number)

theorem isAccurate_start (opened : number < workspace.documents.size)
    (beginning : IsBeginning (workspace.tree number)) :
    (start number workspace).IsAccurate number where
  opened := opened
  linked := beginning.sound.1
  accurate := Chronicle.isAccurate_start beginning.sound.1 beginning.sound.2

theorem isUnworn_of_after (deeds : List Deed)
    (unworn : (history.after number deeds).chronicle.IsUnworn) : history.chronicle.IsUnworn := by
  induction deeds generalizing history with
  | nil => exact unworn
  | cons deed rest ih =>
    have later : ((history.next number deed).after number rest).chronicle.IsUnworn := unworn
    exact (ih later).of_note

theorem admits_append {before later : List Deed} : history.Admits number (before ++ later) ↔
    history.Admits number before ∧ (history.after number before).Admits number later := by
  induction before generalizing history with
  | nil => simp [Admits, after]
  | cons deed rest ih => simp only [List.cons_append, Admits, ih, and_assoc, after, List.foldl_cons]

theorem after_append (before later : List Deed) : history.after number (before ++ later) =
    (history.after number before).after number later := List.foldl_append

namespace IsAccurate

theorem next (accurate : history.IsAccurate number) {deed : Deed}
    (admissible : deed.Admissible number history.workspace)
    (unworn : (history.next number deed).chronicle.IsUnworn) :
    (history.next number deed).IsAccurate number where
  opened := (deed.size_effect _).symm ▸ accurate.opened
  linked := (Deed.changed accurate.linked accurate.opened admissible).linked
  accurate := by
    have changed := Deed.changed accurate.linked accurate.opened admissible
    exact accurate.accurate.note accurate.linked changed.linked changed.turnover unworn

theorem after (accurate : history.IsAccurate number) {deeds : List Deed}
    (admitted : history.Admits number deeds)
    (unworn : (history.after number deeds).chronicle.IsUnworn) :
    (history.after number deeds).IsAccurate number := by
  induction deeds generalizing history with
  | nil => exact accurate
  | cons deed rest ih =>
    exact ih (accurate.next admitted.1 (isUnworn_of_after rest unworn)) admitted.2 unworn

/-- The name of a node that is gone is never that of a node again. -/
theorem not_live_after (accurate : history.IsAccurate number) {deeds : List Deed}
    (admitted : history.Admits number deeds)
    (unworn : (history.after number deeds).chronicle.IsUnworn)
    (known : id ∈ history.chronicle.used) (gone : ¬ (history.workspace.tree number).IsLive id) :
    ¬ ((history.after number deeds).workspace.tree number).IsLive id := by
  induction deeds generalizing history with
  | nil => exact gone
  | cons deed rest ih =>
    have unworn' := isUnworn_of_after rest unworn
    have changed := Deed.changed accurate.linked accurate.opened admitted.1
    refine ih (accurate.next admitted.1 unworn') admitted.2 unworn ?_ fun live' => ?_
    · exact Chronicle.mem_used_note.mpr (.inr known)
    · exact gone (accurate.accurate.not_renewed changed.turnover unworn' known live')

end IsAccurate

end History

/-! ## Names of nodes that are gone -/

/-- A handle whose node is gone: it is refused everything, and nothing can be removed by it. -/
structure Handle.IsVoid (workspace : Workspace) (handle : Handle) : Prop where
  unattached : (workspace.tree handle.document).isAttached handle.node = false
  read : ∀ {α : Type} (look : Document → NodeId → Except Refusal α),
    (handle.read look).run workspace = (.error .gone, workspace)
  edit : ∀ {α : Type} (change : Document → NodeId → Except Refusal (α × Document)),
    (handle.edit change).run workspace = (.error .gone, workspace)
  remove : (workspace.tree handle.document).remove handle.node =
    (0, workspace.tree handle.document)

theorem Handle.isVoid_of_not_live {handle : Handle}
    (linked : (workspace.tree handle.document).WellLinked) (numbered : 0 < handle.node.index)
    (gone : ¬ (workspace.tree handle.document).IsLive handle.node) : handle.IsVoid workspace := by
  have unattached : (workspace.tree handle.document).isAttached handle.node = false :=
    Bool.eq_false_iff.mpr fun attached => gone (linked.live_of_isAttached attached)
  refine ⟨unattached, fun look => ?_, fun change => ?_, WellLinked.remove_stale numbered gone⟩
  · rw [Handle.run_read, unattached]
    rfl
  · rw [Handle.run_edit, unattached]
    rfl

/-! ## Runs -/

namespace History

/-- Where a node's name was taken down and the node is gone, the handle stays void. -/
theorem IsAccurate.isVoid {history : History} (accurate : history.IsAccurate number)
    (known : id ∈ history.chronicle.used) (gone : ¬ (history.workspace.tree number).IsLive id)
    {deeds : List Deed} (admitted : history.Admits number deeds)
    (unworn : (history.after number deeds).chronicle.IsUnworn) :
    Handle.IsVoid (history.after number deeds).workspace ⟨number, id⟩ :=
  Handle.isVoid_of_not_live (accurate.after admitted unworn).linked
    (accurate.accurate.numbered id known) (accurate.not_live_after admitted unworn known gone)

/-- A document is followed from its beginning through any deeds, the document node not removed and
no slot handed out so often that its generations come round. Then no name was given twice nor will
be, and the slots are as many as nodes were ever live at a time. Each deed that removes something
removes its targets with everything below them and moves nothing else. The names of removed nodes
are void ever after. -/
theorem names_never_renewed {start : Workspace} (opened : number < start.documents.size)
    (beginning : IsBeginning (start.tree number)) {deeds : List Deed}
    (admitted : (History.start number start).Admits number deeds)
    (unworn : ((History.start number start).after number deeds).chronicle.IsUnworn) :
    let history := (History.start number start).after number
    let final := history deeds
    let doc := final.workspace.tree number
    (final.chronicle.used.Nodup ∧ ∀ kind,
      final.chronicle.uses (doc.create kind).1.index < 2 ^ 32 →
        (doc.create kind).1 ∉ final.chronicle.used) ∧
    doc.nodeCount = final.chronicle.peak ∧
    ∀ before deed later, deeds = before ++ deed :: later →
      let ahead := history before
      let doc := ahead.workspace.tree number
      let doc' := (deed.effect ahead.workspace).tree number
      let removed := (deed.targets number ahead.workspace).flatMap fun id =>
        id :: doc.descendants id
      (∀ id, doc.IsLive id → (¬ doc'.IsLive id ↔ id ∈ removed)) ∧
      (removed ≠ [] → ∀ id ∈ ahead.chronicle.used, id ∉ removed →
        doc'.isAttached id = doc.isAttached id) ∧
      ∀ id ∈ removed, Handle.IsVoid final.workspace ⟨number, id⟩ := by
  dsimp only
  have initial := isAccurate_start opened beginning
  have final := initial.after admitted unworn
  refine ⟨⟨final.accurate.single, fun kind left => ?_⟩, final.accurate.peak_eq, ?_⟩
  · exact final.accurate.create_not_mem final.linked unworn left
  · rintro before deed later rfl
    obtain ⟨admitted, admissible, rest⟩ := admits_append.mp admitted
    rw [after_append] at unworn ⊢
    have unworn' : (((History.start number start).after number before).next number deed
      |>.after number later).chronicle.IsUnworn := unworn
    have ahead := initial.after admitted (isUnworn_of_after (deed :: later) unworn)
    have behind := ahead.next admissible (isUnworn_of_after later unworn')
    have changed := Deed.changed ahead.linked ahead.opened admissible
    generalize (History.start number start).after number before = history at *
    refine ⟨fun id live => changed.gone_iff ahead.linked live, ?_, ?_⟩
    · intro some id known outside
      have turnover := changed.turnover
      by_cases live : (history.workspace.tree number).IsLive id
      · refine changed.attached_eq (fun none => some (by rw [none]; rfl)) id live ?_
        exact not_not.mp (mt (changed.gone_iff ahead.linked live).mp outside)
      · have fresh := mt (ahead.accurate.not_renewed turnover
          (isUnworn_of_after later unworn') known) live
        rw [Bool.eq_false_iff.mpr (mt ahead.linked.live_of_isAttached live),
          Bool.eq_false_iff.mpr (mt changed.linked.live_of_isAttached fresh)]
    · intro id member
      have live := changed.live_of_removed ahead.linked member
      have gone := (changed.gone_iff ahead.linked live).mpr member
      have known : id ∈ (history.next number deed).chronicle.used :=
        Chronicle.mem_used_note.mpr (.inr (ahead.accurate.live id live))
      exact behind.isVoid known gone rest unworn'

/-- An element gets a text, loses it and gets another one. -/
def renewal : List Deed :=
  [.tree 0 (.create (.plainElement "a")), .tree 0 (.appendChild root ⟨2, 0⟩),
    .call ⟨0, ⟨2, 0⟩⟩ (.addText "t"), .call ⟨0, ⟨2, 0⟩⟩ .empty, .call ⟨0, ⟨2, 0⟩⟩ (.addText "u")]

/-- The second text takes over the slot of the first one, whose name stays void. -/
theorem names_never_renewed_text :
    let final := (start 0 { documents := #[.ofTree .empty .xml] }).after 0 renewal
    final.chronicle = ⟨[⟨3, 1⟩, ⟨3, 0⟩, ⟨2, 0⟩, root], 3⟩ ∧
    (final.workspace.tree 0).nodeCount = 3 ∧
    (final.workspace.tree 0).isAttached ⟨3, 1⟩ = true ∧
    Handle.IsVoid final.workspace ⟨0, ⟨3, 0⟩⟩ := by
  intro final
  have chronicle : final.chronicle = ⟨[⟨3, 1⟩, ⟨3, 0⟩, ⟨2, 0⟩, root], 3⟩ := by decide
  have unworn : final.chronicle.IsUnworn := fun index => by
    rw [Chronicle.uses, chronicle]
    exact List.countP_le_length.trans (by decide)
  have beginning : IsBeginning
      (Workspace.tree { documents := #[.ofTree .empty .xml] } 0) := .empty
  have admitted : (start 0 { documents := #[.ofTree .empty .xml] }).Admits 0 renewal :=
    ⟨fun _ => trivial, fun _ => by decide, fun _ => by simp, fun _ => by simp, fun _ => by simp,
      trivial⟩
  obtain ⟨-, count, deeds⟩ := names_never_renewed (by decide) beginning admitted unworn
  obtain ⟨-, -, void⟩ := deeds (renewal.take 3) (.call ⟨0, ⟨2, 0⟩⟩ .empty) (renewal.drop 4) rfl
  exact ⟨chronicle, count.trans (by rw [chronicle]), by decide, void ⟨3, 0⟩ (by decide)⟩

end History

end Markup
