import Mathlib
import Markup.Proofs.Workspace.Received
import Markup.Proofs.Workspace.Runs

/-!
# Namespaces through whatever is done with handles

Documents that were parsed strictly and keep to the rules on namespaces are portable, and they stay
so whatever is called on handles and wherever nodes are moved and copied to. So the namespaces that
elements and attributes have are those that their prefixes stand for, and what is written is read
with the same namespaces.

The exception is an insertion that captures elements: the topmost element of what is inserted has a
prefix, it has elements in no namespace below it, and a default namespace is in force where it
goes. Only a topmost element in no namespace is kept out of a default namespace.
-/

namespace Markup

open Document

variable {workspace : Workspace} {number : Nat}

/-! ## What is parsed -/

namespace Document

variable {doc : Document}

/-- Whether no element of a document declares anything that is reserved. -/
def KeepsReserved (doc : Document) : Prop := ∀ id ∈ doc.order, (doc.kind id).KeepsReserved

instance : Decidable doc.KeepsReserved := inferInstanceAs (Decidable (∀ _ ∈ _, _))

theorem portable_empty : empty.Portable ⟨2, 0⟩ := by
  have alone : ∀ {id}, empty.isAttached id = true → id = root := by
    intro id attached
    rw [← wellLinked_empty.mem_order_iff, show empty.order = [root] by decide] at attached
    exact List.mem_singleton.mp attached
  have missing : ¬ empty.IsLive ⟨2, 0⟩ := fun live => by
    have present := live.current
    revert present
    decide
  refine ⟨⟨wellLinked_empty, rfl, fun live => absurd live missing, fun live => absurd live missing,
    fun id within => ?_, fun id attached isElement => ?_⟩, rfl, fun {id} attached handled => ?_,
    fun attached distinct => absurd (alone attached) distinct⟩
  · exact absurd (HasShape.live_of_mem_ancestors wellLinked_empty within.1 _ within.2) missing
  · rw [alone attached] at isElement
    cases isElement
  · rw [alone attached] at handled
    cases handled

/-- A document that was parsed strictly and keeps to the rules on namespaces is portable. -/
theorem exists_portable {options : Xml.ParseOptions} (strict : options.recover = false)
    {text : String} (parsed : ofXml options text = .ok doc)
    (wellFormed : doc.IsNamespaceWellFormed) (reserves : doc.KeepsReserved) :
    ∃ top, doc.Portable top := by
  obtain ⟨top, -, whole, each⟩ := exists_whole_canonical strict parsed wellFormed
  have linked := whole.linked
  have apex : doc.kind root = .document := by
    obtain ⟨draft, -, rfl⟩ := map_eq_ok.mp parsed
    rw [← kind_tree, tree_ofDraft]
    rfl
  have childless : ∀ {id}, doc.isAttached id = true → id ≠ root →
      (doc.kind id).isElement = false → doc.children id = [] := by
    intro id attached distinct plain
    have shown := linked.tree_eq (whole.live attached)
    rcases (each id attached).resolve_left distinct with ⟨-, canonical⟩ | ⟨-, nothing, -⟩
    · rw [shown] at canonical
      exact List.map_eq_nil_iff.mp (canonical.childless plain)
    · rw [shown] at nothing
      exact List.map_eq_nil_iff.mp nothing
  refine ⟨top, whole, by rw [apex]; rfl, fun {id} attached handled => ⟨?_, ?_, ?_⟩, ?_⟩
  · have distinct : id ≠ root := by
      rintro rfl
      rw [apex] at handled
      cases handled
    rcases (each id attached).resolve_left distinct with ⟨above, -⟩ | ⟨-, -, beside⟩
    · exact whole.sound id ⟨whole.live attached, above⟩
    · rw [kind_tree] at beside
      cases kind : doc.kind id with
      | comment content =>
        rw [kind] at beside
        exact beside
      | instruction target data =>
        rw [kind] at beside
        exact beside
      | document => rw [kind] at handled; cases handled
      | doctype => rw [kind] at handled; cases handled
      | _ => rw [kind] at beside; exact beside.elim
  · exact reserves id (linked.mem_order_iff.mpr attached)
  · refine childless attached ?_
    rintro rfl
    rw [apex] at handled
    cases handled
  · exact fun attached distinct unhandled =>
      childless attached distinct (NodeKind.isElement_of_not_hasHandle unhandled)

/-- Whether a document was parsed strictly, whatever its encoding, and keeps to the rules on
namespaces. -/
def IsParsed (doc : Document) : Prop :=
  ∃ options text parsed encoding, options.recover = false ∧ ofXml options text = .ok parsed ∧
    parsed.IsNamespaceWellFormed ∧ parsed.KeepsReserved ∧ doc = { parsed with encoding }

theorem IsParsed.exists_portable (isParsed : doc.IsParsed) : ∃ top, doc.Portable top := by
  obtain ⟨options, text, parsed, encoding, strict, read, wellFormed, reserves, rfl⟩ := isParsed
  obtain ⟨top, portable⟩ := exists_portable strict read wellFormed reserves
  have links : SameLinks parsed { parsed with encoding } := .of_slots rfl rfl
  refine ⟨top, portable.of_stays
    (portable.toWhole.congr links (fun _ => rfl) (fun _ => rfl) fun _ _ sound => sound) portable.apex
    fun other attached => .inr ⟨?_, ⟨rfl, rfl, rfl⟩, fun _ childless => ?_, fun sound => sound⟩⟩
  · rwa [links.isAttached_eq] at attached
  · rw [links.children_eq, childless]

/-- The root element is the one below which all elements are. -/
theorem Whole.eq_of_rootElement? {top other : NodeId} (whole : doc.Whole top)
    (found : doc.rootElement? = some other) : other = top := by
  have linked := whole.linked
  rw [rootElement?] at found
  have isElement := List.find?_some found
  obtain ⟨live, hung⟩ := linked.child linked.root_live (List.mem_of_find?_eq_some found)
  have above := whole.single other (linked.isAttached_of_hung live hung) isElement
  rw [HasShape.ancestors_of_parent linked live hung,
    HasShape.ancestors_of_top linked linked.root_live linked.root_top] at above
  rcases List.mem_cons.mp above with same | isRoot
  · exact same.symm
  · obtain rfl := List.mem_singleton.mp isRoot
    have element := whole.element linked.root_live
    rw [whole.plain] at element
    cases element

/-! ## Two documents that are parsed -/

section

open Xml Xml.Reader

/-- An element in a default namespace. -/
def defaulted : Document :=
  ofDraft ⟨none, none, none, [],
    [.written (.element ⟨none, "r"⟩ (some "d") [⟨⟨none, "xmlns"⟩, none, "d"⟩]) []]⟩

/-- An element with a prefix, and in it an element in no namespace. -/
def prefixed : Document :=
  ofDraft ⟨none, none, none, [],
    [.written (.element ⟨some "p", "a"⟩ (some "u") [⟨⟨some "xmlns", "p"⟩, none, "u"⟩])
      [.written (.element ⟨none, "b"⟩ none []) []]]⟩

-- The loops over attributes and content do not unfold inside other readers, so their results are
-- put together round by round.
theorem ofXml_defaulted : ofXml {} "<r xmlns=\"d\"/>" = .ok defaulted := by
  let cx : Context := ⟨{}, .empty, []⟩
  let named : Reader := ⟨" xmlns=\"d\"/>".toList, ⟨1, 3, 2⟩, none, ⟨[], 0⟩⟩
  let listed : Reader := ⟨"/>".toList, ⟨1, 13, 12⟩, none, ⟨[], 0⟩⟩
  have name : ((Reader.ofText "<r xmlns=\"d\"/>").skipBlanks.skipBlanks.skip 1).name cx.options =
      .ok ("r", named) := by cbv
  have attr : named.skipBlanks.attr cx = .ok (⟨⟨none, "xmlns"⟩, none, "d"⟩, listed) := by cbv
  have attrs : Reader.attributes cx named [] = .ok ([⟨⟨none, "xmlns"⟩, none, "d"⟩], listed) := by
    rw [attributes_cons (by rfl) (by rfl) attr List.not_mem_nil]
    cbv
  have tag : (Reader.ofText "<r xmlns=\"d\"/>").skipBlanks.skipBlanks.startTag cx 1 .initial =
      .ok (⟨⟨none, "r"⟩, some "d", [⟨⟨none, "xmlns"⟩, none, "d"⟩],
        Scope.initial.declare [⟨⟨none, "xmlns"⟩, none, "d"⟩], true⟩,
        ⟨[], ⟨1, 15, 14⟩, none, ⟨[], 0⟩⟩) := by
    rw [startTag, if_neg (by decide)]
    exact bind_eq_ok.mpr ⟨_, expect_eq_ok (by rfl), bind_eq_ok.mpr
      ⟨_, name, bind_eq_ok.mpr ⟨_, attrs, rfl⟩⟩⟩
  have start : isNameStart 'r' = true := by decide
  exact map_eq_ok.mpr ⟨_, parse_eq_ok start (by rfl) (bind_eq_ok.mpr ⟨_, tag, rfl⟩) rfl, rfl⟩

theorem ofXml_prefixed : ofXml {} "<p:a xmlns:p=\"u\"><b/></p:a>" = .ok prefixed := by
  let cx : Context := ⟨{}, .empty, []⟩
  let scope := Scope.initial.declare [⟨⟨some "xmlns", "p"⟩, none, "u"⟩]
  let named : Reader := ⟨" xmlns:p=\"u\"><b/></p:a>".toList, ⟨1, 5, 4⟩, none, ⟨[], 0⟩⟩
  let listed : Reader := ⟨"><b/></p:a>".toList, ⟨1, 17, 16⟩, none, ⟨[], 0⟩⟩
  let opened : Reader := ⟨"<b/></p:a>".toList, ⟨1, 18, 17⟩, none, ⟨[], 0⟩⟩
  let closing : Reader := ⟨"</p:a>".toList, ⟨1, 22, 21⟩, none, ⟨[], 0⟩⟩
  have name : ((Reader.ofText "<p:a xmlns:p=\"u\"><b/></p:a>").skipBlanks.skipBlanks.skip 1).name
      cx.options = .ok ("p:a", named) := by cbv
  have attr : named.skipBlanks.attr cx = .ok (⟨⟨some "xmlns", "p"⟩, none, "u"⟩, listed) := by cbv
  have attrs : Reader.attributes cx named [] = .ok ([⟨⟨some "xmlns", "p"⟩, none, "u"⟩], listed) := by
    rw [attributes_cons (by rfl) (by rfl) attr List.not_mem_nil]
    cbv
  have tag : (Reader.ofText "<p:a xmlns:p=\"u\"><b/></p:a>").skipBlanks.skipBlanks.startTag cx 1
      .initial = .ok (⟨⟨some "p", "a"⟩, some "u", [⟨⟨some "xmlns", "p"⟩, none, "u"⟩], scope, false⟩,
        opened) := by
    rw [startTag, if_neg (by decide)]
    exact bind_eq_ok.mpr ⟨_, expect_eq_ok (by rfl), bind_eq_ok.mpr
      ⟨_, name, bind_eq_ok.mpr ⟨_, attrs, rfl⟩⟩⟩
  have item : opened.item cx ⟨1, scope⟩ = .ok (.leaf (.element ⟨none, "b"⟩ none []), closing) := by
    let bare : Reader := ⟨"/></p:a>".toList, ⟨1, 20, 19⟩, none, ⟨[], 0⟩⟩
    have name : (opened.skip 1).name cx.options = .ok ("b", bare) := by cbv
    have attrs : Reader.attributes cx bare [] = .ok ([], bare) := by cbv
    have tag : opened.startTag cx 2 scope = .ok (⟨⟨none, "b"⟩, none, [], scope, true⟩, closing) := by
      rw [startTag, if_neg (by decide)]
      exact bind_eq_ok.mpr ⟨_, expect_eq_ok (by rfl), bind_eq_ok.mpr
        ⟨_, name, bind_eq_ok.mpr ⟨_, attrs, rfl⟩⟩⟩
    exact bind_eq_ok.mpr ⟨_, tag, rfl⟩
  have inside : content cx ⟨1, scope⟩ opened [] [] .empty =
      .ok ([.written (.element ⟨none, "b"⟩ none []) []], closing) := by
    rw [content_markup (by rfl), if_neg (by decide)]
    refine bind_eq_ok.mpr ⟨_, item, ?_⟩
    dsimp only
    rw [content_markup (by rfl), if_pos (by decide)]
    rfl
  have ended : closing.endTag cx.options ⟨some "p", "a"⟩ = .ok ⟨[], ⟨1, 28, 27⟩, none, ⟨[], 0⟩⟩ := by
    cbv
  have start : isNameStart 'p' = true := by decide
  exact map_eq_ok.mpr ⟨_, parse_eq_ok start (by rfl) (bind_eq_ok.mpr
    ⟨_, tag, bind_eq_ok.mpr ⟨_, inside, bind_eq_ok.mpr ⟨_, ended, rfl⟩⟩⟩) rfl, rfl⟩

theorem isParsed_defaulted : defaulted.IsParsed :=
  ⟨{}, _, _, _, rfl, ofXml_defaulted, by decide, by decide, rfl⟩

theorem isParsed_prefixed : prefixed.IsParsed :=
  ⟨{}, _, _, _, rfl, ofXml_prefixed, by decide, by decide, rfl⟩

end

end Document

/-! ## Deeds on handles -/

namespace Deed

/-- Whether a deed is done through handles of nodes that can have one. -/
def IsOnHandles (workspace : Workspace) : Deed → Prop
  | tree .. => False
  | call .. => True
  | insert _ node _ =>
    (workspace.tree node.document).isAttached node.node = true →
      ((workspace.tree node.document).kind node.node).hasHandle = true

/-- Whether a deed inserts an element with a prefix where a default namespace is in force, with an
element below it that has no prefix, is in no namespace and is not kept out of that one. -/
def Captures (workspace : Workspace) : Deed → Prop
  | insert handle node placement =>
    (workspace.tree handle.document).isAttached handle.node = true ∧
      (workspace.tree node.document).isAttached node.node = true ∧
      ((workspace.tree node.document).kind node.node).nsPrefix?.isSome = true ∧
      ((workspace.tree node.document).tree node.node).isExposed = true ∧
      ∃ host, (workspace.tree handle.document).host? handle.node placement = some host ∧
        ((workspace.tree handle.document).namespaceOf? host none).isSome = true
  | _ => False

end Deed

namespace Workspace

/-- The open documents after several deeds. -/
def afterDeeds (workspace : Workspace) (deeds : List Deed) : Workspace :=
  deeds.foldl Deed.effect workspace

/-- Whether each deed, when its turn comes, is one on handles that captures nothing. -/
def Admits : Workspace → List Deed → Prop
  | _, [] => True
  | workspace, deed :: rest =>
    deed.IsOnHandles workspace ∧ ¬ deed.Captures workspace ∧ (deed.effect workspace).Admits rest

/-- Whether the documents of a workspace are portable or have nothing left in their trees. -/
def IsPortable (workspace : Workspace) : Prop :=
  ∀ number, (∃ top, (workspace.tree number).Portable top) ∨
    ∀ id, (workspace.tree number).isAttached id = false

/-- A document that something is done to has a tree to do it to. -/
theorem IsPortable.exists_top (portable : workspace.IsPortable) {id : NodeId}
    (attached : (workspace.tree number).isAttached id = true) :
    ∃ top, (workspace.tree number).Portable top := by
  refine (portable number).resolve_right fun nothing => ?_
  rw [nothing] at attached
  cases attached

theorem IsPortable.follow (portable : workspace.IsPortable) {other : Nat}
    {outcome : Except Refusal Document} (after : ∀ changed, outcome = .ok changed →
      (∃ top, changed.Portable top) ∨ ∀ id, changed.isAttached id = false) :
    (workspace.follow other outcome).IsPortable := fun number =>
  follow_elim (motive := fun doc => (∃ top, doc.Portable top) ∨ ∀ id, doc.isAttached id = false)
    (portable number) fun changed _ done => after changed done

/-- A deed on handles that captures nothing leaves all documents portable. -/
theorem IsPortable.effect (portable : workspace.IsPortable) {deed : Deed}
    (handled : deed.IsOnHandles workspace) (free : ¬ deed.Captures workspace) :
    (deed.effect workspace).IsPortable := by
  cases deed with
  | tree => exact handled.elim
  | call handle mutation =>
    rw [Deed.effect, Mutation.effect_call]
    refine portable.follow fun changed done => ?_
    rw [Handle.outcome] at done
    split at done
    · rename_i attached
      obtain ⟨top, portable⟩ := portable.exists_top attached
      exact (portable.change attached done).imp_left fun portable => ⟨top, portable⟩
    · cases done
  | insert handle node placement =>
    have safe : (workspace.tree handle.document).isAttached handle.node = true →
        (workspace.tree node.document).isAttached node.node = true →
        ∀ host, (workspace.tree handle.document).host? handle.node placement = some host →
          ((workspace.tree node.document).tree node.node).isExposed = true →
          ((workspace.tree node.document).kind node.node).nsPrefix?.isSome = true →
            (workspace.tree handle.document).namespaceOf? host none = none := by
      intro attached attached' host hosted exposed prefixed
      refine Option.not_isSome_iff_eq_none.mp fun inForce => free ?_
      exact ⟨attached, attached', prefixed, exposed, host, hosted, inForce⟩
    rw [Deed.effect]
    by_cases same : handle.document = node.document
    · rw [Handle.effect_insert_same same]
      refine portable.follow fun changed done => .inl ?_
      rw [Handle.outcome] at done
      split at done
      · rename_i attached
        obtain ⟨top, portable⟩ := portable.exists_top attached
        have attachedN : (workspace.tree handle.document).isAttached node.node = true := by
          obtain ⟨passed, checked, -⟩ := bind_eq_ok.mp done
          exact of_demand checked
        rw [Deed.IsOnHandles, ← same] at handled
        rw [← same] at safe
        exact ⟨top, portable.move attached (handled attachedN) (safe attached attachedN) done⟩
      · cases done
    · rw [Handle.effect_insert_other same]
      split
      · rename_i attachedN
        refine portable.follow fun changed done => .inl ?_
        rw [Handle.outcome] at done
        split at done
        · rename_i attached
          obtain ⟨⟨copy, doc⟩, copied, rfl⟩ := map_eq_ok.mp done
          obtain ⟨top', giving⟩ := portable.exists_top attachedN
          obtain ⟨top, portable⟩ := portable.exists_top attached
          exact ⟨top, portable.copyIn giving attached attachedN (handled attachedN)
            (safe attached attachedN) copied⟩
        · cases done
      · exact portable

theorem IsPortable.afterDeeds (portable : workspace.IsPortable) {deeds : List Deed}
    (admitted : workspace.Admits deeds) : (workspace.afterDeeds deeds).IsPortable := by
  induction deeds generalizing workspace with
  | nil => exact portable
  | cons deed rest ih =>
    obtain ⟨handled, free, later⟩ := admitted
    exact ih (portable.effect handled free) later

/-- Documents that were parsed strictly and keep to the rules on namespaces are portable, and so is
what is there where no document is open. -/
theorem isPortable_of_parsed
    (parsed : ∀ number < workspace.documents.size, (workspace.tree number).IsParsed) :
    workspace.IsPortable := by
  intro number
  by_cases opened : number < workspace.documents.size
  · exact .inl (parsed number opened).exists_portable
  · exact .inl ⟨_, tree_of_size_le (Nat.le_of_not_lt opened) ▸ portable_empty⟩

/-- A deed that captures elements is refused, or it leaves a document that is not consistent. -/
theorem IsPortable.captured (portable : workspace.IsPortable) {deed : Deed}
    (captures : deed.Captures workspace) : deed.effect workspace = workspace ∨
      ∃ number, ¬ ((deed.effect workspace).tree number).IsNamespaceConsistent := by
  cases deed with
  | tree => exact captures.elim
  | call => exact captures.elim
  | insert handle node placement =>
    obtain ⟨attached, attachedN, prefixed, exposed, host, hosted, inForce⟩ := captures
    obtain ⟨top, giving⟩ := portable.exists_top attachedN
    obtain ⟨_, receiving⟩ := portable.exists_top attached
    have linked := receiving.linked
    rw [Deed.effect]
    by_cases same : handle.document = node.document
    · rw [Handle.effect_insert_same same, Handle.outcome, if_pos attached]
      refine (workspace.follow_cases _ _).imp_right fun done => ⟨handle.document, ?_⟩
      obtain ⟨changed, moved, here⟩ := done
      rw [here]
      obtain ⟨host', middle, -, hosted', -, arrived, rfl⟩ :=
        exists_arrived_of_move linked attached moved
      obtain rfl := Option.some.inj (hosted.symm.trans hosted')
      rw [← same] at giving attachedN prefixed exposed
      exact giving.captured attachedN arrived exposed prefixed inForce
    · rw [Handle.effect_insert_other same, if_pos attachedN, Handle.outcome, if_pos attached]
      refine (workspace.follow_cases _ _).imp_right fun done => ⟨handle.document, ?_⟩
      obtain ⟨changed, done, here⟩ := done
      rw [here]
      obtain ⟨⟨copy, doc⟩, copied, rfl⟩ := map_eq_ok.mp done
      obtain ⟨host', middle, hosted', -, arrived, rfl⟩ :=
        exists_arrived_of_copyIn linked attached copied
      obtain rfl := Option.some.inj (hosted.symm.trans hosted')
      exact giving.captured attachedN arrived exposed prefixed inForce

/-- Documents of which each is portable or empty are consistent. -/
theorem IsPortable.isNamespaceConsistent (portable : workspace.IsPortable) (number : Nat) :
    (workspace.tree number).IsNamespaceConsistent := by
  rcases portable number with ⟨top, portable⟩ | nothing
  · exact portable.isNamespaceConsistent
  · intro id name uri attributes attached
    rw [nothing] at attached
    cases attached

/-- Documents were parsed strictly and keep to the rules on namespaces. Then, whatever is done with
handles, as long as no insertion captures elements, the namespaces of all elements and attributes are
those that their prefixes stand for. A root element has a text, and this is parsed with the same
elements, their namespaces and attributes included, once the limits are wide enough. An insertion
that captures elements is the one thing that ends this, unless it is refused. -/
theorem namespaces_consistent_after {start : Workspace}
    (parsed : ∀ number < start.documents.size, (start.tree number).IsParsed) {deeds : List Deed}
    (admitted : start.Admits deeds) :
    (∀ number, ((start.afterDeeds deeds).tree number).IsNamespaceConsistent ∧
      ∀ top, ((start.afterDeeds deeds).tree number).isAttached top = true →
        ((start.afterDeeds deeds).tree number).rootElement? = some top →
        ∃ written, (Handle.markup ⟨number, top⟩).run (start.afterDeeds deeds) =
            (.ok written, start.afterDeeds deeds) ∧
          ∃ bound, ∀ wider : Xml.ParseOptions, bound ≤ wider.maxDepth →
            bound ≤ wider.maxNameLength → bound ≤ wider.maxTextLength →
            ∃ again other, ofXml wider written = .ok again ∧ again.rootElement? = some other ∧
              (again.tree other).elements =
                (((start.afterDeeds deeds).tree number).tree top).elements) ∧
    ∀ deed : Deed, deed.IsOnHandles (start.afterDeeds deeds) →
      ((∀ number, ((deed.effect (start.afterDeeds deeds)).tree number).IsNamespaceConsistent) ↔
        (deed.Captures (start.afterDeeds deeds) →
          deed.effect (start.afterDeeds deeds) = start.afterDeeds deeds)) := by
  have final := (isPortable_of_parsed parsed).afterDeeds admitted
  generalize start.afterDeeds deeds = final' at *
  refine ⟨fun number => ⟨final.isNamespaceConsistent number, fun top attached found => ?_⟩,
    fun deed handled => ⟨fun consistent captures => ?_, fun refused => ?_⟩⟩
  · obtain ⟨other, portable⟩ := final.exists_top attached
    obtain rfl := portable.eq_of_rootElement? found
    exact ⟨_, Handle.run_markup attached, portable.exists_reread attached⟩
  · exact (final.captured captures).resolve_right (not_exists_not.mpr consistent)
  · by_cases captures : deed.Captures final'
    · rw [refused captures]
      exact final.isNamespaceConsistent
    · exact (final.effect handled captures).isNamespaceConsistent

/-- An element in a default namespace and one with a prefix. -/
def twoParsed : Workspace :=
  { documents := #[.ofTree defaulted .xml, .ofTree prefixed .xml] }

theorem isParsed_twoParsed : ∀ number < twoParsed.documents.size, (twoParsed.tree number).IsParsed
  | 0, _ => isParsed_defaulted
  | 1, _ => isParsed_prefixed
  | number + 2, small => absurd small (Nat.not_lt.mpr (Nat.le_add_left 2 number))

/-- An element in no namespace is copied below a default namespace, which is kept out of it. So an
element with a prefix can be copied below it with an element in no namespace. -/
theorem namespaces_consistent_after_copies : ∃ deeds, twoParsed.Admits deeds ∧
    ((twoParsed.afterDeeds deeds).tree 0).IsNamespaceConsistent ∧
    (Handle.markup ⟨0, ⟨2, 0⟩⟩).run (twoParsed.afterDeeds deeds) =
      (.ok "<r xmlns=\"d\"><b xmlns=\"\"><p:a xmlns:p=\"u\"><b/></p:a></b></r>",
        twoParsed.afterDeeds deeds) := by
  let deeds : List Deed :=
    [.insert ⟨0, ⟨2, 0⟩⟩ ⟨1, ⟨3, 0⟩⟩ .lastChild, .insert ⟨0, ⟨3, 0⟩⟩ ⟨1, ⟨2, 0⟩⟩ .lastChild]
  have admitted : twoParsed.Admits deeds := by
    refine ⟨fun _ => by cbv, fun captured => ?_, fun _ => by cbv, fun captured => ?_, trivial⟩
    · exact absurd captured.2.2.1 (by cbv; decide)
    · obtain ⟨-, -, -, -, host, hosted, inForce⟩ := captured
      obtain rfl : (⟨3, 0⟩ : NodeId) = host := Option.some.inj (Eq.trans (by cbv) hosted)
      exact absurd inForce (by cbv; decide)
  exact ⟨deeds, admitted, ((namespaces_consistent_after isParsed_twoParsed admitted).1 0).1, by cbv⟩

/-- When the element with a prefix is copied below the default namespace itself, this captures the
element in no namespace. -/
theorem not_consistent_after_capture :
    (∀ number < twoParsed.documents.size, (twoParsed.tree number).IsParsed) ∧
    ¬ ((twoParsed.afterDeeds [.insert ⟨0, ⟨2, 0⟩⟩ ⟨1, ⟨2, 0⟩⟩ .lastChild]).tree
      0).IsNamespaceConsistent := by
  refine ⟨isParsed_twoParsed, fun consistent => ?_⟩
  have stored := (consistent ⟨4, 0⟩ ⟨none, "b"⟩ none [] (by cbv) (by cbv)).1
  have found : ((twoParsed.afterDeeds [.insert ⟨0, ⟨2, 0⟩⟩ ⟨1, ⟨2, 0⟩⟩ .lastChild]).tree
      0).namespaceOf? ⟨4, 0⟩ none = some "d" := by
    cbv
  cases stored.trans found

end Workspace
end Markup
