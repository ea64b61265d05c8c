import Markup.Proofs.Html.Built
import Markup.Proofs.Store.Nesting

/-!
# The structure of a document under construction

The open elements are the way up from where new nodes go. Outermost stands the `html` element, which
is never closed; inside it either nothing is open, or the head, or the body, which is never closed
either; and all that is open further inside has another tag. An element that never has content is
never open.
-/

namespace Markup

/-- The name of an element. -/
def NodeKind.elementName? : NodeKind → Option QName
  | .element name _ _ => some name
  | _ => none

theorem NodeKind.isElement_eq (kind : NodeKind) : kind.isElement = kind.elementName?.isSome := by
  cases kind <;> rfl

theorem NodeKind.localName?_of_elementName? {kind : NodeKind} {name : QName}
    (named : kind.elementName? = some name) : kind.localName? = some name.localName := by
  cases kind with
  | element => cases named; rfl
  | _ => cases named

namespace Html

open Document

/-- Whether a node is an element that never has content. -/
def isVoidKind (kind : NodeKind) : Bool :=
  kind.elementName?.any fun name => name.nsPrefix.isNone && isVoid name.localName

theorem isVoidKind_of_not_isElement {kind : NodeKind} (other : kind.isElement = false) :
    isVoidKind kind = false := by
  cases kind <;> first | rfl | cases other

/-! ## Documents -/

/-- No element that never has content has any, and no element is nested too deeply. -/
structure IsOrderly (limit : Nat) (doc : Document) : Prop where
  linked : doc.WellLinked
  top : (doc.kind root).isElement = false
  void : ∀ id, doc.IsLive id → isVoidKind (doc.kind id) = true → doc.children id = []
  nests : ∀ id, doc.IsLive id → (doc.kind id).isElement = true → doc.nesting id ≤ limit

namespace IsOrderly

variable {limit : Nat} {doc doc' : Document} {parent : NodeId} {kind : NodeKind}

theorem empty (limit : Nat) : IsOrderly limit .empty where
  linked := wellLinked_empty
  top := by rw [kind_empty]; rfl
  void id _ void := by rw [kind_empty] at void; cases void
  nests id _ element := by rw [kind_empty] at element; cases element

theorem grow (orderly : IsOrderly limit doc) (live : doc.IsLive parent)
    (solid : isVoidKind (doc.kind parent) = false)
    (fits : kind.isElement = true → doc.nesting parent + 1 ≤ limit) :
    IsOrderly limit (doc.grow parent kind) := by
  have more := extended_grow orderly.linked live kind
  refine ⟨more.linked, ?_, fun id live' void => ?_, fun id live' element => ?_⟩
  · rw [more.kind_kept root orderly.linked.root_live]
    exact orderly.top
  · rcases (more.live_iff id).mp live' with rfl | liveI
    · exact more.children_new
    · rw [more.kind_kept id liveI] at void
      have apart : id ≠ parent := by
        rintro rfl
        exact absurd (solid.symm.trans void) Bool.false_ne_true
      rw [more.children_kept id liveI apart]
      exact orderly.void id liveI void
  · rcases (more.live_iff id).mp live' with rfl | liveI
    · rw [more.kind_new] at element
      rw [more.nesting_new orderly.linked live, element]
      exact fits element
    · rw [more.kind_kept id liveI] at element
      rw [more.nesting_kept orderly.linked liveI]
      exact orderly.nests id liveI element

/-- What elements are called is all that matters of them. -/
theorem congr (orderly : IsOrderly limit doc) (same : SameLinks doc doc')
    (names : ∀ id, (doc'.kind id).elementName? = (doc.kind id).elementName?) :
    IsOrderly limit doc' := by
  have elements : ∀ id, (doc'.kind id).isElement = (doc.kind id).isElement := fun id => by
    rw [NodeKind.isElement_eq, NodeKind.isElement_eq, names]
  refine ⟨same.wellLinked orderly.linked, (elements root).trans orderly.top,
    fun id live void => ?_, fun id live element => ?_⟩
  · rw [isVoidKind, names] at void
    rw [same.children_eq]
    exact orderly.void id (same.use.live_iff.mp live) void
  · rw [same.nesting_eq elements]
    exact orderly.nests id (same.use.live_iff.mp live) ((elements id).symm.trans element)

end IsOrderly

namespace Builder

variable {limit : Nat} {b b' : Builder} {id parent : NodeId} {kind : NodeKind} {tag : String}

/-! ## Open elements -/

/-- The open elements are the way up from the innermost one, and each of them may have content. -/
structure IsOrdered (limit : Nat) (b : Builder) : Prop where
  doc : IsOrderly limit b.doc
  live : ∀ entry ∈ b.opened, b.doc.IsLive entry.1
  element : ∀ entry ∈ b.opened, (b.doc.kind entry.1).isElement = true
  solid : ∀ entry ∈ b.opened, isVoidKind (b.doc.kind entry.1) = false
  chain : (b.opened.map (·.1) ++ [root]).IsChain fun child above => b.doc.parent child = some above

namespace IsOrdered

theorem empty (limit : Nat) : IsOrdered limit .empty where
  doc := .empty limit
  live := nofun
  element := nofun
  solid := nofun
  chain := .singleton _

theorem live_current (ordered : IsOrdered limit b) : b.doc.IsLive b.current := by
  unfold current
  cases opened : b.opened with
  | nil => exact ordered.doc.linked.root_live
  | cons entry rest => exact ordered.live entry (by rw [opened]; exact List.mem_cons_self)

/-- New nodes go below one that may have content. -/
theorem solid_current (ordered : IsOrdered limit b) :
    isVoidKind (b.doc.kind b.current) = false := by
  unfold current
  cases opened : b.opened with
  | nil => exact isVoidKind_of_not_isElement ordered.doc.top
  | cons entry rest => exact ordered.solid entry (by rw [opened]; exact List.mem_cons_self)

theorem head?_path (b : Builder) : (b.opened.map (·.1) ++ [root]).head? = some b.current := by
  unfold current
  cases b.opened <;> rfl

/-- The way up from the innermost one of some open elements. -/
theorem ancestors_of_suffix (ordered : IsOrdered limit b) {path : List (NodeId × String)}
    (outer : path <:+ b.opened) :
    ∀ {id}, (path.map (·.1) ++ [root]).head? = some id →
      b.doc.ancestors id = path.map (·.1) ++ [root] := by
  have linked := ordered.doc.linked
  induction path with
  | nil =>
    rintro id ⟨⟩
    exact HasShape.ancestors_of_top linked linked.root_live linked.root_top
  | cons entry rest ih =>
    rintro id ⟨⟩
    have inside : (entry :: rest).map (·.1) ++ [root] <:+ b.opened.map (·.1) ++ [root] := by
      obtain ⟨inner, whole⟩ := outer
      exact ⟨inner.map (·.1), by rw [← whole, List.map_append, List.append_assoc]⟩
    have chain := ordered.chain.suffix inside
    rw [List.map_cons, List.cons_append] at chain
    obtain ⟨next, known⟩ : ∃ next, (rest.map (·.1) ++ [root]).head? = some next := by
      cases rest <;> exact ⟨_, rfl⟩
    have above := ih ((List.suffix_cons entry rest).trans outer) known
    rw [HasShape.ancestors_of_parent linked (ordered.live _ (outer.subset List.mem_cons_self))
      (chain.rel_head? known), above]
    rfl

/-- An open element is nested as deeply as there are open elements from it outwards. -/
theorem nesting_of_suffix (ordered : IsOrdered limit b) {path : List (NodeId × String)}
    (outer : path <:+ b.opened) (innermost : (path.map (·.1) ++ [root]).head? = some id) :
    b.doc.nesting id = path.length := by
  rw [nesting, ordered.ancestors_of_suffix outer innermost, List.countP_append,
    List.countP_singleton, ordered.doc.top, List.countP_map, List.countP_eq_length.mpr]
  · rfl
  · exact fun entry member => ordered.element entry (outer.subset member)

theorem nesting_current (ordered : IsOrdered limit b) :
    b.doc.nesting b.current = b.opened.length :=
  ordered.nesting_of_suffix List.suffix_rfl (head?_path b)

/-- A new node below one that may have content. -/
theorem append (ordered : IsOrdered limit b) (live : b.doc.IsLive parent)
    (solid : isVoidKind (b.doc.kind parent) = false)
    (fits : kind.isElement = true → b.doc.nesting parent + 1 ≤ limit) :
    IsOrdered limit (b.append parent kind).2 := by
  have more : Extended b.doc (b.append parent kind).2.doc parent (b.append parent kind).1 kind :=
    extended_grow ordered.doc.linked live kind
  have kept : ∀ entry ∈ b.opened,
      (b.append parent kind).2.doc.kind entry.1 = b.doc.kind entry.1 :=
    fun entry member => more.kind_kept _ (ordered.live entry member)
  have livePath : ∀ id ∈ b.opened.map (·.1) ++ [root], b.doc.IsLive id := by
    intro id member
    rcases List.mem_append.mp member with inner | top
    · obtain ⟨entry, listed, rfl⟩ := List.mem_map.mp inner
      exact ordered.live entry listed
    · exact List.mem_singleton.mp top ▸ ordered.doc.linked.root_live
  refine ⟨ordered.doc.grow live solid fits,
    fun entry member => (more.live_iff _).mpr (.inr (ordered.live entry member)),
    fun entry member => ?_, fun entry member => ?_, ?_⟩
  · rw [kept entry member]
    exact ordered.element entry member
  · rw [kept entry member]
    exact ordered.solid entry member
  · refine ordered.chain.imp_of_mem_imp fun child above member _ hangs => ?_
    rw [more.parent_kept child (livePath child member)]
    exact hangs

/-- An element right below the innermost open one is opened. -/
theorem reopen (ordered : IsOrdered limit b) (inside : id ∈ b.doc.elements b.current)
    (solid : isVoidKind (b.doc.kind id) = false) : IsOrdered limit (b.push id tag) := by
  obtain ⟨below, element⟩ := List.mem_filter.mp inside
  obtain ⟨live, hangs⟩ := ordered.doc.linked.child (ordered.live_current) below
  refine ⟨ordered.doc, List.forall_mem_cons.mpr ⟨live, ordered.live⟩,
    List.forall_mem_cons.mpr ⟨element, ordered.element⟩,
    List.forall_mem_cons.mpr ⟨solid, ordered.solid⟩, ?_⟩
  refine ordered.chain.cons fun next known => ?_
  obtain rfl := Option.some.inj ((head?_path b).symm.trans known)
  exact hangs

/-- A new element where new nodes go is opened. -/
theorem push (ordered : IsOrdered limit b) (tag : String) (element : kind.isElement = true)
    (solid : isVoidKind kind = false) (fits : b.opened.length + 1 ≤ limit) :
    IsOrdered limit ((b.append b.current kind).2.push (b.append b.current kind).1 tag) := by
  have live := ordered.live_current
  have more : Extended b.doc (b.append b.current kind).2.doc b.current
      (b.append b.current kind).1 kind := extended_grow ordered.doc.linked live kind
  have added : IsOrdered limit (b.append b.current kind).2 :=
    ordered.append live ordered.solid_current fun _ => by
      rw [ordered.nesting_current]
      exact fits
  refine added.reopen ?_ (more.kind_new.symm ▸ solid)
  show _ ∈ (b.append b.current kind).2.doc.elements b.current
  rw [more.elements_parent ordered.doc.linked live, if_pos element]
  exact List.mem_append_right _ List.mem_cons_self

/-- Inner elements are closed. -/
theorem close (ordered : IsOrdered limit b) {outer : List (NodeId × String)}
    (left : outer <:+ b.opened) : IsOrdered limit { b with opened := outer } where
  doc := ordered.doc
  live entry member := ordered.live entry (left.subset member)
  element entry member := ordered.element entry (left.subset member)
  solid entry member := ordered.solid entry (left.subset member)
  chain := by
    refine ordered.chain.suffix ?_
    obtain ⟨inner, whole⟩ := left
    exact ⟨inner.map (·.1), by rw [← whole, List.map_append, List.append_assoc]⟩

/-- What elements are called is all that matters of them. -/
theorem congr (ordered : IsOrdered limit b) {doc : Document} (same : SameLinks b.doc doc)
    (names : ∀ id, (doc.kind id).elementName? = (b.doc.kind id).elementName?) :
    IsOrdered limit { b with doc } where
  doc := ordered.doc.congr same names
  live entry member := same.use.live_iff.mpr (ordered.live entry member)
  element entry member := by
    rw [NodeKind.isElement_eq, names, ← NodeKind.isElement_eq]
    exact ordered.element entry member
  solid entry member := by
    rw [isVoidKind, names]
    exact ordered.solid entry member
  chain := by
    rw [same.parent]
    exact ordered.chain

end IsOrdered

/-! ## The parts of the structure -/

/-- An element is called something, without a prefix. -/
def IsNamed (doc : Document) (id : NodeId) (tag : String) : Prop :=
  (doc.kind id).elementName? = some ⟨none, tag⟩

theorem IsNamed.elementName?_eq {doc : Document} (named : IsNamed doc id tag) :
    (doc.kind id).elementName? = some ⟨none, tag⟩ := named

theorem localName?_of_isNamed {doc : Document} (named : IsNamed doc id tag) :
    (doc.kind id).localName? = some tag := NodeKind.localName?_of_elementName? named

/-- What there is inside the `html` element, and which of its parts is open. -/
inductive Parts (doc : Document) (html : NodeId) : List (NodeId × String) → Prop
  | none (inside : doc.elements html = []) : Parts doc html []
  | closed {head : NodeId} (inside : doc.elements html = [head]) (named : IsNamed doc head "head") :
    Parts doc html []
  | head {head : NodeId} (inside : doc.elements html = [head]) (named : IsNamed doc head "head") :
    Parts doc html [(head, "head")]
  | body {heads : List NodeId} {body : NodeId} (inside : doc.elements html = heads ++ [body])
    (before : heads = [] ∨ ∃ head, heads = [head] ∧ IsNamed doc head "head")
    (named : IsNamed doc body "body") : Parts doc html [(body, "body")]

/-- The open elements: the `html` element outermost, a part of the structure in it, and elements of
other tags further inside. -/
structure IsFramed (b : Builder) (html : NodeId) (part inner : List (NodeId × String)) : Prop where
  opened : b.opened = inner ++ (part ++ [(html, "html")])
  top : b.doc.elements root = [html]
  named : IsNamed b.doc html "html"
  parts : Parts b.doc html part
  plain : ∀ entry ∈ inner, isStructural entry.2 = false
  within : part = [] → inner = []

/-- Nothing is built yet, or the `html` element is there and open. -/
inductive Stage (b : Builder) : Prop
  | start (opened : b.opened = []) (top : b.doc.elements root = [])
  | framed {html : NodeId} {part inner : List (NodeId × String)}
    (framed : IsFramed b html part inner)

theorem childNamed?_eq (b : Builder) (parent : NodeId) (name : String) :
    b.childNamed? parent name =
      (b.doc.elements parent).find? fun id => (b.doc.kind id).localName? == some name := by
  rw [childNamed?, elements, List.find?_filter]
  congr
  funext id
  rw [Bool.eq_iff_iff]
  simp

theorem childNamed?_of_none (bare : b.doc.elements parent = []) (name : String) :
    b.childNamed? parent name = none := by
  rw [childNamed?_eq, bare]
  rfl

theorem childNamed?_of_single (inside : b.doc.elements parent = [id])
    (called : IsNamed b.doc id tag) (name : String) :
    b.childNamed? parent name = if tag = name then some id else none := by
  rw [childNamed?_eq, inside, List.find?_cons, localName?_of_isNamed called]
  by_cases same : tag = name
  · simp [same]
  · simp [same, beq_false_of_ne same]

/-- Parts stay parts where the elements inside `html` keep their names. -/
theorem Parts.congr {doc doc' : Document} {html : NodeId} {part : List (NodeId × String)}
    (parts : Parts doc html part) (inside : doc'.elements html = doc.elements html)
    (names : ∀ id ∈ doc.elements html, (doc'.kind id).elementName? = (doc.kind id).elementName?) :
    Parts doc' html part := by
  cases parts with
  | none bare => exact .none (inside.trans bare)
  | closed same named =>
    exact .closed (inside.trans same) ((names _ (by simp [same])).trans named)
  | head same named => exact .head (inside.trans same) ((names _ (by simp [same])).trans named)
  | body same before named =>
    refine .body (inside.trans same) (before.imp_right ?_) ((names _ (by simp [same])).trans named)
    rintro ⟨head, rfl, named⟩
    exact ⟨head, rfl, (names _ (by simp [same])).trans named⟩

namespace IsFramed

variable {html : NodeId} {part inner : List (NodeId × String)}

/-- What is built elsewhere leaves the structure alone. -/
theorem congr (framed : IsFramed b html part inner) (opened : b'.opened = b.opened)
    (top : b'.doc.elements root = b.doc.elements root)
    (inside : b'.doc.elements html = b.doc.elements html)
    (names : ∀ id ∈ html :: b.doc.elements html,
      (b'.doc.kind id).elementName? = (b.doc.kind id).elementName?) :
    IsFramed b' html part inner where
  opened := opened.trans framed.opened
  top := top.trans framed.top
  named := (names html List.mem_cons_self).trans framed.named
  parts := framed.parts.congr inside fun id member => names id (List.mem_cons_of_mem _ member)
  plain := framed.plain
  within := framed.within

theorem html_eq (framed : IsFramed b html part inner) : b.html = (html, b) := by
  rw [Builder.html, childNamed?_of_single framed.top framed.named, if_pos rfl]

theorem mem_opened (framed : IsFramed b html part inner) : (html, "html") ∈ b.opened := by
  rw [framed.opened]
  simp

theorem live (framed : IsFramed b html part inner) (ordered : IsOrdered limit b) :
    b.doc.IsLive html := ordered.live _ framed.mem_opened

/-- A new node that is no element, or that stands inside a part, leaves the structure alone. -/
theorem append (framed : IsFramed b html part inner) (ordered : IsOrdered limit b)
    (live : b.doc.IsLive parent)
    (aside : kind.isElement = false ∨ parent ≠ root ∧ parent ≠ html) :
    IsFramed (b.append parent kind).2 html part inner := by
  have linked := ordered.doc.linked
  have liveH := framed.live ordered
  have more : Extended b.doc (b.append parent kind).2.doc parent (b.append parent kind).1 kind :=
    extended_grow linked live kind
  have same : ∀ {other}, b.doc.IsLive other → (kind.isElement = false ∨ parent ≠ other) →
      (b.append parent kind).2.doc.elements other = b.doc.elements other := by
    intro other liveO apart
    by_cases here : parent = other
    · subst here
      rw [more.elements_parent linked live, apart.resolve_right (fun apart => apart rfl),
        if_neg Bool.false_ne_true, List.append_nil]
    · exact more.elements_kept linked liveO (Ne.symm here)
  refine framed.congr rfl (same linked.root_live (aside.imp_right And.left))
    (same liveH (aside.imp_right And.right)) fun id member => ?_
  have liveI : b.doc.IsLive id := by
    rcases List.mem_cons.mp member with rfl | inside
    · exact liveH
    · exact linked.live_of_mem_children liveH (List.mem_of_mem_filter inside)
  rw [more.kind_kept id liveI]

end IsFramed

/-! ## Making the parts of the structure -/

theorem isElement_plainElement (name : String) : (NodeKind.plainElement name).isElement = true :=
  rfl

theorem isVoidKind_of_isNamed {doc : Document} (named : IsNamed doc id tag) :
    isVoidKind (doc.kind id) = isVoid tag := by
  rw [isVoidKind, named]
  rfl

theorem isNamed_new {doc doc' : Document} {name : String}
    (more : Extended doc doc' parent id (.plainElement name)) : IsNamed doc' id name :=
  congrArg NodeKind.elementName? more.kind_new

/-- Where the `html` element is made, nothing else is there or open. -/
theorem framed_html (ordered : IsOrdered limit b) (one : 1 ≤ limit) (stage : Stage b) :
    IsOrdered limit b.html.2 ∧ b.html.2.html = b.html ∧ ∃ part inner,
      IsFramed b.html.2 b.html.1 part inner ∧ (part = [] ∨ b.html.2 = b) := by
  cases stage with
  | framed framed =>
    rw [framed.html_eq]
    exact ⟨ordered, framed.html_eq, _, _, framed, .inr rfl⟩
  | start opened top =>
    have linked := ordered.doc.linked
    have at_root : b.current = root := by
      rw [current, opened]
      rfl
    have missing := childNamed?_of_none top "html"
    have bare : (b.append root (.plainElement "html")).2.opened = [] := opened
    have more : Extended b.doc (b.append root (.plainElement "html")).2.doc root
        (b.append root (.plainElement "html")).1 (.plainElement "html") :=
      extended_grow linked linked.root_live _
    have pushed := ordered.push "html" (isElement_plainElement "html") rfl
      (by rw [opened]; exact one)
    rw [at_root] at pushed
    have made : b.html = ((b.append root (.plainElement "html")).1,
        (b.append root (.plainElement "html")).2.push
          (b.append root (.plainElement "html")).1 "html") := by
      rw [html, missing]
      simp only [push, bare, List.nil_append]
    have framed : IsFramed ((b.append root (.plainElement "html")).2.push
        (b.append root (.plainElement "html")).1 "html")
        (b.append root (.plainElement "html")).1 [] [] := by
      refine ⟨?_, ?_, isNamed_new more, .none ?_, nofun, fun _ => rfl⟩
      · rw [push, bare]
        rfl
      · exact (more.elements_parent linked linked.root_live).trans (by rw [top]; rfl)
      · exact congrArg (List.filter _) more.children_new
    rw [made]
    exact ⟨pushed, framed.html_eq, [], [], framed, .inl rfl⟩

section

variable {html : NodeId} {part inner : List (NodeId × String)}

theorem openHead_eq (b : Builder) : b.openHead =
    (b.head.1, if b.head.2.isOpen "head" then b.head.2 else b.head.2.push b.head.1 "head") := rfl

theorem IsFramed.head_of_found (framed : IsFramed b html part inner) {id : NodeId}
    (found : b.childNamed? html "head" = some id) : b.head = (id, b) := by
  simp only [head, framed.html_eq, found]

theorem IsFramed.head_of_missing (framed : IsFramed b html part inner)
    (missing : b.childNamed? html "head" = none) (first : b.childNamed? html "body" = none) :
    b.head = b.append html (.plainElement "head") := by
  simp only [head, framed.html_eq, missing, first]

theorem IsFramed.body_of_found (framed : IsFramed b html part inner) {id : NodeId}
    (found : b.childNamed? html "body" = some id) : b.body = (id, b) := by
  simp only [Builder.body, framed.html_eq, found]

theorem IsFramed.body_of_missing (framed : IsFramed b html part inner)
    (missing : b.childNamed? html "body" = none) :
    b.body = ((b.append html (.plainElement "body")).1,
      (b.append html (.plainElement "body")).2.closeHead.push
        (b.append html (.plainElement "body")).1 "body") := by
  simp only [Builder.body, framed.html_eq, missing]

/-- Where only the `html` element is open, new nodes go right into it. -/
theorem current_of_opened (opened : b.opened = [(html, "html")]) : b.current = html := by
  rw [current, opened]
  rfl

theorem IsFramed.ne_root (framed : IsFramed b html part inner) (ordered : IsOrdered limit b) :
    html ≠ root := by
  rintro rfl
  exact absurd (ordered.doc.top.symm.trans (ordered.element _ framed.mem_opened))
    Bool.false_ne_true

/-- A document with one more element right inside the `html` element. -/
structure HasPart (doc doc' : Document) (html id : NodeId) (name : String) : Prop where
  top : doc'.elements root = doc.elements root
  outer : (doc'.kind html).elementName? = (doc.kind html).elementName?
  inside : doc'.elements html = doc.elements html ++ [id]
  kept : ∀ other ∈ doc.elements html, (doc'.kind other).elementName? = (doc.kind other).elementName?
  named : IsNamed doc' id name

theorem IsFramed.hasPart (framed : IsFramed b html part inner) (ordered : IsOrdered limit b)
    (name : String) : HasPart b.doc (b.append html (.plainElement name)).2.doc html
      (b.append html (.plainElement name)).1 name := by
  have linked := ordered.doc.linked
  have live := framed.live ordered
  have more : Extended b.doc (b.append html (.plainElement name)).2.doc html
      (b.append html (.plainElement name)).1 (.plainElement name) := extended_grow linked live _
  refine ⟨more.elements_kept linked linked.root_live (framed.ne_root ordered).symm,
    congrArg _ (more.kind_kept html live), more.elements_parent linked live,
    fun other member => ?_, isNamed_new more⟩
  rw [more.kind_kept other (linked.live_of_mem_children live (List.mem_of_mem_filter member))]

/-- The head is made and opened as long as there is no body. -/
theorem IsFramed.openHead (framed : IsFramed b html part inner) (ordered : IsOrdered limit b)
    (two : 2 ≤ limit) (outside : b.isOpen "body" = false) :
    IsOrdered limit b.openHead.2 ∧
      ∃ inner', IsFramed b.openHead.2 html [(b.openHead.1, "head")] inner' := by
  have opened := framed.opened
  have parts := framed.parts
  rw [openHead_eq]
  cases parts with
  | none bare =>
    obtain rfl := framed.within rfl
    have made :=
      framed.head_of_missing (childNamed?_of_none bare "head") (childNamed?_of_none bare "body")
    have shut : (b.append html (.plainElement "head")).2.isOpen "head" = false := by
      show b.opened.any (·.2 == "head") = false
      rw [opened]
      rfl
    have pushed := ordered.push "head" (isElement_plainElement "head") rfl
      (by rw [opened]; exact two)
    rw [current_of_opened opened] at pushed
    have more := framed.hasPart ordered "head"
    rw [made, shut]
    exact ⟨pushed, [], congrArg _ opened, more.top.trans framed.top,
      more.outer.trans framed.named, .head (more.inside.trans (by rw [bare]; rfl)) more.named,
      nofun, nofun⟩
  | @closed head inside called =>
    obtain rfl := framed.within rfl
    have made := framed.head_of_found ((childNamed?_of_single inside called _).trans (if_pos rfl))
    have shut : b.isOpen "head" = false := by
      rw [isOpen, opened]
      rfl
    have pushed : IsOrdered limit (b.push head "head") := by
      refine ordered.reopen ?_ (isVoidKind_of_isNamed called)
      rw [current_of_opened opened, inside]
      exact List.mem_cons_self
    rw [made, shut]
    exact ⟨pushed, [], congrArg _ opened, framed.top, framed.named, .head inside called, nofun,
      nofun⟩
  | @head head inside called =>
    have made := framed.head_of_found ((childNamed?_of_single inside called _).trans (if_pos rfl))
    have shown : b.isOpen "head" = true := by
      rw [isOpen, opened]
      simp
    rw [made, shown]
    exact ⟨ordered, inner, framed⟩
  | body =>
    have shown : b.isOpen "body" = true := by
      rw [isOpen, opened]
      simp
    exact absurd (outside.symm.trans shown) Bool.false_ne_true

/-- Closing the head leaves only the `html` element open. -/
theorem opened_closeHead (plain : ∀ entry ∈ inner, isStructural entry.2 = false)
    (opened : b.opened = inner ++ (part ++ [(html, "html")]))
    (headed : part = [] ∧ inner = [] ∨ ∃ head, part = [(head, "head")]) :
    b.closeHead.opened = [(html, "html")] := by
  show (b.opened.reverse.takeWhile (·.2 != "head")).reverse = _
  rw [opened]
  rcases headed with ⟨rfl, rfl⟩ | ⟨head, rfl⟩
  · rfl
  · simp

/-- Where there is no body, it is made and opened in place of the head. -/
theorem IsFramed.body_made (framed : IsFramed b html part inner) (ordered : IsOrdered limit b)
    (two : 2 ≤ limit) (missing : b.childNamed? html "body" = none)
    (headed : part = [] ∧ inner = [] ∨ ∃ head, part = [(head, "head")])
    (before : b.doc.elements html = [] ∨
      ∃ head, b.doc.elements html = [head] ∧ IsNamed b.doc head "head") :
    IsOrdered limit b.body.2 ∧ ∃ inner', IsFramed b.body.2 html [(b.body.1, "body")] inner' := by
  have more := framed.hasPart ordered "body"
  have shut : (b.append html (.plainElement "body")).2.closeHead =
      { (b.append html (.plainElement "body")).2 with opened := [(html, "html")] } :=
    congrArg (fun opened => { (b.append html (.plainElement "body")).2 with opened })
      (opened_closeHead framed.plain framed.opened headed)
  have outermost : [(html, "html")] <:+ b.opened :=
    ⟨inner ++ part, by rw [framed.opened, List.append_assoc]⟩
  have added : IsOrdered limit (b.append html (.plainElement "body")).2 := by
    refine ordered.append (framed.live ordered) (ordered.solid _ framed.mem_opened) fun _ => ?_
    rw [ordered.nesting_of_suffix outermost rfl]
    exact two
  have inside : (b.append html (.plainElement "body")).1 ∈
      (b.append html (.plainElement "body")).2.doc.elements html := by
    rw [more.inside]
    exact List.mem_append_right _ List.mem_cons_self
  rw [framed.body_of_missing missing, shut]
  refine ⟨(added.close outermost).reopen inside (isVoidKind_of_isNamed more.named), [], rfl,
    more.top.trans framed.top, more.outer.trans framed.named,
    .body more.inside (before.imp_right ?_) more.named, nofun, nofun⟩
  rintro ⟨head, known, called⟩
  exact ⟨head, known, (more.kept head (by simp [known])).trans called⟩

/-- The body is there and open afterwards. -/
theorem IsFramed.body (framed : IsFramed b html part inner) (ordered : IsOrdered limit b)
    (two : 2 ≤ limit) : IsOrdered limit b.body.2 ∧
      ∃ inner', IsFramed b.body.2 html [(b.body.1, "body")] inner' := by
  have parts := framed.parts
  cases parts with
  | none bare =>
    have missing := childNamed?_of_none bare "body"
    exact framed.body_made ordered two missing (.inl ⟨rfl, framed.within rfl⟩) (.inl bare)
  | closed inside called =>
    have missing := (childNamed?_of_single inside called "body").trans (if_neg (by decide))
    exact framed.body_made ordered two missing (.inl ⟨rfl, framed.within rfl⟩)
      (.inr ⟨_, inside, called⟩)
  | head inside called =>
    have missing := (childNamed?_of_single inside called "body").trans (if_neg (by decide))
    exact framed.body_made ordered two missing (.inr ⟨_, rfl⟩) (.inr ⟨_, inside, called⟩)
  | @body heads body inside before called =>
    have found : b.childNamed? html "body" = some body := by
      rw [childNamed?_eq, inside]
      rcases before with rfl | ⟨head, rfl, called'⟩
      · simp [localName?_of_isNamed called]
      · simp [localName?_of_isNamed called, localName?_of_isNamed called']
    rw [framed.body_of_found found]
    exact ⟨ordered, inner, framed⟩

end

end Builder
end Html
end Markup
