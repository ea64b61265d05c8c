import Markup.Proofs.Store.Graft
import Markup.Proofs.Xml.Parsed
import Markup.Proofs.Xml.Subset
import Markup.Proofs.Xml.Transfer

/-!
# How a document is read

What is read of a document: what stands before the root element, its tag and the events in it, and
what stands after it. A text is accepted exactly if it is read so, and whether blank text is dropped
makes no difference to that.
-/

namespace Markup.Xml

open Reader

/-! ## The parts of a document -/

/-- The options are the same where they treat blank text the same. -/
theorem ParseOptions.withBlanks_self {options : ParseOptions} {noBlanks : Bool}
    (same : options.noBlanks = noBlanks) : options.withBlanks noBlanks = options := by
  rw [withBlanks, ← same]

/-- What a reader finds, another reader of the same text does. -/
theorem Carries.again {α : Type} [Reaching α] [Relaying α] {needs takes : Demand} {r r' : Reader}
    {step : Except ParseFailure α} {step' : Reader → Except ParseFailure α} {found : α}
    (carries : Carries [] [] needs takes r step step') (read : step = .ok found)
    (beside : Beside [] [] r.rest r r') :
    ∃ next', step' r' = .ok (Relaying.onto found next') ∧
      Beside [] [] (Reaching.reached found).rest (Reaching.reached found) next' :=
  carries.kept read beside (List.append_nil _).symm (.inl rfl)

namespace Reader

variable {options : ParseOptions} {cx : Context} {start first next r : Reader}

/-- Nodes that are leaves and no texts. -/
def AreBare (drafts : List Draft) : Prop :=
  ∀ draft ∈ drafts, ∃ kind, draft = .written kind [] ∧ isText (.leaf kind) = false

/-- Comments and instructions go before earlier nodes, whatever these are. -/
theorem exists_of_misc_eq_ok {before after : List Draft}
    (h : misc options r before = .ok (after, next)) :
    ∃ found, after = found ++ before ∧ AreBare found ∧
      ∀ other, misc options r other = .ok (found ++ other, next) := by
  fun_induction misc options r before generalizing after next with
  | case1 | case3 => cases h
  | case2 r before begins content middle read ih =>
    obtain ⟨found, rfl, bare, again⟩ := ih h
    refine ⟨found ++ [.written (.comment content) []], by simp, ?_, fun other => ?_⟩
    · exact List.forall_mem_append.mpr ⟨bare, List.forall_mem_singleton.mpr ⟨_, rfl, rfl⟩⟩
    · rw [misc_eq, if_pos begins, read]
      dsimp only [bind, Except.bind]
      rw [again, List.append_assoc]
      rfl
  | case4 r before other begins target data middle read ih =>
    obtain ⟨found, rfl, bare, again⟩ := ih h
    refine ⟨found ++ [.written (.instruction target data) []], by simp, ?_, fun nodes => ?_⟩
    · exact List.forall_mem_append.mpr ⟨bare, List.forall_mem_singleton.mpr ⟨_, rfl, rfl⟩⟩
    · rw [misc_eq, if_neg other, if_pos begins, read]
      dsimp only [bind, Except.bind]
      rw [again, List.append_assoc]
      rfl
  | case5 r before comment instruction =>
    cases h
    refine ⟨[], rfl, List.forall_mem_nil _, fun nodes => ?_⟩
    rw [misc_eq, if_neg comment, if_neg instruction]
    rfl

/-- A start tag begins with a less-than sign. -/
theorem sees_of_startTag {depth : Nat} {scope : Scope} {tag : StartTag}
    (started : start.startTag cx depth scope = .ok (tag, next)) : start.sees '<' = true := by
  unfold startTag at started
  split at started
  · exact absurd started not_fail
  · obtain ⟨second, begins, -⟩ := bind_eq_ok.mp started
    rw [sees, rest_of_expect begins]
    rfl

/-- The end of the root element: its end tag, or the end of the text. -/
def rootEnd (r : Reader) (options : ParseOptions) (name : QName) : Except ParseFailure Reader :=
  if r.atEnd then r.report options (.endOfText (some .elementContent))
  else r.endTag options name

/-- How a root element is read. -/
theorem rootElement_eq_ok_iff {root : Draft} :
    start.rootElement cx = .ok (root, next) ↔
      ∃ tag first, start.startTag cx 1 .initial = .ok (tag, first) ∧
        (tag.closed = true ∧ root = .written tag.kind [] ∧ next = first ∨
        tag.closed = false ∧ ∃ children last,
          contentFrom cx ⟨1, tag.scope⟩ first .empty = .ok (children, last) ∧
          last.rootEnd cx.options tag.name = .ok next ∧ root = .written tag.kind children) := by
  constructor
  · intro h
    obtain ⟨⟨tag, first⟩, started, h⟩ := bind_eq_ok.mp h
    refine ⟨tag, first, started, ?_⟩
    dsimp only at h
    split at h
    · rename_i closed
      cases h
      exact .inl ⟨closed, rfl, rfl⟩
    · rename_i goesOn
      obtain ⟨⟨children, last⟩, inside, h⟩ := bind_eq_ok.mp h
      refine .inr ⟨Bool.not_eq_true _ ▸ goesOn, children, last, inside, ?_⟩
      dsimp only at h
      rw [rootEnd]
      split at h
      · rename_i done
        obtain ⟨ended, noted, h⟩ := bind_eq_ok.mp h
        cases h
        exact ⟨(if_pos done).trans noted, rfl⟩
      · rename_i more
        obtain ⟨ended, closed, h⟩ := bind_eq_ok.mp h
        cases h
        exact ⟨(if_neg more).trans closed, rfl⟩
  · rintro ⟨tag, first, started, ⟨closed, rfl, rfl⟩ | ⟨goesOn, children, last, inside, ended, rfl⟩⟩
    · refine bind_eq_ok.mpr ⟨_, started, ?_⟩
      dsimp only
      rw [if_pos closed]
      rfl
    · refine bind_eq_ok.mpr ⟨_, started, ?_⟩
      dsimp only
      rw [if_neg (by simp [goesOn])]
      refine bind_eq_ok.mpr ⟨_, inside, ?_⟩
      dsimp only
      rw [rootEnd] at ended
      split at ended
      · rename_i done
        rw [if_pos done]
        exact bind_eq_ok.mpr ⟨_, ended, rfl⟩
      · rename_i more
        rw [if_neg more]
        exact bind_eq_ok.mpr ⟨_, ended, rfl⟩

/-- Another reader of the same text finds the end of the root element. -/
theorem carries_rootEnd (noBlanks : Bool) (r : Reader) (options : ParseOptions) (name : QName) :
    Carries [] [] .nothing .nothing r (r.rootEnd options name)
      fun r' => r'.rootEnd (options.withBlanks noBlanks) name :=
  .iteAtEnd (fun _ => carries_report ..) fun _ =>
    (carries_endTag r options name).mono (by decide) (by decide)

end Reader

/-! ## The start of a document -/

section

/-- What is read of a document before its root element: its declaration, the nodes before the root
element, latest first, and the entities that it declares. -/
def Opens (options : ParseOptions) (text : String) (declaration : Option Declaration)
    (nodes : List Draft) (table : EntityTable) (start : Reader) : Prop :=
  ∃ r₁ early r₂, (ofText text).head = .ok (declaration, r₁) ∧
    misc options r₁ [] = .ok (early, r₂) ∧
    r₂.typeDeclaration options early = .ok ((nodes, table), start)

variable {options : ParseOptions} {text₁ text₂ : String} {declaration : Option Declaration}
  {nodes : List Draft} {table : EntityTable} {start : Reader} {tail tail' text left : List Char}

theorem Opens.unique {declaration' : Option Declaration} {nodes' : List Draft}
    {table' : EntityTable} {start' : Reader}
    (opens : Opens options text₁ declaration nodes table start)
    (again : Opens options text₁ declaration' nodes' table' start') :
    declaration = declaration' ∧ nodes = nodes' ∧ table = table' ∧ start = start' := by
  obtain ⟨r₁, early, r₂, headed, misc, type⟩ := opens
  obtain ⟨r₁', early', r₂', headed', misc', type'⟩ := again
  cases headed.symm.trans headed'
  cases misc.symm.trans misc'
  cases type.symm.trans type'
  exact ⟨rfl, rfl, rfl, rfl⟩

/-- Another text with the same front starts alike. -/
theorem Opens.carry (noBlanks : Bool) (opens : Opens options text₁ declaration nodes table start)
    (spelled : text₁.toList = text ++ tail) (spelled' : text₂.toList = text ++ tail')
    (ends : start.rest = left ++ tail) (enough : tail = tail' ∨ Demand.ending.Met left) :
    ∃ start', Opens (options.withBlanks noBlanks) text₂ declaration nodes table start' ∧
      Beside tail tail' left start start' := by
  obtain ⟨r₁, early, r₂, headed, others, type⟩ := opens
  have head : Carries tail tail' .ending .nothing (ofText text₁) (ofText text₁).head
      fun r' => r'.head := carries_head _
  have misc : Carries tail tail' .ending .nothing r₁ (Reader.misc options r₁ [])
      fun r' => Reader.misc (options.withBlanks noBlanks) r' [] := carries_misc ..
  have doctype : Carries tail tail' .ending .nothing r₂ (r₂.typeDeclaration options early)
      fun r' => r'.typeDeclaration (options.withBlanks noBlanks) early :=
    carries_typeDeclaration ..
  obtain ⟨front₂, -, rest₂⟩ := misc.taken others
  obtain ⟨front₃, -, rest₃⟩ := doctype.taken type
  have enough₂ : tail = tail' ∨ Demand.ending.Met (front₃ ++ left) :=
    enough.imp_right fun met => met.append_left front₃
  have enough₁ : tail = tail' ∨ Demand.ending.Met (front₂ ++ (front₃ ++ left)) :=
    enough₂.imp_right fun met => met.append_left front₂
  have rest₂' : r₂.rest = (front₃ ++ left) ++ tail := by
    rw [List.append_assoc, ← ends]
    exact rest₃
  have rest₁' : r₁.rest = (front₂ ++ (front₃ ++ left)) ++ tail := by
    rw [List.append_assoc, ← rest₂']
    exact rest₂
  have begins : Beside tail tail' text (ofText text₁) (ofText text₂) :=
    ⟨spelled, spelled', Nat.le_refl _⟩
  obtain ⟨r₁', headed', beside₁⟩ := head.kept headed begins rest₁' enough₁
  obtain ⟨r₂', others', beside₂⟩ := misc.kept others beside₁ rest₂' enough₂
  obtain ⟨start', type', beside₃⟩ := doctype.kept type beside₂ ends enough
  exact ⟨start', ⟨r₁', early, r₂', headed', others', type'⟩, beside₃⟩

theorem Opens.areBare (opens : Opens options text₁ declaration nodes table start) :
    AreBare nodes := by
  obtain ⟨r₁, early, r₂, -, misc₁, type⟩ := opens
  obtain ⟨found, rfl, bare, -⟩ := exists_of_misc_eq_ok misc₁
  rw [List.append_nil] at type
  unfold typeDeclaration at type
  split at type
  · obtain ⟨⟨⟨doctype, declared⟩, r₃⟩, -, type⟩ := bind_eq_ok.mp type
    obtain ⟨⟨others, r₄⟩, misc₂, type⟩ := bind_eq_ok.mp type
    cases type
    obtain ⟨found', rfl, bare', -⟩ := exists_of_misc_eq_ok misc₂
    exact List.forall_mem_append.mpr ⟨bare', List.forall_mem_cons.mpr ⟨⟨_, rfl, rfl⟩, bare⟩⟩
  · cases type
    exact bare

end

/-! ## The root element -/

/-- What is read of the root element: its tag, the events in it, and what is built from them. -/
def Reader.ReadsRoot (cx : Context) (start : Reader) (tag : StartTag) (events : List Event)
    (root : Draft) (next : Reader) : Prop :=
  ∃ first, start.startTag cx 1 .initial = .ok (tag, first) ∧
    (tag.closed = true ∧ events = [] ∧ root = .written tag.kind [] ∧ next = first ∨
    tag.closed = false ∧ ∃ children last,
      Reads cx ⟨1, tag.scope⟩ first .empty events children last ∧
      last.rootEnd cx.options tag.name = .ok next ∧ root = .written tag.kind children)

namespace Reader

variable {cx : Context} {start next : Reader} {tag : StartTag} {events : List Event} {root : Draft}

theorem rootElement_eq_ok_iff_reads : start.rootElement cx = .ok (root, next) ↔
    ∃ tag events, ReadsRoot cx start tag events root next := by
  rw [rootElement_eq_ok_iff]
  constructor
  · rintro ⟨tag, first, started, ⟨closed, rfl, rfl⟩ | ⟨goesOn, children, last, inside, ended, rfl⟩⟩
    · exact ⟨tag, [], _, started, .inl ⟨closed, rfl, rfl, rfl⟩⟩
    · obtain ⟨events, reads⟩ := contentFrom_eq_ok_iff.mp inside
      exact ⟨tag, events, first, started, .inr ⟨goesOn, children, last, reads, ended, rfl⟩⟩
  · rintro ⟨tag, events, first, started, ⟨closed, -, rfl, rfl⟩ |
      ⟨goesOn, children, last, reads, ended, rfl⟩⟩
    · exact ⟨tag, _, started, .inl ⟨closed, rfl, rfl⟩⟩
    · exact ⟨tag, first, started,
        .inr ⟨goesOn, children, last, contentFrom_eq_ok_iff.mpr ⟨events, reads⟩, ended, rfl⟩⟩

/-- Whether blank text is dropped makes no difference to what is read of the root element. -/
theorem ReadsRoot.withBlanks (noBlanks : Bool) {options : ParseOptions} {table : EntityTable}
    (reads : ReadsRoot ⟨options, table, []⟩ start tag events root next) {start' : Reader}
    (beside : Beside [] [] start.rest start start') :
    ∃ root' next',
      ReadsRoot ⟨options.withBlanks noBlanks, table, []⟩ start' tag events root' next' ∧
      Beside [] [] next.rest next next' := by
  obtain ⟨first, started, read⟩ := reads
  have tagged : Carries [] [] .nothing .ending start
      (start.startTag ⟨options, table, []⟩ 1 .initial)
      fun r' => r'.startTag (Context.eased ⟨options, table, []⟩ noBlanks []) 1 .initial :=
    carries_startTag start _ (List.Subset.refl _) 1 .initial
  obtain ⟨first', started', inside⟩ := tagged.again started beside
  rcases read with ⟨closed, rfl, rfl, rfl⟩ | ⟨goesOn, children, last, reads, ended, rfl⟩
  · exact ⟨_, first', ⟨first', started', .inl ⟨closed, rfl, rfl, rfl⟩⟩, inside⟩
  · have same : first'.rest = first.rest := inside.rest'.trans (List.append_nil _)
    obtain ⟨last', run', after⟩ :=
      reads.run.carry_same noBlanks (List.nil_subset _) same inside.fewer
    obtain ⟨next', ended', beside'⟩ :=
      (carries_rootEnd noBlanks last options tag.name).again ended after
    have ends' : (Spot.mk last' []).IsLast := by
      have either := reads.ends.ends
      have same : last'.rest = last.rest := after.rest'.trans (List.append_nil _)
      refine ⟨rfl, ?_⟩
      rwa [atEnd, startsWith, ← same] at either
    exact ⟨_, next', ⟨first', started', .inr ⟨goesOn, _, last', ⟨run', ends', reads.fits, rfl⟩,
      ended', rfl⟩⟩, beside'⟩

end Reader

/-! ## Whole documents -/

/-- How the text of a document is read. -/
structure Reading (options : ParseOptions) (text : String) where
  declaration : Option Declaration
  nodes : List Draft
  table : EntityTable
  /-- The reader at the root element. -/
  start : Reader
  /-- The start tag of the root element. -/
  tag : StartTag
  /-- What is found in the root element. -/
  events : List Event
  root : Draft
  /-- The reader after the root element. -/
  after : Reader
  /-- The nodes after the root element, latest first. -/
  late : List Draft
  rest : Reader
  last : Reader
  opens : Opens options text declaration nodes table start
  reads : ReadsRoot ⟨options, table, []⟩ start tag events root after
  others : misc options after [] = .ok (late, rest)
  ended : (if rest.atEnd then .ok rest else rest.report options .contentAfterRoot) = .ok last

namespace Reading

variable {options : ParseOptions} {text : String}

/-- The draft of the document that is read. -/
def draft (reading : Reading options text) : DocumentDraft where
  version := reading.declaration.map (·.version)
  encoding := reading.declaration.bind (·.encoding)
  standalone := reading.declaration.bind (·.standalone)
  diagnostics := reading.last.diagnostics
  nodes := (reading.late ++ reading.root :: reading.nodes).reverse

/-- A text that is read is accepted. -/
theorem ofXml_eq_ok (reading : Reading options text) :
    Document.ofXml options text = .ok (Document.ofDraft reading.draft) := by
  obtain ⟨r₁, early, r₂, headed, misc₁, type⟩ := reading.opens
  obtain ⟨first, started, -⟩ := reading.reads
  have element : reading.start.rootElement ⟨options, reading.table, []⟩ = _ :=
    rootElement_eq_ok_iff_reads.mpr ⟨_, _, reading.reads⟩
  obtain ⟨found, same, -, again⟩ := exists_of_misc_eq_ok reading.others
  rw [List.append_nil] at same
  subst same
  have lt := sees_of_startTag started
  have parsed := parse_eq_ok_iff.mpr ⟨_, _, _, _, _, _, _, _, _, _, _, _, headed, misc₁, type,
    atEnd_of_sees lt, lt, element, again _, reading.ended, rfl⟩
  exact map_eq_ok.mpr ⟨_, parsed, rfl⟩

/-- A text that is accepted is read. -/
theorem exists_of_ofXml {doc : Document} (parsed : Document.ofXml options text = .ok doc) :
    ∃ reading : Reading options text, doc = Document.ofDraft reading.draft := by
  obtain ⟨draft, read, -⟩ := map_eq_ok.mp parsed
  obtain ⟨declaration, r₁, early, r₂, nodes, table, start, root, after, late, rest, last, headed,
    misc₁, type, -, -, element, misc₂, ended, -⟩ := parse_eq_ok_iff.mp read
  obtain ⟨tag, events, reads⟩ := rootElement_eq_ok_iff_reads.mp element
  obtain ⟨found, -, -, again⟩ := exists_of_misc_eq_ok misc₂
  have others : Reader.misc options after [] = .ok (found, rest) := by
    rw [again [], List.append_nil]
  let reading : Reading options text := {
    declaration, nodes, table, start, tag, events, root, after, late := found, rest, last
    opens := ⟨r₁, early, r₂, headed, misc₁, type⟩
    reads, others, ended }
  exact ⟨reading, Except.ok.inj (parsed.symm.trans reading.ofXml_eq_ok)⟩

/-- Whether blank text is dropped makes no difference to what is read. -/
theorem exists_withBlanks (reading : Reading options text) (noBlanks : Bool) :
    ∃ other : Reading (options.withBlanks noBlanks) text, other.nodes = reading.nodes ∧
      other.tag = reading.tag ∧ other.events = reading.events ∧ other.late = reading.late := by
  have whole : text.toList = text.toList ++ [] := (List.append_nil _).symm
  obtain ⟨start', opens', beside⟩ := reading.opens.carry noBlanks whole whole
    (List.append_nil _).symm (.inl rfl)
  obtain ⟨root', after', reads', beside'⟩ := reading.reads.withBlanks noBlanks beside
  have carries : Carries [] [] .ending .nothing reading.after (Reader.misc options reading.after [])
      fun r' => Reader.misc (options.withBlanks noBlanks) r' [] := carries_misc ..
  obtain ⟨rest', others', beside''⟩ := carries.again reading.others beside'
  have ending : Carries [] [] .nothing .nothing reading.rest
      (if reading.rest.atEnd then .ok reading.rest
        else reading.rest.report options .contentAfterRoot)
      fun r' => if r'.atEnd then .ok r'
        else r'.report (options.withBlanks noBlanks) .contentAfterRoot :=
    .iteAtEnd (fun _ => .done rfl) fun _ => carries_report ..
  obtain ⟨last', ended', -⟩ := ending.again reading.ended beside''
  exact ⟨{ reading with
    start := start', root := root', after := after', rest := rest', last := last'
    opens := opens', reads := reads', others := others', ended := ended' }, rfl, rfl, rfl, rfl⟩

end Reading

/-! ## A document with an entity that stands for an element and text -/

/-- A document whose internal subset declares one entity is read up to its root element. -/
theorem exists_opens_subset {options : ParseOptions} {document name entity replacement : String}
    {tail : List Char} (named : IsName options name)
    (declarable : IsDeclarable options entity replacement)
    (spelled : document.toList = writtenSubset name entity replacement ++ tail)
    (begins : ∃ c rest, tail = '<' :: c :: rest ∧ c ≠ '!' ∧ c ≠ '?') :
    ∃ start, Opens options document none [.written (.doctype name none none) []]
        ⟨[(entity, replacement)], [], false⟩ start ∧
      start.rest = tail ∧ start.log.expansions = 0 := by
  have whole : (ofText document).rest = _ := spelled.trans (writtenSubset_append ..)
  have solid : (ofText document).skipBlanks.rest = _ :=
    (rest_skipBlanks_cons (c := '<') (whole.trans rfl) (by decide)).trans whole
  have solid' : (ofText document).skipBlanks.skipBlanks.rest = _ :=
    (rest_skipBlanks_cons (c := '<') (solid.trans rfl) (by decide)).trans solid
  have headed : (ofText document).head = .ok (none, (ofText document).skipBlanks) := by
    simp [head, seesDeclaration, startsWith, seesBlank, whole, Text.isMarkupBlank]
  have between : misc options (ofText document).skipBlanks [] =
      .ok ([], (ofText document).skipBlanks.skipBlanks) :=
    misc_eq_ok (by simp [startsWith, solid', List.isPrefixOf])
      (by simp [startsWith, solid', List.isPrefixOf])
  obtain ⟨start, read, rest, fresh⟩ := exists_typeDeclaration_subset named declarable []
    (solid'.trans (writtenSubset_append ..).symm) begins
  exact ⟨start, ⟨_, [], _, headed, between, read⟩, rest, fresh⟩

/-- A text that declares an entity with an element and text in it, and refers to it before a
blank. -/
def markedText : String := "<!DOCTYPE a [<!ENTITY e \"<b/>x\">]><a>&e; </a>"

/-- What the content of the text is read against. -/
def marked : Context := ⟨{}, ⟨[("e", "<b/>x")], [], false⟩, []⟩

/-- The start tag of the root element. -/
def markedTag : StartTag := ⟨⟨none, "a"⟩, none, [], .initial, false⟩

theorem exists_opens_marked : ∃ start,
    Opens {} markedText none [.written (.doctype "a" none none) []] marked.entities start ∧
      start.rest = "<a>&e; </a>".toList ∧ start.log.expansions = 0 := by
  have named : IsName {} "a" := ⟨by decide, List.all_eq_true.mp (by decide), by decide⟩
  have declarable : IsDeclarable {} "e" "<b/>x" := {
    named := ⟨by decide, List.all_eq_true.mp (by decide), by decide⟩
    local_ := by decide
    free := rfl
    legal := List.all_eq_true.mp (by decide)
    plain := by simp }
  have spelled : markedText.toList =
      writtenSubset "a" "e" "<b/>x" ++ '<' :: 'a' :: ">&e; </a>".toList := by decide
  exact exists_opens_subset named declarable spelled ⟨'a', _, rfl, by decide⟩

/-- The rounds of the loop in the text, and the reader at the reference. -/
theorem exists_run_marked {start : Reader} (rest : start.rest = "<a>&e; </a>".toList)
    (fresh : start.log.expansions = 0) : ∃ first next last,
    start.startTag marked 1 .initial = .ok (markedTag, first) ∧
    first.reference marked = .ok (.entity "e" "<b/>x", next) ∧ next.rest = " </a>".toList ∧
    Run marked ⟨1, .initial⟩ ⟨first, []⟩
      [.copied [.leaf (.plainElement "b"), .text ['x']], .text [' ']] ⟨last, []⟩ ∧
    last.rest = "</a>".toList := by
  obtain ⟨_, position, origin, reports, _⟩ := start
  obtain rfl := rest
  obtain rfl := fresh
  let start : Reader := ⟨"<a>&e; </a>".toList, position, origin, ⟨reports, 0⟩⟩
  let first : Reader := ⟨"&e; </a>".toList, position.after "<a>".toList, origin, ⟨reports, 0⟩⟩
  let next : Reader := ⟨" </a>".toList, (position.after "<a>".toList).after "&e;".toList, origin,
    ⟨reports, 1⟩⟩
  let inside (count : Nat) : Reader := ⟨"<b/>x".toList.drop count,
    Position.start.after ("<b/>x".toList.take count), some next.place, ⟨reports, 1⟩⟩
  have tag : start.startTag marked 1 .initial = .ok (markedTag, first) := by cbv
  have read : first.reference marked = .ok (.entity "e" "<b/>x", next) := by cbv
  have empty (place : Position) : (Reader.mk "<b/>x".toList .start (some place)
      ⟨reports, 1⟩).startTag (marked.opening "e") 2 .initial =
      .ok (⟨⟨none, "b"⟩, none, [], .initial, true⟩,
        ⟨['x'], Position.start.after "<b/>".toList, some place, ⟨reports, 1⟩⟩) := by cbv
  have leaf : (inside 0).item (marked.opening "e") ⟨1, .initial⟩ =
      .ok (.leaf (.plainElement "b"), inside 4) := by
    rw [item, if_neg (by exact Bool.eq_false_iff.mp rfl),
      if_neg (by exact Bool.eq_false_iff.mp rfl), if_neg (by exact Bool.eq_false_iff.mp rfl)]
    exact bind_eq_ok.mpr ⟨_, empty next.place, rfl⟩
  have letter : (inside 4).char {} = .ok ('x', inside 5) := rfl
  have blank : (next.resume (inside 5)).char {} = .ok (' ', next.skip 1) := rfl
  have within : Run (marked.opening "e") ⟨1, .initial⟩ ⟨inside 0, []⟩
      [.leaf (.plainElement "b"), .text ['x']] ⟨inside 5, []⟩ :=
    .advance (.leaf rfl rfl leaf) (.advance (.character rfl rfl rfl letter) .nil)
  have outside : Run marked ⟨1, .initial⟩ ⟨next.resume (inside 5), []⟩ [.text [' ']]
      ⟨next.skip 1, []⟩ := .advance (.character rfl rfl rfl blank) .nil
  exact ⟨first, next, next.skip 1, tag, read, rfl, .copied rfl read (by decide) within rfl outside,
    rfl⟩

/-- How the text is read. -/
theorem exists_reading_marked : ∃ reading : Reading {} markedText,
    reading.nodes = [.written (.doctype "a" none none) []] ∧ reading.tag = markedTag ∧
    reading.events = [.copied [.leaf (.plainElement "b"), .text ['x']], .text [' ']] ∧
    reading.root = .written markedTag.kind
      [.copied (.leaf (.plainElement "b")), .written (.text "x ") []] ∧ reading.late = [] := by
  obtain ⟨start, opens, rest, fresh⟩ := exists_opens_marked
  obtain ⟨first, next, last, started, -, -, run, ends⟩ := exists_run_marked rest fresh
  obtain ⟨_, position, origin, log⟩ := last
  obtain rfl := ends
  let last : Reader := ⟨"</a>".toList, position, origin, log⟩
  have closed : last.endTag {} ⟨none, "a"⟩ =
      .ok ⟨[], position.after "</a>".toList, origin, log⟩ := by cbv
  have letter (c : Char) (single : c.utf8Size = 1) :
      (Event.text [c]).Fits marked.options.maxTextLength 0 := by
    rw [Event.Fits, Text.byteLength_cons, single]
    decide
  have reads : Reads marked ⟨1, .initial⟩ first .empty _ _ last :=
    ⟨run, ⟨rfl, .inr rfl⟩, ⟨⟨trivial, letter 'x' rfl, trivial⟩, letter ' ' rfl, trivial⟩, rfl⟩
  exact ⟨{
    declaration := none, nodes := _, table := marked.entities, start, opens
    tag := markedTag, events := _, root := _, after := _
    reads := ⟨first, started, .inr ⟨rfl, _, last, reads, (if_neg Bool.false_ne_true).trans closed, rfl⟩⟩
    late := [], rest := _, last := _, others := misc_eq_ok rfl rfl, ended := rfl },
    rfl, rfl, rfl, rfl, rfl⟩

end Markup.Xml
