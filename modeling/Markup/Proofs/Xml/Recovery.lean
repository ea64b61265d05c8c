import Mathlib
import Markup.Proofs.Store.Graft
import Markup.Proofs.Xml.Reparse
import Markup.Proofs.Xml.Tolerance

/-!
# What recovery adds to strict parsing

A document is read by steps that were compared one by one, so a recovering parse as a whole differs
from the strict one only where it reports something.
-/

namespace Markup.Xml.Reader

/-! ## Document type declarations -/

theorem recovers_entityDefinition (r : Reader) (options : ParseOptions) :
    Recovers (r.entityDefinition options.strict) (r.entityDefinition options.recovering)
      r.log.reports :=
  .bind (recovers_externalId _) fun _ _ => .ite (fun _ => .done rfl) fun _ =>
    .bind (recovers_entityValue ..) fun _ _ => .done rfl

theorem recovers_unparsedMark (r : Reader) (options : ParseOptions) (allowed : Bool) :
    Recovers (r.unparsedMark options.strict allowed) (r.unparsedMark options.recovering allowed)
      r.log.reports :=
  .ite
    (fun _ => .ite (fun _ => .fail) fun _ => .ite (fun _ => .fail) fun _ =>
      .bind (recovers_requireBlanks ..) fun _ _ => .bind (recovers_name ..) fun _ _ =>
        .done rfl)
    fun _ => .done rfl

theorem recovers_entityName (r : Reader) (options : ParseOptions) :
    Recovers (r.entityName options.strict) (r.entityName options.recovering) r.log.reports :=
  .bind (recovers_name ..) fun _ _ => .ite
    (fun _ => .bind (recovers_report ..) fun _ _ => .done rfl) fun _ => .done rfl

theorem recovers_entityDeclaration (r : Reader) (options : ParseOptions) (table : EntityTable) :
    Recovers (r.entityDeclaration options.strict table)
      (r.entityDeclaration options.recovering table) r.log.reports := by
  refine .bind (recovers_expectWord ..) fun _ _ => .bind (recovers_requireBlanks ..) fun _ _ =>
    .bind (recovers_parameterMark _) fun _ _ => .bind (recovers_entityName ..) fun _ _ =>
    .bind (recovers_requireBlanks ..) fun _ _ => .bind (recovers_entityDefinition ..)
    fun _ _ => .bind (recovers_unparsedMark ..) fun _ _ => .bind (recovers_expect ..)
    fun _ _ => ?_
  split <;> exact .done rfl

theorem recovers_subsetItem (r : Reader) (options : ParseOptions) (table : EntityTable) :
    Recovers (r.subsetItem options.strict table) (r.subsetItem options.recovering table)
      r.log.reports :=
  .ite
    (fun _ => .bind (recovers_name ..) fun _ _ => .bind (recovers_expect ..) fun _ _ =>
      .done rfl)
    fun _ => .ite (fun _ => recovers_entityDeclaration ..)
    fun _ => .ite (fun _ => .bind (recovers_comment ..) fun _ _ => .done rfl)
    fun _ => .ite (fun _ => .bind (recovers_instruction ..) fun _ _ => .done rfl)
    fun _ => .ite
      (fun _ => .bind (recovers_expectWord ..) fun _ _ => .bind (recovers_declarationTail _)
        fun _ _ => .done rfl)
      fun _ => .fail

theorem internalSubset_eq {options : ParseOptions} {r : Reader} {table : EntityTable} :
    internalSubset options r table =
      if r.skipBlanks.atEnd then r.skipBlanks.fail (.endOfText (some .doctype))
      else if r.skipBlanks.sees ']' then .ok (table, r.skipBlanks.skip 1)
      else r.skipBlanks.subsetItem options table >>= fun read =>
        internalSubset options read.2 read.1 := by
  rw [internalSubset]
  congr 2
  split <;> rename_i read <;> rw [read] <;> rfl

theorem recovers_internalSubset (options : ParseOptions) (r : Reader) (table : EntityTable) :
    Recovers (internalSubset options.strict r table) (internalSubset options.recovering r table)
      r.log.reports := by
  rw [internalSubset_eq, internalSubset_eq]
  exact .ite (fun _ => .fail) fun _ => .ite (fun _ => .done rfl) fun _ =>
    .bind (recovers_subsetItem ..) fun read found => recovers_internalSubset options read.2 _
  termination_by r.rest.length
  decreasing_by exact Nat.lt_of_lt_of_le (length_lt_of_subsetItem found) (length_skipBlanks_le r)

theorem recovers_doctype (r : Reader) (options : ParseOptions) :
    Recovers (r.doctype options.strict) (r.doctype options.recovering) r.log.reports :=
  .bind (recovers_expectWord ..) fun _ _ => .bind (recovers_requireBlanks ..) fun _ _ =>
    .bind (recovers_name ..) fun _ _ => .bind (recovers_externalId _) fun _ _ =>
      .ite
        (fun _ => .bind (recovers_internalSubset ..) fun _ _ => .bind (.done rfl)
          fun _ _ => .bind (recovers_expect ..) fun _ _ => .done rfl)
        fun _ => .bind (.done rfl) fun _ _ => .bind (recovers_expect ..) fun _ _ => .done rfl

/-! ## Tags -/

theorem recovers_attr (r : Reader) (cx : Context) :
    Recovers (r.attr cx.strict) (r.attr cx.recovering) r.log.reports :=
  .bind (recovers_name ..) fun _ _ => .bind (recovers_expect ..) fun _ _ =>
    .bind (recovers_attributeValue ..) fun _ _ => .done rfl

theorem recovers_keepAttribute (r : Reader) (options : ParseOptions) (found : List Attribute)
    (attr : Attribute) :
    Recovers (r.keepAttribute options.strict found attr)
      (r.keepAttribute options.recovering found attr) r.log.reports :=
  .ite (fun _ => .bind (recovers_report ..) fun _ _ => .done rfl) fun _ => .done rfl

theorem attributes_eq {cx : Context} {r : Reader} {found : List Attribute} :
    attributes cx r found =
      if r.skipBlanks.seesTagEnd then .ok (found, r.skipBlanks)
      else if !r.seesBlank then r.skipBlanks.fail (.blankRequired .betweenAttributes)
      else r.skipBlanks.attr cx >>= fun read => read.2.keepAttribute cx.options found read.1 >>=
        fun kept => attributes cx kept.2 kept.1 := by
  rw [attributes]
  congr 2
  split <;> rename_i read <;> simp only [read, bind, Except.bind]
  split <;> rename_i kept <;> rw [kept]

theorem recovers_attributes (cx : Context) (r : Reader) (found : List Attribute) :
    Recovers (attributes cx.strict r found) (attributes cx.recovering r found) r.log.reports := by
  rw [attributes_eq, attributes_eq]
  refine .ite (fun _ => .done rfl) fun _ => .ite (fun _ => .fail) fun _ =>
    .bind (recovers_attr ..) fun read named => .bind (recovers_keepAttribute ..)
      fun kept listed => ?_
  have shorter : kept.2.rest.length < r.rest.length := by
    rw [rest_of_keepAttribute listed]
    exact Nat.lt_of_lt_of_le (length_lt_of_attr named) (length_skipBlanks_le r)
  exact recovers_attributes cx kept.2 kept.1
  termination_by r.rest.length

theorem recovers_boundUri (r : Reader) (options : ParseOptions) (scope : Scope)
    (nsPrefix : String) :
    Recovers (r.boundUri options.strict scope nsPrefix)
      (r.boundUri options.recovering scope nsPrefix) r.log.reports := by
  unfold boundUri
  split
  · exact .done rfl
  · exact .bind (recovers_report ..) fun _ _ => .done rfl

theorem recovers_elementUri (r : Reader) (options : ParseOptions) (scope : Scope) (name : QName) :
    Recovers (r.elementUri options.strict scope name) (r.elementUri options.recovering scope name)
      r.log.reports := by
  unfold elementUri
  split
  · exact .done rfl
  · exact recovers_boundUri ..

theorem recovers_resolveAttribute (r : Reader) (options : ParseOptions) (scope : Scope)
    (attr : Attribute) :
    Recovers (r.resolveAttribute options.strict scope attr)
      (r.resolveAttribute options.recovering scope attr) r.log.reports := by
  unfold resolveAttribute
  split
  · exact .bind (recovers_boundUri ..) fun _ _ => .done rfl
  · exact .done rfl

theorem recovers_resolveAttributes (options : ParseOptions) (scope : Scope) (r : Reader)
    (attributes : List Attribute) :
    Recovers (resolveAttributes options.strict scope r attributes)
      (resolveAttributes options.recovering scope r attributes) r.log.reports := by
  induction attributes generalizing r with
  | nil => exact .done rfl
  | cons attr rest ih =>
    exact .bind (recovers_resolveAttribute ..) fun _ _ => .bind (ih _) fun _ _ =>
      .done rfl

theorem recovers_startTag (r : Reader) (cx : Context) (depth : Nat) (scope : Scope) :
    Recovers (r.startTag cx.strict depth scope) (r.startTag cx.recovering depth scope)
      r.log.reports :=
  .ite (fun _ => .fail) fun _ => .bind (recovers_expect ..) fun _ _ =>
    .bind (recovers_name ..) fun _ _ => .bind (recovers_attributes ..) fun _ _ =>
      .bind (recovers_elementUri ..) fun _ _ => .bind (recovers_resolveAttributes ..)
        fun _ _ => .bind (recovers_tagEnd _) fun _ _ => .done rfl

theorem recovers_endTag (r : Reader) (options : ParseOptions) (name : QName) :
    Recovers (r.endTag options.strict name) (r.endTag options.recovering name) r.log.reports :=
  .bind (recovers_expectWord ..) fun _ _ => .bind (recovers_name ..) fun _ _ =>
    .bind (recovers_expect ..) fun _ _ => .ite (fun _ => .done rfl) fun _ => recovers_report ..

/-! ## Content -/

theorem recovers_item (r : Reader) (cx : Context) (level : Level) :
    Recovers (r.item cx.strict level) (r.item cx.recovering level) r.log.reports :=
  .ite (fun _ => .bind (recovers_cdataSection ..) fun _ _ => .done rfl)
    fun _ => .ite (fun _ => .bind (recovers_comment ..) fun _ _ => .done rfl)
    fun _ => .ite (fun _ => .bind (recovers_instruction ..) fun _ _ => .done rfl)
    fun _ => .bind (recovers_startTag ..) fun _ _ => .done rfl

theorem content_eq {cx : Context} {base : Level} {r : Reader} {here : List Draft}
    {path : List OpenElement} {pending : Pending} :
    content cx base r here path pending =
      match r.rest with
      | [] =>
        match path with
        | [] => .ok ((pending.flush cx.options here).reverse, r)
        | element :: path =>
          r.report cx.options (.endOfText (some .elementContent)) >>= fun next =>
            content cx base next (element.close (pending.flush cx.options here)) path .empty
      | c :: _ =>
        if c == '<' then
          if r.startsWith "</" then
            match path with
            | [] => .ok ((pending.flush cx.options here).reverse, r)
            | element :: path => r.endTag cx.options element.tag.name >>= fun next =>
              content cx base next (element.close (pending.flush cx.options here)) path .empty
          else r.item cx (base.inside path) >>= fun found =>
            match found with
            | (.leaf kind, next) =>
              content cx base next (.written kind [] :: (pending.flush cx.options here)) path .empty
            | (.start tag, next) =>
              content cx base next [] (⟨tag, pending.flush cx.options here⟩ :: path) .empty
        else if c == '&' then
          r.reference cx >>= fun found =>
            match found with
            | (.text found, next) => next.extend cx.options pending found >>= fun pending =>
              content cx base next here path pending
            | (.entity entity replacement, next) =>
              if isPlainText replacement then
                next.extend cx.options pending replacement.toList >>= fun pending =>
                  content cx base next here path pending
              else
                content (cx.opening entity) (base.inside path) (next.enter replacement) [] []
                    .empty >>= fun inside =>
                  if inside.2.atEnd then
                    content cx base (next.resume inside.2)
                      (Draft.addCopies cx.options.noBlanks (pending.flush cx.options here) inside.1)
                      path .empty
                  else inside.2.fail (.endTagInEntity entity)
        else if r.startsWith "]]>" then
          r.report cx.options .sectionEndInText >>= fun next =>
            (next.skip 3).extend cx.options pending "]]>".toList >>= fun pending =>
              content cx base (next.skip 3) here path pending
        else r.char cx.options >>= fun read =>
          read.2.extend cx.options pending [read.1] >>= fun pending =>
            content cx base read.2 here path pending := by
  rw [content.eq_def]
  split
  · simp only [*]
    split
    · rfl
    · split <;> rename_i noted <;> rw [noted] <;> rfl
  · simp only [*]
    congr 1
    · congr 1
      · split
        · rfl
        · split <;> rename_i closed <;> simp only [closed, bind, Except.bind]
      · split <;> rename_i found <;> rw [found] <;> rfl
    · congr 1
      · split <;> rename_i found <;> simp only [found, bind, Except.bind]
        · split <;> rename_i extended <;> rw [extended]
        · congr 1
          · split <;> rename_i extended <;> rw [extended]
          · split <;> rename_i inside <;> rw [inside]
      · congr 1
        · split <;> rename_i noted <;> simp only [noted, bind, Except.bind]
          split <;> rename_i extended <;> rw [extended]
        · split <;> rename_i read <;> simp only [read, bind, Except.bind]
          split <;> rename_i extended <;> rw [extended]

theorem recovers_content (cx : Context) (base : Level) (r : Reader) (here : List Draft)
    (path : List OpenElement) (pending : Pending) :
    Recovers (content cx.strict base r here path pending)
      (content cx.recovering base r here path pending) r.log.reports := by
  rw [content_eq, content_eq]
  split
  · split
    · exact .done rfl
    · exact .bind (recovers_report ..) fun next noted => recovers_content cx base next ..
  · rename_i more
    refine .ite (fun _ => .ite (fun _ => ?_) fun _ => ?_) fun _ => .ite (fun _ => ?_)
      fun _ => .ite (fun _ => ?_) fun _ => ?_
    · split
      · exact .done rfl
      · exact .bind (recovers_endTag ..) fun next closed => recovers_content cx base next ..
    · refine .bind (recovers_item ..) fun found read => ?_
      rcases found with ⟨kind | tag, next⟩
      · exact recovers_content cx base next ..
      · exact recovers_content cx base next ..
    · refine .bind (recovers_reference ..) fun found read => ?_
      rcases found with ⟨found | ⟨entity, replacement⟩, next⟩
      · exact .within fun pending _ => recovers_content cx base next ..
      · refine .ite (fun _ => .within fun pending _ => recovers_content cx base next ..) fun _ => ?_
        exact .bind (recovers_content (cx.opening entity) (base.inside path)
            (next.enter replacement) [] [] .empty) fun inside _ =>
          .ite (fun _ => recovers_content cx base (next.resume inside.2) ..) fun _ => .fail
    · refine .bind (recovers_report ..) fun next noted => .within fun pending _ => ?_
      have shorter : (next.skip 3).rest.length < r.rest.length := by
        rw [← rest_report noted]
        exact length_skip_lt (by decide) (by simp [rest_report noted, more])
      exact recovers_content cx base (next.skip 3) ..
    · exact .bind (recovers_char ..) fun read found => .within fun pending _ =>
        recovers_content cx base read.2 ..
  termination_by (cx.unopened, r.rest.length, path.length)
  decreasing_by
    · rw [rest_report noted]
      exact .right _ (.right _ (by simp only [*, List.length_cons, Nat.lt_succ_self]))
    · exact .right _ (.left _ _ (length_lt_of_endTag closed))
    · exact .right _ (.left _ _ (length_lt_of_item read))
    · exact .right _ (.left _ _ (length_lt_of_item read))
    · exact .right _ (.left _ _ (length_lt_of_reference read))
    · exact .right _ (.left _ _ (length_lt_of_reference read))
    · have opens : (cx.recovering.opening entity).unopened < cx.recovering.unopened :=
        unopened_lt_of_reference read
      exact .left _ _ opens
    · exact .right _ (.left _ _ (by simpa using length_lt_of_reference read))
    · exact .right _ (.left _ _ shorter)
    · exact .right _ (.left _ _ (length_lt_of_char found))

theorem recovers_rootElement (r : Reader) (cx : Context) :
    Recovers (r.rootElement cx.strict) (r.rootElement cx.recovering) r.log.reports :=
  .bind (recovers_startTag ..) fun _ _ => .ite (fun _ => .done rfl) fun _ =>
    .bind (recovers_content ..) fun _ _ => .ite
      (fun _ => .bind (recovers_report ..) fun _ _ => .done rfl)
      fun _ => .bind (recovers_endTag ..) fun _ _ => .done rfl

/-! ## Whole documents -/

theorem misc_eq {options : ParseOptions} {r : Reader} {before : List Draft} :
    misc options r before =
      if r.skipBlanks.startsWith "<!--" then
        r.skipBlanks.comment options >>= fun read =>
          misc options read.2 (.written (.comment read.1) [] :: before)
      else if r.skipBlanks.startsWith "<?" then
        r.skipBlanks.instruction options >>= fun read =>
          misc options read.2 (.written (.instruction read.1.1 read.1.2) [] :: before)
      else .ok (before, r.skipBlanks) := by
  rw [misc]
  congr 1
  · split <;> rename_i read <;> rw [read] <;> rfl
  · congr 1
    split <;> rename_i read <;> rw [read] <;> rfl

theorem recovers_misc (options : ParseOptions) (r : Reader) (before : List Draft) :
    Recovers (misc options.strict r before) (misc options.recovering r before) r.log.reports := by
  rw [misc_eq, misc_eq]
  exact .ite
    (fun _ => .bind (recovers_comment ..) fun read found => recovers_misc options read.2 _)
    fun _ => .ite
      (fun _ => .bind (recovers_instruction ..) fun read found => recovers_misc options read.2 _)
      fun _ => .done rfl
  termination_by r.rest.length
  decreasing_by
    · exact Nat.lt_of_lt_of_le (length_lt_of_comment found) (length_skipBlanks_le r)
    · exact Nat.lt_of_lt_of_le (length_lt_of_instruction found) (length_skipBlanks_le r)

theorem recovers_typeDeclaration (r : Reader) (options : ParseOptions) (before : List Draft) :
    Recovers (r.typeDeclaration options.strict before)
      (r.typeDeclaration options.recovering before) r.log.reports :=
  .ite
    (fun _ => .bind (recovers_doctype ..) fun _ _ => .bind (recovers_misc ..)
      fun _ _ => .done rfl)
    fun _ => .done rfl

end Markup.Xml.Reader

namespace Markup.Xml

open Reader

theorem recovers_parse (options : ParseOptions) (text : String) :
    Recovers (parse options.strict text) (parse options.recovering text) [] :=
  .bind (recovers_head _) fun _ _ => .bind (recovers_misc ..) fun _ _ =>
    .bind (recovers_typeDeclaration ..) fun _ _ => .ite (fun _ => .fail) fun _ =>
      .ite (fun _ => .fail) fun _ => .bind (recovers_rootElement _ ⟨options, _, []⟩) fun _ _ =>
        .bind (recovers_misc ..) fun _ _ => .ite
          (fun _ => .bind (.done rfl) fun _ _ => .done (List.reverse_reverse _))
          fun _ => .bind (recovers_report ..) fun _ _ => .done (List.reverse_reverse _)

end Markup.Xml

namespace Markup.Document

open Xml

/-! ## Documents -/

theorem diagnostics_ofDraft (draft : DocumentDraft) :
    (ofDraft draft).diagnostics = draft.diagnostics :=
  congrArg DocumentDraft.diagnostics (head_ofDraft draft)

/-- Recovery extends strict parsing. What the strict parser accepts is read the same, with the same
reports; what is read without a report is accepted by the strict parser; so a text that it rejects
is only ever read with a report, and what cannot be read with recovery it rejects. -/
theorem recovering_extends_strict (options : ParseOptions) (text : String) :
    (∀ doc, ofXml options.strict text = .ok doc → ofXml options.recovering text = .ok doc) ∧
    (∀ doc, ofXml options.recovering text = .ok doc → doc.diagnostics = [] →
      ofXml options.strict text = .ok doc) ∧
    (∀ failure doc, ofXml options.strict text = .error failure →
      ofXml options.recovering text = .ok doc → doc.diagnostics ≠ []) ∧
    (∀ failure, ofXml options.recovering text = .error failure →
      ∃ failure, ofXml options.strict text = .error failure) := by
  have step := recovers_parse options text
  have kept : ∀ doc, ofXml options.strict text = .ok doc →
      ofXml options.recovering text = .ok doc := by
    intro doc read
    obtain ⟨draft, parsed, rfl⟩ := map_eq_ok.mp read
    exact map_eq_ok.mpr ⟨draft, step.kept parsed, rfl⟩
  have quiet : ∀ doc, ofXml options.recovering text = .ok doc → doc.diagnostics = [] →
      ofXml options.strict text = .ok doc := by
    intro doc read silent
    obtain ⟨draft, parsed, rfl⟩ := map_eq_ok.mp read
    rw [diagnostics_ofDraft] at silent
    exact map_eq_ok.mpr ⟨draft, step.quiet parsed (List.reverse_eq_nil_iff.mpr silent), rfl⟩
  refine ⟨kept, quiet, fun failure doc rejected read silent => ?_, fun failure rejected => ?_⟩
  · rw [quiet doc read silent] at rejected
    cases rejected
  · cases strict : ofXml options.strict text with
    | error failure => exact ⟨failure, rfl⟩
    | ok doc => rw [kept doc strict] at rejected; cases rejected

/-- The end of a CDATA section stops a strict reading of text and is reported by a recovering one,
while an element without content is read alike. -/
theorem recovering_extends_strict_sectionEnd :
    (∃ failure doc, ofXml (ParseOptions.strict {}) "<a>]]></a>" = .error failure ∧
      ofXml (ParseOptions.recovering {}) "<a>]]></a>" = .ok doc ∧ doc.diagnostics ≠ []) ∧
    ∃ doc, ofXml (ParseOptions.strict {}) "<a/>" = .ok doc ∧
      ofXml (ParseOptions.recovering {}) "<a/>" = .ok doc := by
  have start : isNameStart 'a' = true := by decide
  have stopped : (Reader.ofText "<a>]]></a>").skipBlanks.skipBlanks.rootElement
      ⟨ParseOptions.strict {}, .empty, []⟩ = .error ⟨.sectionEndInText, some ⟨1, 4, 3⟩, []⟩ := by
    cbv
  have reported : (Reader.ofText "<a>]]></a>").skipBlanks.skipBlanks.rootElement
      ⟨ParseOptions.recovering {}, .empty, []⟩ =
      .ok (.written (.element ⟨none, "a"⟩ none []) [.written (.text "]]>") []],
        ⟨[], ⟨1, 11, 10⟩, none, ⟨[⟨.error, .sectionEndInText, ⟨1, 4, 3⟩⟩], 0⟩⟩) := by
    cbv
  have alike : (Reader.ofText "<a/>").skipBlanks.skipBlanks.rootElement
      ⟨ParseOptions.strict {}, .empty, []⟩ =
      .ok (.written (.element ⟨none, "a"⟩ none []) [], ⟨[], ⟨1, 5, 4⟩, none, ⟨[], 0⟩⟩) := by
    cbv
  have rejected : ofXml (ParseOptions.strict {}) "<a>]]></a>" =
      .error ⟨.sectionEndInText, some ⟨1, 4, 3⟩, []⟩ := by
    rw [ofXml, parse_eq start (by rfl), stopped]
    rfl
  have read : ∃ doc, ofXml (ParseOptions.recovering {}) "<a>]]></a>" = .ok doc :=
    ⟨_, map_eq_ok.mpr ⟨_, parse_eq_ok start (by rfl) reported rfl, rfl⟩⟩
  have accepted : ∃ doc, ofXml (ParseOptions.strict {}) "<a/>" = .ok doc :=
    ⟨_, map_eq_ok.mpr ⟨_, parse_eq_ok start (by rfl) alike rfl, rfl⟩⟩
  obtain ⟨doc, read⟩ := read
  obtain ⟨doc', accepted⟩ := accepted
  exact ⟨⟨_, doc, rejected, read,
      (recovering_extends_strict {} "<a>]]></a>").2.2.1 _ doc rejected read⟩,
    doc', accepted, (recovering_extends_strict {} "<a/>").1 doc' accepted⟩

end Markup.Document
