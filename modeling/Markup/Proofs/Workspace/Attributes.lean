import Markup.Proofs.Workspace.Prefixless

/-!
# Attributes read back

An attribute that was set is read with its new value, and one that was removed is not read any more,
as long as the attributes of the element are in the namespaces that their prefixes stand for. That
is so in what was parsed strictly by the rules on namespaces, and for names without a prefix it is
so everywhere. Lenient parsing keeps prefixes and looks none of them up, so that a name with a
prefix may be read as an attribute that is neither written nor removed by it.
-/

namespace Markup

open Document

/-! ## Documents in which prefixes stand for their namespaces -/

namespace Document.Whole

variable {doc : Document} {top id : NodeId} {attr : Attribute} {written : String}

theorem sound_attribute (whole : doc.Whole top) (attached : doc.isAttached id = true)
    (listed : attr ∈ doc.attributes id) : attr.IsSound (doc.namespaceOf? id) := by
  rw [attributes] at listed
  have isElement : (doc.kind id).isElement = true := by
    cases kind : doc.kind id with
    | element => rfl
    | _ =>
      rw [kind] at listed
      cases listed
  have sound := whole.sound id (whole.within attached isElement)
  obtain ⟨name, uri, attributes, kind⟩ := NodeKind.exists_of_isElement isElement
  rw [kind] at sound listed
  exact sound.listed attr listed

/-- The prefix `xml` is declared for no other namespace. -/
theorem eq_of_declares_xml (whole : doc.Whole top) (attached : doc.isAttached id = true)
    {uri : String} (declared : (some "xml", uri) ∈ doc.declarations id) : uri = xmlNamespace := by
  rw [declarations_eq, List.mem_flatMap] at declared
  obtain ⟨above, path, bound⟩ := declared
  obtain ⟨attr, listed, declares, rfl⟩ := Attribute.exists_of_mem_bindings bound
  exact (whole.sound_attribute (whole.linked.isAttached_above attached path) listed).fixed declares

/-- Nothing obstructs an attribute that is set. -/
theorem isObstructed_eq_false (whole : doc.Whole top) (attached : doc.isAttached id = true)
    (written : String) (given : Option String) : doc.isObstructed id written given = false := by
  refine Bool.eq_false_iff.mpr fun obstructed => ?_
  cases given with
  | none =>
    obtain ⟨other, listed, called⟩ := List.any_eq_true.mp obstructed
    obtain ⟨proper, spelled⟩ : other.isDeclaration = false ∧ other.name.toText = written := by
      simpa using called
    have sound := whole.sound_attribute attached ((List.takeWhile_sublist _).mem listed)
    have name : QName.ofText written = other.name := by
      rw [← spelled, QName.ofText_toText sound.formed]
    have uri : other.uri = other.name.nsPrefix.bind fun nsPrefix =>
        doc.namespaceOf? id (some nsPrefix) := by
      rw [sound.uri_eq, Attribute.uriIn, proper]
      cases other.name.nsPrefix <;> rfl
    have apart := List.mem_takeWhile_imp listed
    simp [Attribute.isOther, Attribute.key, target, proper, name, uri] at apart
  | some given =>
    rw [isObstructed] at obstructed
    cases bound : doc.binding? id given with
    | none =>
      rw [bound] at obstructed
      cases obstructed
    | some binding =>
      obtain ⟨nsPrefix, uri⟩ := binding
      obtain ⟨rfl, distinct⟩ : nsPrefix = "xml" ∧ uri ≠ xmlNamespace := by
        simpa [bound] using obstructed
      rcases (binding?_spec bound).2 with stands | ⟨-, declared⟩
      · exact distinct (Option.some.inj stands).symm
      · exact distinct (whole.eq_of_declares_xml attached declared)

/-- All that is read by a name is meant by it. -/
theorem isMeant_of_isRead (whole : doc.Whole top) (attached : doc.isAttached id = true)
    (listed : attr ∈ doc.attributes id) (read : isRead written attr = true) :
    doc.isMeant id written attr = true := by
  have sound := whole.sound_attribute attached listed
  obtain ⟨proper, spelled | localName⟩ : attr.isDeclaration = false ∧
      (attr.name.toText = written ∨ attr.name.localName = written) := by
    simpa [isRead] using read
  · have name : QName.ofText written = attr.name := by
      rw [← spelled, QName.ofText_toText sound.formed]
    rw [isMeant, name, beq_self_eq_true, Bool.true_and, Option.all_eq_true]
    intro nsPrefix prefixed
    have resolved := sound.resolved proper (by rw [prefixed]; rfl)
    have uri : attr.uri = doc.namespaceOf? id (some nsPrefix) := by
      rw [sound.uri_eq, Attribute.uriIn, proper, prefixed]
    rw [resolved, ← uri, beq_self_eq_true, Bool.and_self]
  · refine isMeant_of_plain (fun colon => ?_) read
    rw [← localName] at colon
    exact ((isPlainName_iff.mp (QName.isWellFormed_iff.mp sound.formed).2).2 _ colon).1 rfl

end Document.Whole

theorem Document.lt_size_of_isAttached {doc : Document} {id : NodeId}
    (attached : doc.isAttached id = true) : id.index < doc.slots.size := by
  rw [isAttached, Bool.and_eq_true, Bool.and_eq_true] at attached
  exact (contains_iff.mp attached.1.1).1

/-! ## Calls on handles -/

theorem Session.run_eq {α : Type} {session : Session α} {workspace : Workspace} {value : α}
    (told : (session.run workspace).1 = .ok value) :
    session.run workspace = (.ok value, session.effect workspace) := Prod.ext told rfl

namespace Handle

variable {handle : Handle} {workspace after : Workspace} {written value : String}
  {given : Option String}

theorem run_attribute? (attached : (workspace.tree handle.document).isAttached handle.node = true)
    (name : String) (given : Option String) : (handle.attribute? name given).run workspace =
      (.ok (((workspace.tree handle.document).attributeNamed? handle.node name given).map
        (·.value)), workspace) := by
  rw [attribute?, readOff, run_read, if_pos attached]

theorem exists_of_run_editOnly {change : Document → NodeId → Except Refusal Document}
    (done : (handle.editOnly change).run workspace = (.ok (), after)) :
    (workspace.tree handle.document).isAttached handle.node = true ∧
      ∃ changed, change (workspace.tree handle.document) handle.node = .ok changed ∧
        after = workspace.put handle.document changed := by
  rw [run_editOnly] at done
  split at done
  · rename_i attached
    split at done
    · rename_i changed same
      exact ⟨attached, changed, same, (congrArg Prod.snd done).symm⟩
    · cases congrArg Prod.fst done
  · cases congrArg Prod.fst done

/-- What is set is read, or what was read before if that is obstructed, and all other attributes of
the element stay. -/
theorem read_after_setAttribute
    (done : (handle.setAttribute written given value).run workspace = (.ok (), after)) :
    let doc := workspace.tree handle.document
    let others := Attribute.isOther (doc.target handle.node written given)
    ((after.tree handle.document).attributes handle.node).filter others =
        (doc.attributes handle.node).filter others ∧
      ∃ before, (handle.attribute? written given).run workspace = (.ok before, workspace) ∧
        (handle.attribute? written given).run after = (.ok
          (if doc.isObstructed handle.node written given then before else some value), after) := by
  dsimp only
  obtain ⟨attached, changed, assigned, rfl⟩ := exists_of_run_editOnly done
  obtain ⟨attr, sets, rfl, rfl⟩ := exists_of_assign assigned
  have opened := Workspace.opened_of_isElement sets.isElement
  have inside := lt_size_of_isAttached attached
  have attached' : ((workspace.put handle.document
      ((workspace.tree handle.document).setAttribute handle.node attr)).tree
        handle.document).isAttached handle.node = true := by
    rw [Workspace.tree_put_self opened, Document.setAttribute, isAttached_modifyAttributes]
    exact attached
  refine ⟨?_, _, run_attribute? attached written given, ?_⟩
  · rw [Workspace.tree_put_self opened]
    exact sets.filter_attributes inside
  · rw [run_attribute? attached', Workspace.tree_put_self opened]
    cases given with
    | none =>
      rw [sets.attributeNamed?_written inside]
      split <;> rfl
    | some given =>
      rw [sets.attributeNamed?_given inside]
      split <;> rfl

/-- After a name was removed nothing is read by it, unless something was read by it that it does not
mean. -/
theorem read_after_removeAttribute
    (done : (handle.removeAttribute written).run workspace = (.ok (), after)) :
    let doc := workspace.tree handle.document
    ∃ found, (handle.attribute? written none).run after = (.ok found, after) ∧
      (found = none ↔ ∀ attr ∈ doc.attributes handle.node, isRead written attr = true →
        doc.isMeant handle.node written attr = true) := by
  dsimp only
  obtain ⟨attached, changed, same, rfl⟩ := exists_of_run_editOnly done
  cases same
  have inside := lt_size_of_isAttached attached
  by_cases opened : handle.document < workspace.documents.size
  · refine ⟨_, run_attribute? ?_ written none, ?_⟩
    · rw [Workspace.tree_put_self opened, isAttached_unassign]
      exact attached
    · rw [Workspace.tree_put_self opened, Option.map_eq_none_iff]
      exact attributeNamed?_unassign inside
  · have outside := Nat.le_of_not_lt opened
    have blank := Workspace.tree_of_size_le outside
    have blank' : (workspace.put handle.document ((workspace.tree handle.document).unassign
        handle.node written)).tree handle.document = .empty :=
      Workspace.tree_of_size_le (by simpa [Workspace.put] using outside)
    refine ⟨_, run_attribute? ?_ written none, ?_⟩
    · rw [blank', ← blank]
      exact attached
    · rw [blank', blank, Option.map_eq_none_iff, attributeNamed?_eq_none, attributes, kind_empty]
      exact iff_of_true (List.forall_mem_nil _) (List.forall_mem_nil _)

end Handle

/-! ## Runs -/

namespace Workspace

/-- Documents are followed from their beginnings, strictly or leniently parsed, through any calls on
handles. Whenever an attribute is set, all other attributes of the element stay, and it is read with
its new value unless it is obstructed; then it is read as before. Whenever a name is removed, it is
read as nothing exactly if all that was read by it is meant by it. Names without a prefix are never
obstructed and mean all that is read by them. Where the documents were parsed strictly by the rules
on namespaces and nothing is captured, this holds of all names. -/
theorem attributes_read_back {start : Workspace}
    (beginning : ∀ number < start.documents.size, IsBeginning (start.tree number))
    {deeds : List Deed} (handled : ∀ deed ∈ deeds, deed.IsThroughHandles) (handle : Handle)
    (written : String) :
    let workspace := start.afterDeeds deeds
    let doc := workspace.tree handle.document
    let id := handle.node
    (∀ given value after,
      (handle.setAttribute written given value).run workspace = (.ok (), after) →
        ((after.tree handle.document).attributes id).filter
            (Attribute.isOther (doc.target id written given)) =
          (doc.attributes id).filter (Attribute.isOther (doc.target id written given)) ∧
        ∃ before, (handle.attribute? written given).run workspace = (.ok before, workspace) ∧
          (handle.attribute? written given).run after =
            (.ok (if doc.isObstructed id written given then before else some value), after)) ∧
    (∀ after, (handle.removeAttribute written).run workspace = (.ok (), after) →
      ∃ found, (handle.attribute? written none).run after = (.ok found, after) ∧
        (found = none ↔ ∀ attr ∈ doc.attributes id, isRead written attr = true →
          doc.isMeant id written attr = true)) ∧
    (':' ∉ written.toList → doc.isObstructed id written none = false ∧
      ∀ attr ∈ doc.attributes id, isRead written attr = true →
        doc.isMeant id written attr = true) ∧
    ((∀ number < start.documents.size, (start.tree number).IsParsed) → start.Admits deeds →
      doc.isAttached id = true → (∀ given, doc.isObstructed id written given = false) ∧
        ∀ attr ∈ doc.attributes id, isRead written attr = true →
          doc.isMeant id written attr = true) := by
  have only := (needsPrefixes_of_beginnings beginning).afterDeeds handled
  refine ⟨fun given value after done => Handle.read_after_setAttribute done,
    fun after done => Handle.read_after_removeAttribute done, fun plain => ⟨?_, ?_⟩,
    fun parsed admitted attached => ?_⟩
  · exact isObstructed_of_plain (only handle.document handle.node) plain
  · exact fun attr _ read => isMeant_of_plain plain read
  · have final := (isPortable_of_parsed parsed).afterDeeds admitted
    obtain ⟨top, portable⟩ := final.exists_top attached
    have whole := portable.toWhole
    exact ⟨whole.isObstructed_eq_false attached written, fun attr listed read =>
      whole.isMeant_of_isRead attached listed read⟩

/-- A paragraph whose language is given by an attribute with the prefix `xml`. -/
def paragraph : Document :=
  (((Document.empty.grow root (.plainElement "html")).grow ⟨2, 0⟩ (.plainElement "body")).grow
    ⟨3, 0⟩ (.element ⟨none, "p"⟩ none [⟨⟨some "xml", "lang"⟩, none, "en"⟩])).grow ⟨4, 0⟩ (.text "x")

theorem parse_paragraph : Html.parse {} "<p xml:lang=\"en\">x</p>" = .ok paragraph := by
  have parsed : (Html.parse {} "<p xml:lang=\"en\">x</p>").toOption = some paragraph := by
    decide +kernel
  cases outcome : Html.parse {} "<p xml:lang=\"en\">x</p>" with
  | error failure => rw [outcome] at parsed; cases parsed
  | ok doc => rw [outcome] at parsed; exact congrArg _ (Option.some.inj parsed)

/-- The paragraph as an open document. -/
def lenient : Workspace := { documents := #[.ofTree paragraph .html] }

/-- The handle of the paragraph. -/
def paragraphHandle : Handle := ⟨0, ⟨4, 0⟩⟩

/-- A call that gives the paragraph a title. -/
def entitle : Deed := .call paragraphHandle (.setAttribute "title" none "t")

/-- A title is read as it was set last, and the name of the language without its prefix, once it was
removed, is read as nothing. -/
theorem attributes_read_back_title :
    (∃ after, (paragraphHandle.setAttribute "title" none "u").run (lenient.afterDeeds [entitle]) =
        (.ok (), after) ∧
      (paragraphHandle.attribute? "title" none).run after = (.ok (some "u"), after)) ∧
    ∃ after, (paragraphHandle.removeAttribute "lang").run (lenient.afterDeeds [entitle]) =
        (.ok (), after) ∧
      (paragraphHandle.attribute? "lang" none).run after = (.ok none, after) := by
  have beginning : ∀ number < lenient.documents.size, IsBeginning (lenient.tree number) := by
    rintro (_ | number) small
    · exact .html parse_paragraph
    · exact absurd small (by simp [lenient])
  have handled : ∀ deed ∈ [entitle], deed.IsThroughHandles := List.forall_mem_singleton.mpr trivial
  have set : ((paragraphHandle.setAttribute "title" none "u").run
      (lenient.afterDeeds [entitle])).1 = .ok () := by cbv
  have removed : ((paragraphHandle.removeAttribute "lang").run
      (lenient.afterDeeds [entitle])).1 = .ok () := by cbv
  obtain ⟨read, -, plain, -⟩ := attributes_read_back beginning handled paragraphHandle "title"
  obtain ⟨-, read', plain', -⟩ := attributes_read_back beginning handled paragraphHandle "lang"
  constructor
  · obtain ⟨-, before, -, shown⟩ := read none "u" _ (Session.run_eq set)
    rw [(plain (by simp)).1] at shown
    exact ⟨_, Session.run_eq set, shown⟩
  · obtain ⟨found, shown, none⟩ := read' _ (Session.run_eq removed)
    rw [none.mpr (plain' (by simp)).2] at shown
    exact ⟨_, Session.run_eq removed, shown⟩

/-- The language of the paragraph is neither overwritten nor removed by its name with the prefix,
and it is what this name is read as. -/
theorem attribute_not_read_back :
    Html.parse {} "<p xml:lang=\"en\">x</p>" = .ok paragraph ∧
    (∃ after, (paragraphHandle.setAttribute "xml:lang" none "fr").run lenient = (.ok (), after) ∧
      (paragraphHandle.attribute? "xml:lang" none).run after = (.ok (some "en"), after)) ∧
    ∃ after, (paragraphHandle.removeAttribute "xml:lang").run lenient = (.ok (), after) ∧
      (paragraphHandle.attribute? "xml:lang" none).run after = (.ok (some "en"), after) := by
  have set : ((paragraphHandle.setAttribute "xml:lang" none "fr").run lenient).1 = .ok () := by cbv
  have removed : ((paragraphHandle.removeAttribute "xml:lang").run lenient).1 = .ok () := by cbv
  exact ⟨parse_paragraph, ⟨_, Session.run_eq set, by cbv⟩, _, Session.run_eq removed, by cbv⟩

end Workspace
end Markup
