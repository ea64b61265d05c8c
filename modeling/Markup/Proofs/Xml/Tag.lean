import Markup.Proofs.Xml.Escape

/-!
# Tags that can be read

A tag that is written is read back as it was if its names are names within the limit, no two of its
attributes have one name, and every prefix is bound, by the tag itself or around it, to the
namespace that goes with it. The strict parser yields no other tags.
-/

namespace Markup

namespace Attribute

/-- An attribute as it is read before its prefix is looked up. -/
def bare (attr : Attribute) : Attribute := { attr with uri := none }

@[simp] theorem name_bare (attr : Attribute) : attr.bare.name = attr.name := rfl

@[simp] theorem isDeclaration_bare (attr : Attribute) :
    attr.bare.isDeclaration = attr.isDeclaration := rfl

@[simp] theorem declared?_bare (attr : Attribute) : attr.bare.declared? = attr.declared? := rfl

end Attribute

namespace Xml

theorem Scope.declare_bare (scope : Scope) (attributes : List Attribute) :
    scope.declare (attributes.map Attribute.bare) = scope.declare attributes := by
  rw [declare, declare, List.foldl_map]
  rfl

/-- The namespace that an attribute has where its prefix is looked up in a scope. -/
def Scope.uriOf (scope : Scope) (attr : Attribute) : Option String :=
  match attr.isDeclaration, attr.name.nsPrefix with
  | false, some nsPrefix => scope.resolve (some nsPrefix)
  | _, _ => none

/-- An attribute that can be read inside a scope. -/
structure IsAttribute (options : ParseOptions) (scope : Scope) (attr : Attribute) : Prop where
  named : IsName options attr.name.toText
  split : QName.ofText attr.name.toText = attr.name
  legal : IsLegal attr.value.toList
  uri_eq : attr.uri = scope.uriOf attr
  bound : attr.isDeclaration = false → attr.name.nsPrefix.isSome → attr.uri.isSome

/-- An element whose start tag can be read inside a scope. -/
structure IsTag (options : ParseOptions) (scope : Scope) (name : QName) (uri : Option String)
    (attributes : List Attribute) : Prop where
  named : IsName options name.toText
  split : QName.ofText name.toText = name
  uri_eq : uri = (scope.declare attributes).resolve name.nsPrefix
  bound : name.nsPrefix.isSome → uri.isSome
  listed : ∀ attr ∈ attributes, IsAttribute options (scope.declare attributes) attr
  distinct : (attributes.map (·.name)).Nodup

theorem toList_writeAttribute (attr : Attribute) :
    (writeAttribute attr).toList = ' ' :: attr.name.toText.toList ++
      '=' :: '"' :: (escapeAttribute attr.value).toList ++ ['"'] := by
  simp [writeAttribute, toString]

/-- The text of a start tag up to its end. -/
def writtenHead (name : QName) (attributes : List Attribute) : List Char :=
  '<' :: name.toText.toList ++ attributes.flatMap fun attr => (writeAttribute attr).toList

/-- The end of a start tag. -/
def writtenEnd (closed : Bool) : List Char := if closed then "/>".toList else ">".toList

namespace Reader

variable {r next : Reader} {cx : Context} {options : ParseOptions} {tail : List Char}
  {scope : Scope} {attr : Attribute} {attributes found : List Attribute} {name : QName}
  {uri : Option String}

/-! ## Tags as they are written -/

/-- An attribute is read after the blank that is written before it. -/
theorem exists_attr (room : 4 ≤ cx.options.maxNameLength)
    (within : IsAttribute cx.options scope attr)
    (spelled : r.rest = (writeAttribute attr).toList ++ tail) :
    r.seesBlank = true ∧ r.skipBlanks.seesTagEnd = false ∧
      ∃ next, r.skipBlanks.attr cx = .ok (attr.bare, next) ∧ next.rest = tail := by
  obtain ⟨c, letters, named, start⟩ := within.named.exists_cons
  have equals : isNameChar '=' = false := by decide
  have other := ne_of_isNameStart start
  have solid := solid_of_isNameStart start
  rw [toList_writeAttribute] at spelled
  have bare : r.skipBlanks.rest = attr.name.toText.toList ++
      ('=' :: '"' :: (escapeAttribute attr.value).toList ++ '"' :: tail) := by
    have begins : Text.isMarkupBlank ' ' = true := by decide
    rw [skipBlanks_rest, spelled, named]
    simp [begins, solid]
  obtain ⟨first, read, rest⟩ := exists_name within.named bare (by simp [equals])
  have plain := rest_skipBlanks_cons rest (by decide)
  have expected := expect_eq_ok (plain.trans rest)
  have after : (first.skipBlanks.skip 1).rest =
      '"' :: (escapeAttribute attr.value).toList ++ '"' :: tail := by
    rw [rest_skip, plain, rest]
    rfl
  have quoted := rest_skipBlanks_cons after (by decide)
  obtain ⟨last, value, ends⟩ := exists_attributeValue room within.legal (quoted.trans after)
  refine ⟨?_, ?_, last, ?_, ends⟩
  · rw [seesBlank, spelled]
    rfl
  · rw [named, List.cons_append] at bare
    have notClosed : r.skipBlanks.startsWith "/>" = false :=
      startsWith_eq_false rfl bare (other '/' (by decide)).symm
    simp [seesTagEnd, atEnd, sees, bare, notClosed, other '>' (by decide)]
  · rw [Reader.attr]
    simp [read, expected, value, within.split, Attribute.bare, bind, Except.bind, pure, Except.pure]

theorem attributes_cons (blank : r.seesBlank = true) (more : r.skipBlanks.seesTagEnd = false)
    (read : r.skipBlanks.attr cx = .ok (attr, next)) (free : attr.name ∉ found.map (·.name)) :
    Reader.attributes cx r found = Reader.attributes cx next (attr :: found) := by
  have kept : next.keepAttribute cx.options found attr = .ok (attr :: found, next) := by
    rw [keepAttribute, if_neg]
    intro taken
    obtain ⟨other, listed, same⟩ := List.any_eq_true.mp taken
    exact free (List.mem_map.mpr ⟨other, listed, by simpa using same⟩)
  rw [Reader.attributes]
  simp only [more, blank, Bool.false_eq_true, ↓reduceIte, Bool.not_true]
  split
  · rename_i failed
    rw [read] at failed
    cases failed
  · rename_i again
    rw [read] at again
    cases again
    split
    · rename_i failed
      rw [kept] at failed
      cases failed
    · rename_i again
      rw [kept] at again
      cases again
      rfl

/-- What may follow the attributes of a start tag. -/
def IsTagEnd (tail : List Char) : Prop := "/>".toList <+: tail ∨ ">".toList <+: tail

/-- The attributes of a tag are read in order, latest first. -/
theorem exists_attributes (room : 4 ≤ cx.options.maxNameLength)
    (listed : ∀ attr ∈ attributes, IsAttribute cx.options scope attr)
    (distinct : (found.reverse.map (·.name) ++ attributes.map (·.name)).Nodup)
    (spelled : r.rest = attributes.flatMap (fun attr => (writeAttribute attr).toList) ++ tail)
    (closes : IsTagEnd tail) :
    ∃ next,
      Reader.attributes cx r found = .ok ((attributes.map Attribute.bare).reverse ++ found, next) ∧
      next.rest = tail := by
  induction attributes generalizing r found with
  | nil =>
    have solid : r.skipBlanks.rest = tail := by
      rcases closes with ⟨rest, rfl⟩ | ⟨rest, rfl⟩
      · exact (rest_skipBlanks_cons spelled (by decide)).trans spelled
      · exact (rest_skipBlanks_cons spelled (by decide)).trans spelled
    have ended : r.skipBlanks.seesTagEnd = true := by
      rcases closes with begins | ⟨rest, rfl⟩
      · simp [seesTagEnd, startsWith_iff.mpr (solid ▸ begins)]
      · simp [seesTagEnd, sees, solid]
    refine ⟨r.skipBlanks, ?_, solid⟩
    rw [Reader.attributes]
    simp [ended]
  | cons attr attributes ih =>
    rw [List.flatMap_cons, List.append_assoc] at spelled
    obtain ⟨blank, more, middle, read, rest⟩ :=
      exists_attr room (listed attr List.mem_cons_self) spelled
    have free : attr.bare.name ∉ found.map (·.name) := by
      intro taken
      have apart := (List.nodup_append.mp distinct).2.2
      exact apart attr.name (by simpa using taken) attr.name (by simp) rfl
    obtain ⟨last, reads, ends⟩ := ih (fun other later => listed other (List.mem_cons_of_mem _ later))
      (show ((attr.bare :: found).reverse.map (·.name) ++ attributes.map (·.name)).Nodup by
        simpa using distinct) rest
    refine ⟨last, ?_, ends⟩
    rw [attributes_cons blank more read free, reads]
    simp

theorem boundUri_eq_ok {nsPrefix : String} (resolved : uri = scope.resolve (some nsPrefix))
    (bound : uri.isSome) : r.boundUri options scope nsPrefix = .ok (uri, r) := by
  obtain ⟨found, rfl⟩ := Option.isSome_iff_exists.mp bound
  simp [boundUri, ← resolved]

theorem resolveAttribute_eq_ok (within : IsAttribute options scope attr) :
    r.resolveAttribute options scope attr.bare = .ok (attr, r) := by
  obtain ⟨-, -, -, uri_eq, bound⟩ := within
  unfold Scope.uriOf at uri_eq
  unfold resolveAttribute
  simp only [Attribute.isDeclaration_bare, Attribute.name_bare]
  split
  · rename_i nsPrefix plain prefixed
    simp only [plain, prefixed] at uri_eq bound
    have found := bound trivial rfl
    rw [boundUri_eq_ok uri_eq found]
    rfl
  · rename_i other
    have none : attr.uri = none := by
      rw [uri_eq]
      split
      · rename_i plain prefixed
        exact absurd prefixed (other _ plain)
      · rfl
    rw [Attribute.bare, ← none]

theorem resolveAttributes_eq_ok (listed : ∀ attr ∈ attributes, IsAttribute options scope attr) :
    resolveAttributes options scope r (attributes.map Attribute.bare) = .ok (attributes, r) := by
  induction attributes with
  | nil => rfl
  | cons attr attributes ih =>
    have first : r.resolveAttribute options scope attr.bare = .ok (attr, r) :=
      resolveAttribute_eq_ok (listed attr List.mem_cons_self)
    have others := ih fun other later => listed other (List.mem_cons_of_mem _ later)
    simp [resolveAttributes, first, others, bind, Except.bind, pure, Except.pure]

theorem elementUri_eq_ok (uri_eq : uri = scope.resolve name.nsPrefix)
    (bound : name.nsPrefix.isSome → uri.isSome) :
    r.elementUri options scope name = .ok (uri, r) := by
  unfold elementUri
  split
  · rename_i plain
    rw [uri_eq, plain]
  · rename_i nsPrefix prefixed
    rw [prefixed] at uri_eq bound
    exact boundUri_eq_ok uri_eq (bound rfl)

theorem isTagEnd_writtenEnd (closed : Bool) : IsTagEnd (writtenEnd closed ++ tail) := by
  cases closed with
  | true => exact .inl ⟨tail, rfl⟩
  | false => exact .inr ⟨tail, rfl⟩

theorem tagEnd_eq_ok {closed : Bool} (spelled : r.rest = writtenEnd closed ++ tail) :
    ∃ next, r.tagEnd = .ok (closed, next) ∧ next.rest = tail := by
  cases closed with
  | true =>
    have begins : r.startsWith "/>" = true := startsWith_iff.mpr ⟨tail, spelled.symm⟩
    exact ⟨r.skip 2, by simp [tagEnd, begins], by rw [rest_skip, spelled]; rfl⟩
  | false =>
    have notClosed : r.startsWith "/>" = false := startsWith_eq_false rfl spelled (by decide)
    have ended : r.sees '>' = true := by rw [sees, spelled]; rfl
    exact ⟨r.skip 1, by simp [tagEnd, notClosed, ended], by rw [rest_skip, spelled]; rfl⟩

/-- No name goes on where attributes or the end of the tag are written. -/
theorem not_isNameChar_attributes (attributes : List Attribute) (closed : Bool) (tail : List Char) :
    (attributes.flatMap (fun attr => (writeAttribute attr).toList) ++
      (writtenEnd closed ++ tail)).head?.all (!isNameChar ·) = true := by
  cases attributes with
  | nil =>
    have ends : isNameChar '/' = false ∧ isNameChar '>' = false := by decide
    cases closed <;> simp [writtenEnd, ends]
  | cons attr attributes =>
    have blank : isNameChar ' ' = false := by decide
    simp [toList_writeAttribute, blank]

/-- A start tag is read as it was before it was written. -/
theorem exists_startTag (closed : Bool) {depth : Nat} (room : 4 ≤ cx.options.maxNameLength)
    (shallow : depth ≤ cx.options.maxDepth) (isTag : IsTag cx.options scope name uri attributes)
    (spelled : r.rest = writtenHead name attributes ++ (writtenEnd closed ++ tail)) :
    ∃ next, r.startTag cx depth scope =
        .ok (⟨name, uri, attributes, scope.declare attributes, closed⟩, next) ∧
      next.rest = tail := by
  rw [writtenHead, List.cons_append, List.cons_append, List.append_assoc] at spelled
  have opened := expect_eq_ok spelled
  obtain ⟨first, named, rest⟩ := exists_name isTag.named
    (show (r.skip 1).rest = _ by rw [rest_skip, spelled]; rfl)
    (not_isNameChar_attributes attributes closed tail)
  obtain ⟨second, listed, rest⟩ := exists_attributes room isTag.listed
    (show ((([] : List Attribute).reverse.map (·.name)) ++ attributes.map (·.name)).Nodup by
      simpa using isTag.distinct) rest (isTagEnd_writtenEnd closed)
  obtain ⟨last, ended, rest⟩ := tagEnd_eq_ok rest
  refine ⟨last, ?_, rest⟩
  have element : second.elementUri cx.options (scope.declare attributes) name = .ok (uri, second) :=
    elementUri_eq_ok isTag.uri_eq isTag.bound
  have resolved : resolveAttributes cx.options (scope.declare attributes) second
      (attributes.map Attribute.bare) = .ok (attributes, second) :=
    resolveAttributes_eq_ok isTag.listed
  rw [startTag, if_neg (Nat.not_lt.mpr shallow)]
  simp [opened, named, listed, Scope.declare_bare, isTag.split, element, resolved, ended, bind,
    Except.bind, pure, Except.pure]

/-- An end tag is read as it was written. -/
theorem exists_endTag (named : IsName options name.toText)
    (spelled : r.rest = "</".toList ++ name.toText.toList ++ '>' :: tail) :
    ∃ next, r.endTag options name = .ok next ∧ next.rest = tail := by
  have ends : isNameChar '>' = false := by decide
  obtain ⟨first, opened, rest⟩ := exists_expectWord
    (show r.rest = "</".toList ++ (name.toText.toList ++ '>' :: tail) by simp [spelled])
  obtain ⟨second, read, rest⟩ := exists_name named rest (by simp [ends])
  have solid := (rest_skipBlanks_cons rest (by decide)).trans rest
  have closed := expect_eq_ok solid
  refine ⟨second.skipBlanks.skip 1, ?_, by rw [rest_skip, solid]; rfl⟩
  simp [endTag, opened, read, closed, bind, Except.bind, pure, Except.pure]

/-! ## Tags as they are read -/

/-- What an attribute is right after it was read. -/
structure IsBare (options : ParseOptions) (attr : Attribute) : Prop where
  named : IsName options attr.name.toText
  split : QName.ofText attr.name.toText = attr.name
  legal : IsLegal attr.value.toList
  unbound : attr.uri = none

theorem isBare_of_attr (strict : cx.options.recover = false) (h : r.attr cx = .ok (attr, next)) :
    IsBare cx.options attr := by
  obtain ⟨⟨written, first⟩, named, h⟩ := bind_eq_ok.mp h
  obtain ⟨second, _, h⟩ := bind_eq_ok.mp h
  obtain ⟨⟨value, last⟩, read, h⟩ := bind_eq_ok.mp h
  cases h
  refine ⟨?_, ?_, isLegal_of_attributeValue strict read, rfl⟩
  · rw [QName.toText_ofText]
    exact (isName_of_name named).1
  · rw [QName.toText_ofText]

theorem of_keepAttribute (strict : options.recover = false) {kept : List Attribute}
    (h : r.keepAttribute options found attr = .ok (kept, next)) :
    kept = attr :: found ∧ next = r ∧ attr.name ∉ found.map (·.name) := by
  unfold keepAttribute at h
  split at h
  · obtain ⟨middle, reported, -⟩ := bind_eq_ok.mp h
    exact absurd reported (report_ne_ok strict)
  · rename_i free
    cases h
    refine ⟨rfl, rfl, fun taken => free ?_⟩
    obtain ⟨other, listed, same⟩ := List.mem_map.mp taken
    exact List.any_eq_true.mpr ⟨other, listed, by simpa using same⟩

theorem of_attributes (strict : cx.options.recover = false)
    (h : Reader.attributes cx r found = .ok (attributes, next))
    (bare : ∀ attr ∈ found, IsBare cx.options attr) (distinct : (found.map (·.name)).Nodup) :
    (∀ attr ∈ attributes, IsBare cx.options attr) ∧ (attributes.map (·.name)).Nodup := by
  fun_induction Reader.attributes cx r found with
  | case1 => cases h; exact ⟨bare, distinct⟩
  | case2 => exact absurd h not_fail
  | case3 => cases h
  | case4 => cases h
  | case5 r found _ _ attr middle read kept last keeps ih =>
    obtain ⟨rfl, rfl, free⟩ := of_keepAttribute strict keeps
    apply ih h
    · intro other listed
      rcases List.mem_cons.mp listed with rfl | earlier
      · exact isBare_of_attr strict read
      · exact bare other earlier
    · exact List.nodup_cons.mpr ⟨free, distinct⟩

theorem of_boundUri (strict : options.recover = false) {nsPrefix : String}
    (h : r.boundUri options scope nsPrefix = .ok (uri, next)) :
    uri = scope.resolve (some nsPrefix) ∧ uri.isSome := by
  unfold boundUri at h
  split at h
  · rename_i resolved
    cases h
    exact ⟨resolved.symm, rfl⟩
  · obtain ⟨middle, reported, -⟩ := bind_eq_ok.mp h
    exact absurd reported (report_ne_ok strict)

theorem of_elementUri (strict : options.recover = false)
    (h : r.elementUri options scope name = .ok (uri, next)) :
    uri = scope.resolve name.nsPrefix ∧ (name.nsPrefix.isSome → uri.isSome) := by
  unfold elementUri at h
  split at h
  · rename_i plain
    cases h
    simp [plain]
  · rename_i nsPrefix prefixed
    obtain ⟨same, found⟩ := of_boundUri strict h
    rw [prefixed]
    exact ⟨same, fun _ => found⟩

theorem of_resolveAttribute (strict : options.recover = false) (bare : IsBare options attr)
    {full : Attribute} (h : r.resolveAttribute options scope attr = .ok (full, next)) :
    full.bare = attr ∧ IsAttribute options scope full := by
  obtain ⟨named, splits, legal, unbound⟩ := bare
  unfold resolveAttribute at h
  split at h
  · rename_i nsPrefix plain prefixed
    obtain ⟨⟨uri, last⟩, resolved, h⟩ := bind_eq_ok.mp h
    cases h
    obtain ⟨same, found⟩ := of_boundUri strict resolved
    refine ⟨by rw [Attribute.bare, ← unbound], named, splits, legal, ?_, fun _ _ => found⟩
    show uri = scope.uriOf attr
    rw [Scope.uriOf, plain, prefixed, same]
  · rename_i other
    cases h
    refine ⟨by rw [Attribute.bare, ← unbound], named, splits, legal, ?_, ?_⟩
    · rw [unbound, Scope.uriOf]
      split
      · rename_i plain prefixed
        exact absurd prefixed (other _ plain)
      · rfl
    · intro plain prefixed
      obtain ⟨nsPrefix, known⟩ := Option.isSome_iff_exists.mp prefixed
      exact absurd known (other nsPrefix plain)

theorem of_resolveAttributes (strict : options.recover = false) {full : List Attribute}
    (bare : ∀ attr ∈ attributes, IsBare options attr)
    (h : resolveAttributes options scope r attributes = .ok (full, next)) :
    full.map Attribute.bare = attributes ∧ ∀ attr ∈ full, IsAttribute options scope attr := by
  induction attributes generalizing r full with
  | nil => cases h; exact ⟨rfl, nofun⟩
  | cons attr attributes ih =>
    obtain ⟨⟨first, r₁⟩, one, h⟩ := bind_eq_ok.mp h
    obtain ⟨⟨others, r₂⟩, more, h⟩ := bind_eq_ok.mp h
    cases h
    obtain ⟨same, within⟩ := of_resolveAttribute strict (bare attr List.mem_cons_self) one
    obtain ⟨rest, listed⟩ := ih (fun other later => bare other (List.mem_cons_of_mem _ later)) more
    exact ⟨by rw [List.map_cons, same, rest], List.forall_mem_cons.mpr ⟨within, listed⟩⟩

/-- A start tag that was read can be read again where it stands. -/
theorem isTag_of_startTag (strict : cx.options.recover = false) {depth : Nat} {tag : StartTag}
    (h : r.startTag cx depth scope = .ok (tag, next)) :
    depth ≤ cx.options.maxDepth ∧ IsTag cx.options scope tag.name tag.uri tag.attributes ∧
      tag.scope = scope.declare tag.attributes := by
  unfold startTag at h
  split at h
  · exact absurd h not_fail
  · rename_i shallow
    obtain ⟨r₁, _, h⟩ := bind_eq_ok.mp h
    obtain ⟨⟨written, r₂⟩, named, h⟩ := bind_eq_ok.mp h
    obtain ⟨⟨found, r₃⟩, listed, h⟩ := bind_eq_ok.mp h
    obtain ⟨⟨uri, r₄⟩, element, h⟩ := bind_eq_ok.mp h
    obtain ⟨⟨full, r₅⟩, resolved, h⟩ := bind_eq_ok.mp h
    obtain ⟨⟨closed, r₆⟩, _, h⟩ := bind_eq_ok.mp h
    cases h
    obtain ⟨bare, distinct⟩ := of_attributes strict listed (by simp) (by simp)
    obtain ⟨same, within⟩ := of_resolveAttributes strict (by simpa using bare) resolved
    have sameScope : scope.declare found.reverse = scope.declare full := by
      rw [← same, Scope.declare_bare]
    obtain ⟨uri_eq, bound⟩ := of_elementUri strict element
    refine ⟨Nat.not_lt.mp shallow, ⟨?_, ?_, ?_, bound, ?_, ?_⟩, sameScope⟩
    · rw [QName.toText_ofText]
      exact (isName_of_name named).1
    · rw [QName.toText_ofText]
    · rw [← sameScope]
      exact uri_eq
    · rw [← sameScope]
      exact within
    · have names : full.map (·.name) = (found.map (·.name)).reverse := by
        rw [← List.map_reverse, ← same, List.map_map]
        rfl
      rw [names]
      exact List.pairwise_reverse.mpr (distinct.imp Ne.symm)

end Reader
end Xml
end Markup
