import Markup.Proofs.Xml.Dropping

/-!
# What the limits decide

How deeply elements may nest is looked at where a start tag is read, and how long text may be where
text is extended. No other step of a reader depends on these limits. So a text that was read within
some limits is read within others, by the same steps and to the same end, if what was found in it
keeps to them.
-/

namespace Markup.Xml

open Reader

/-- The options with other limits on the nesting of elements and on the length of text. -/
def ParseOptions.withLimits (options : ParseOptions) (depth length : Nat) : ParseOptions :=
  { options with maxDepth := depth, maxTextLength := length }

/-- The context with other limits on the nesting of elements and on the length of text. -/
def Context.withLimits (cx : Context) (depth length : Nat) : Context :=
  { cx with options := cx.options.withLimits depth length }

theorem Context.options_withLimits (cx : Context) (depth length : Nat) :
    (cx.withLimits depth length).options = cx.options.withLimits depth length := rfl

/-! ## Steps that look at no limit -/

namespace Reader

variable {options : ParseOptions} {cx : Context} {r next : Reader} (depth length : Nat)

theorem char_withLimits : r.char (options.withLimits depth length) = r.char options := rfl

theorem name_withLimits : r.name (options.withLimits depth length) = r.name options := rfl

theorem report_withLimits (problem : Problem) :
    r.report (options.withLimits depth length) problem = r.report options problem := rfl

theorem upTo_withLimits (close : String) (within : Construct) (r : Reader) (content : List Char) :
    r.upTo (options.withLimits depth length) close within content =
      r.upTo options close within content := by
  rw [upTo_eq, upTo_eq, char_withLimits]
  refine ite_congr rfl (fun _ => rfl) fun _ => ite_congr rfl (fun _ => rfl) fun _ => ?_
  exact bind_congr_ok fun read found => upTo_withLimits close within read.2 _
  termination_by r.rest.length
  decreasing_by exact length_lt_of_char found

theorem commentText_withLimits (r : Reader) (content : List Char) :
    r.commentText (options.withLimits depth length) content = r.commentText options content := by
  rw [commentText_eq, commentText_eq, char_withLimits, report_withLimits]
  split
  · rfl
  · rfl
  · rename_i more
    refine bind_congr_ok fun next noted => ?_
    have shorter : (next.skip 2).rest.length < r.rest.length := by
      rw [← rest_report noted]
      exact length_skip_lt (by decide) (by simp [rest_report noted, more])
    exact commentText_withLimits (next.skip 2) _
  · exact bind_congr_ok fun read found => commentText_withLimits read.2 _
  termination_by r.rest.length
  decreasing_by
    · exact shorter
    · exact length_lt_of_char found

theorem comment_withLimits : r.comment (options.withLimits depth length) = r.comment options := by
  simp only [comment, commentText_withLimits]

theorem cdataSection_withLimits :
    r.cdataSection (options.withLimits depth length) = r.cdataSection options := by
  simp only [cdataSection, upTo_withLimits]

theorem instruction_withLimits :
    r.instruction (options.withLimits depth length) = r.instruction options := by
  simp only [instruction, upTo_withLimits, name_withLimits]

/-! ### Tags -/

theorem attributeText_withLimits (cx : Context) (quote : Option Char) (r : Reader)
    (value : List Char) : r.attributeText (cx.withLimits depth length) quote value =
      r.attributeText cx quote value := by
  rw [attributeText_eq, attributeText_eq]
  split
  · rfl
  · refine ite_congr rfl (fun _ => rfl) fun _ => ite_congr rfl (fun _ => rfl) fun _ =>
      ite_congr rfl (fun _ => ?_) fun _ => ?_
    · refine bind_congr_ok fun found read => ?_
      rcases found with ⟨content | ⟨entity, replacement⟩, next⟩
      · exact attributeText_withLimits cx quote next _
      · -- Inside of the replacement text, one entity fewer is left to open.
        dsimp only
        rw [show (cx.withLimits depth length).opening entity =
            (cx.opening entity).withLimits depth length from rfl,
          attributeText_withLimits (cx.opening entity) none (next.enter replacement) value]
        refine ite_congr rfl (fun _ => rfl) fun _ => bind_congr_ok fun inside _ => ?_
        exact attributeText_withLimits cx quote (next.resume inside.2) _
    · exact bind_congr_ok fun read found => attributeText_withLimits cx quote read.2 _
  termination_by (cx.unopened, r.rest.length)
  decreasing_by
    · exact .right _ (length_lt_of_reference read)
    · exact .left _ _ (unopened_lt_of_reference read)
    · exact .right _ (by simpa using length_lt_of_reference read)
    · exact .right _ (length_lt_of_char found)

theorem attr_withLimits : r.attr (cx.withLimits depth length) = r.attr cx := by
  simp only [attr, attributeValue, attributeText_withLimits]
  rfl

theorem attributes_withLimits (r : Reader) (found : List Attribute) :
    attributes (cx.withLimits depth length) r found = attributes cx r found := by
  rw [attributes_eq, attributes_eq, attr_withLimits]
  refine ite_congr rfl (fun _ => rfl) fun _ => ite_congr rfl (fun _ => rfl) fun _ =>
    bind_congr_ok fun read named => bind_congr_ok fun kept listed => ?_
  have shorter : kept.2.rest.length < r.rest.length := by
    rw [rest_of_keepAttribute listed]
    exact Nat.lt_of_lt_of_le (length_lt_of_attr named) (length_skipBlanks_le r)
  exact attributes_withLimits kept.2 _
  termination_by r.rest.length

theorem resolveAttributes_withLimits (scope : Scope) (r : Reader) (listed : List Attribute) :
    resolveAttributes (options.withLimits depth length) scope r listed =
      resolveAttributes options scope r listed := by
  induction listed generalizing r with
  | nil => rfl
  | cons attr rest ih =>
    refine bind_congr_ok fun found _ => ?_
    obtain ⟨_, r⟩ := found
    dsimp only
    rw [ih]

/-! ### Document type declarations -/

theorem entityText_withLimits (quote : Char) (r : Reader) (value : List Char) :
    r.entityText (options.withLimits depth length) quote value =
      r.entityText options quote value := by
  rw [entityText_eq, entityText_eq]
  split
  · rfl
  · rename_i more
    have shorter : (r.skip 1).rest.length < r.rest.length :=
      length_skip_lt (by decide) (by simp [more])
    refine ite_congr rfl (fun _ => rfl) fun _ => ite_congr rfl (fun _ => rfl) fun _ =>
      ite_congr rfl (fun _ => ?_) fun _ => ite_congr rfl (fun _ => ?_) fun _ => ?_
    · exact bind_congr_ok fun read found => entityText_withLimits quote read.2 _
    · exact bind_congr_ok fun named found => bind_congr_ok fun next ended =>
        entityText_withLimits quote next _
    · exact bind_congr_ok fun read found => entityText_withLimits quote read.2 _
  termination_by r.rest.length
  decreasing_by
    · exact Nat.lt_of_le_of_lt (length_le_of_charReference found) shorter
    · exact Nat.lt_trans (length_lt_of_expect ended) <|
        Nat.lt_trans (length_lt_of_name found) shorter
    · exact length_lt_of_char found

theorem entityDefinition_withLimits :
    r.entityDefinition (options.withLimits depth length) = r.entityDefinition options := by
  simp only [entityDefinition, entityValue, entityText_withLimits]

theorem subsetItem_withLimits (table : EntityTable) :
    r.subsetItem (options.withLimits depth length) table = r.subsetItem options table := by
  simp only [subsetItem, entityDeclaration, entityDefinition_withLimits, comment_withLimits,
    instruction_withLimits]
  rfl

theorem internalSubset_withLimits (r : Reader) (table : EntityTable) :
    internalSubset (options.withLimits depth length) r table = internalSubset options r table := by
  rw [internalSubset_eq, internalSubset_eq, subsetItem_withLimits]
  refine ite_congr rfl (fun _ => rfl) fun _ => ite_congr rfl (fun _ => rfl) fun _ => ?_
  exact bind_congr_ok fun read found => internalSubset_withLimits read.2 _
  termination_by r.rest.length
  decreasing_by exact Nat.lt_of_lt_of_le (length_lt_of_subsetItem found) (length_skipBlanks_le r)

theorem misc_withLimits (r : Reader) (before : List Draft) :
    misc (options.withLimits depth length) r before = misc options r before := by
  rw [misc_eq, misc_eq, comment_withLimits, instruction_withLimits]
  refine ite_congr rfl (fun _ => ?_) fun _ => ite_congr rfl (fun _ => ?_) fun _ => rfl
  · exact bind_congr_ok fun read found => misc_withLimits read.2 _
  · exact bind_congr_ok fun read found => misc_withLimits read.2 _
  termination_by r.rest.length
  decreasing_by
    · exact Nat.lt_of_lt_of_le (length_lt_of_comment found) (length_skipBlanks_le r)
    · exact Nat.lt_of_lt_of_le (length_lt_of_instruction found) (length_skipBlanks_le r)

theorem typeDeclaration_withLimits (before : List Draft) :
    r.typeDeclaration (options.withLimits depth length) before =
      r.typeDeclaration options before := by
  simp only [typeDeclaration, doctype, internalSubset_withLimits, misc_withLimits, name_withLimits]

/-! ## Start tags -/

/-- A start tag within the limit on nesting is read alike under any limit that it keeps to. -/
theorem startTag_withLimits {inside : Nat} {scope : Scope} {found : StartTag × Reader}
    (fits : inside ≤ depth) (started : r.startTag cx inside scope = .ok found) :
    r.startTag (cx.withLimits depth length) inside scope = .ok found := by
  unfold startTag at started ⊢
  have kept : ¬ inside > (cx.withLimits depth length).options.maxDepth := Nat.not_lt.mpr fits
  rw [if_neg kept]
  split at started
  · exact absurd started not_fail
  · simp only [Context.options_withLimits, attributes_withLimits, resolveAttributes_withLimits]
    exact started

theorem le_of_startTag {inside : Nat} {scope : Scope} {found : StartTag × Reader}
    (started : r.startTag cx inside scope = .ok found) : inside ≤ cx.options.maxDepth := by
  unfold startTag at started
  split at started
  · exact absurd started not_fail
  · exact Nat.not_lt.mp ‹_›

end Reader

/-- Whether an item, in an element of some depth, nests no element more deeply than a limit. -/
def Item.Nests (limit depth : Nat) : Item → Prop
  | .leaf kind => kind.isElement = true → depth + 1 ≤ limit
  | .start _ => depth + 1 ≤ limit

namespace Reader

variable {cx : Context} {r next : Reader} {level : Level} {found : Item}

theorem nests_of_item (read : r.item cx level = .ok (found, next)) :
    found.Nests cx.options.maxDepth level.depth := by
  unfold item at read
  split at read
  · obtain ⟨_, _, read⟩ := bind_eq_ok.mp read
    cases read
    exact fun element => absurd element Bool.false_ne_true
  split at read
  · obtain ⟨_, _, read⟩ := bind_eq_ok.mp read
    cases read
    exact fun element => absurd element Bool.false_ne_true
  split at read
  · obtain ⟨_, _, read⟩ := bind_eq_ok.mp read
    cases read
    exact fun element => absurd element Bool.false_ne_true
  obtain ⟨⟨tag, last⟩, started, read⟩ := bind_eq_ok.mp read
  have fits := le_of_startTag started
  cases read
  split
  · exact fun _ => fits
  · exact fits

theorem item_withLimits (depth length : Nat) (fits : found.Nests depth level.depth)
    (read : r.item cx level = .ok (found, next)) :
    r.item (cx.withLimits depth length) level = .ok (found, next) := by
  rw [item, Context.options_withLimits, cdataSection_withLimits, comment_withLimits,
    instruction_withLimits]
  unfold item at read
  split at read <;> rename_i cdata
  · rw [if_pos cdata]
    exact read
  rw [if_neg cdata]
  split at read <;> rename_i comment
  · rw [if_pos comment]
    exact read
  rw [if_neg comment]
  split at read <;> rename_i instruction
  · rw [if_pos instruction]
    exact read
  rw [if_neg instruction]
  obtain ⟨⟨tag, last⟩, started, read⟩ := bind_eq_ok.mp read
  have shallow : level.depth + 1 ≤ depth := by
    cases read
    split at fits
    · exact fits rfl
    · exact fits
  exact bind_eq_ok.mpr ⟨_, startTag_withLimits depth length shallow started, read⟩

end Reader

/-! ## Content -/

/-- The depth reached after an event, given the depth before. -/
def Event.depthAfter (depth : Nat) : Event → Nat
  | .start _ => depth + 1
  | .stop => depth - 1
  | _ => depth

mutual

/-- Whether an event, in an element of some depth, nests no element more deeply than a limit. -/
def Event.Nests (limit depth : Nat) : Event → Prop
  | .leaf kind => kind.isElement = true → depth + 1 ≤ limit
  | .start _ => depth + 1 ≤ limit
  | .copied inside => NestsAll limit depth inside
  | _ => True

/-- Whether no event, in an element of some depth, nests an element more deeply than a limit. -/
def NestsAll (limit depth : Nat) : List Event → Prop
  | [] => True
  | event :: rest => event.Nests limit depth ∧ NestsAll limit (event.depthAfter depth) rest

end

variable {cx : Context} {base : Level} {s t : Spot} {event : Event} {events : List Event}

theorem Reader.depth_of_advance (advance : Advance cx base s event t) (depth : Nat) :
    depth + t.tags.length = event.depthAfter (depth + s.tags.length) := by
  cases advance <;> rfl

/-- A round opens and closes the same elements for a reader and in what is built. -/
theorem Reader.tags_of_advance {loose : Loose} (advance : Advance cx base s event t)
    (tags : loose.path.map Prod.fst = s.tags) : (event.loose loose).path.map Prod.fst = t.tags := by
  cases advance with
  | reference | plain | sectionEnd | character | leaf => exact tags
  | start => exact congrArg (List.cons _) tags
  | stop | cut =>
    obtain ⟨here, path, pending⟩ := loose
    cases path with
    | nil => cases tags
    | cons outer path => exact (List.cons.inj tags).2

theorem Reader.nests_of_advance (advance : Advance cx base s event t) :
    event.Nests cx.options.maxDepth (base.depth + s.tags.length) := by
  cases advance with
  | leaf _ _ read => exact nests_of_item read
  | start _ _ read => exact nests_of_item read
  | _ => trivial

/-- Rounds nest no element more deeply than the limit. -/
theorem Reader.nestsAll_of_run (run : Run cx base s events t) :
    NestsAll cx.options.maxDepth (base.depth + s.tags.length) events := by
  induction run with
  | nil => trivial
  | advance first _ ih => exact ⟨nests_of_advance first, depth_of_advance first _ ▸ ih⟩
  | copied _ _ _ _ _ _ inner ih => exact ⟨inner, ih⟩

theorem Advance.withLimits (depth length : Nat) (advance : Advance cx base s event t)
    (fits : event.Nests depth (base.depth + s.tags.length)) :
    Advance (cx.withLimits depth length) base s event t := by
  cases advance with
  | reference amp read => exact .reference amp read
  | plain amp read plain => exact .plain amp read plain
  | sectionEnd begins noted => exact .sectionEnd begins noted
  | character lt amp open_ read => exact .character lt amp open_ read
  | leaf lt open_ read => exact .leaf lt open_ (item_withLimits depth length fits read)
  | start lt open_ read => exact .start lt open_ (item_withLimits depth length fits read)
  | stop begins read => exact .stop begins read
  | cut done noted => exact .cut done noted

/-- Rounds that nest elements within a limit are the same under it. -/
theorem Run.withLimits (depth length : Nat) (run : Run cx base s events t)
    (fits : NestsAll depth (base.depth + s.tags.length) events) :
    Run (cx.withLimits depth length) base s events t := by
  induction run with
  | nil => exact .nil
  | advance first _ ih =>
    exact .advance (first.withLimits depth length fits.1)
      (ih (depth_of_advance first _ ▸ fits.2))
  | copied amp read markup _ done _ inner ih =>
    exact .copied amp read markup (inner fits.1) done (ih fits.2)

mutual

theorem grow_withLimits (options : ParseOptions) (depth length : Nat) (g : Growth) :
    (event : Event) → event.grow (options.withLimits depth length) g = event.grow options g
  | .text _ | .leaf _ | .start _ | .stop => rfl
  | .copied inside => by
    rw [Event.grow, growAll_withLimits options depth length .empty inside]
    rfl

theorem growAll_withLimits (options : ParseOptions) (depth length : Nat) (g : Growth) :
    (events : List Event) →
      growAll (options.withLimits depth length) g events = growAll options g events
  | [] => rfl
  | event :: rest => by
    rw [growAll, growAll, grow_withLimits options depth length g event,
      growAll_withLimits options depth length _ rest]

end

/-! ## Whole documents -/

/-- What is found in a root element keeps to limits on the nesting of elements and on the length of
text. -/
structure KeepsTo (depth length : Nat) (events : List Event) : Prop where
  root : 1 ≤ depth
  nests : NestsAll depth 1 events
  fits : FitsAll length 0 events

section

variable {options : ParseOptions} {text : String} {depth length : Nat}

theorem Reader.ReadsRoot.withLimits {cx : Context} {start next : Reader} {tag : StartTag}
    {events : List Event} {root : Draft} (reads : ReadsRoot cx start tag events root next)
    (keeps : KeepsTo depth length events) :
    ReadsRoot (cx.withLimits depth length) start tag events root next := by
  obtain ⟨first, started, read⟩ := reads
  refine ⟨first, startTag_withLimits depth length keeps.root started, ?_⟩
  rcases read with empty | ⟨goesOn, children, last, reads, ended, built⟩
  · exact .inl empty
  · refine .inr ⟨goesOn, children, last, ⟨?_, reads.ends, keeps.fits, ?_⟩, ended, built⟩
    · exact reads.run.withLimits depth length keeps.nests
    · rw [Context.options_withLimits, growAll_withLimits]
      exact reads.built

theorem Reader.ReadsRoot.keepsTo {cx : Context} {start next : Reader} {tag : StartTag}
    {events : List Event} {root : Draft} (reads : ReadsRoot cx start tag events root next) :
    KeepsTo cx.options.maxDepth cx.options.maxTextLength events := by
  obtain ⟨first, started, ⟨-, rfl, -⟩ | ⟨-, children, last, reads, -⟩⟩ := reads
  · exact ⟨le_of_startTag started, trivial, trivial⟩
  · exact ⟨le_of_startTag started, nestsAll_of_run reads.run, reads.fits⟩

theorem Opens.withLimits (depth length : Nat) {declaration : Option Declaration}
    {nodes : List Draft} {table : EntityTable} {start : Reader}
    (opens : Opens options text declaration nodes table start) :
    Opens (options.withLimits depth length) text declaration nodes table start := by
  obtain ⟨r₁, early, r₂, headed, misc, type⟩ := opens
  refine ⟨r₁, early, r₂, headed, ?_, ?_⟩
  · rw [misc_withLimits]
    exact misc
  · rw [typeDeclaration_withLimits]
    exact type

/-- A text is read within all limits that it keeps to, and nothing else of the reading changes. -/
theorem Reading.exists_withLimits (reading : Reading options text)
    (keeps : KeepsTo depth length reading.events) :
    ∃ other : Reading (options.withLimits depth length) text,
      other.draft = reading.draft ∧ other.events = reading.events ∧
        other.pieces = reading.pieces :=
  ⟨{ reading with
    opens := reading.opens.withLimits depth length
    reads := reading.reads.withLimits keeps
    others := by
      rw [misc_withLimits]
      exact reading.others
    ended := reading.ended }, rfl, rfl, rfl⟩

end

end Markup.Xml
