import Mathlib
import Markup.XPath.Bindings

/-!
# Bindings in one text

The text of some bindings is read back from the front: a prefix ends at the first equals sign and a
namespace at the first zero character. What comes behind the bindings begins with another character
than a prefix does, once the prefix `xml` is passed, which every text has. So bindings are told
apart by their text unless a prefix has an equals sign in it, or a namespace a zero character.
-/

namespace Markup.XPath.Bindings

variable {bindings other : Bindings} {left right : List (String × String)}

/-! ## What can be bound -/

/-- Pairs in the order of their prefixes, each prefix once. -/
def IsSorted (pairs : List (String × String)) : Prop :=
  pairs.Pairwise fun first second => first.1 < second.1

/-- Bindings as they come from binding prefixes in turn. -/
structure IsSound (bindings : Bindings) : Prop where
  sorted : IsSorted bindings.pairs
  /-- The prefix that is bound from the start cannot be lost. -/
  standard : ∃ uri, ("xml", uri) ∈ bindings.pairs

theorem mem_insert {nsPrefix uri : String} {pairs : List (String × String)}
    {pair : String × String} (member : pair ∈ insert nsPrefix uri pairs) :
    pair = (nsPrefix, uri) ∨ pair ∈ pairs := by
  induction pairs with
  | nil => exact .inl (List.mem_singleton.mp member)
  | cons first rest ih =>
    rw [insert] at member
    split at member
    · exact (List.mem_cons.mp member).imp_right (List.mem_cons_of_mem _)
    · split at member
      · exact List.mem_cons.mp member
      · rcases List.mem_cons.mp member with rfl | member
        · exact .inr List.mem_cons_self
        · exact (ih member).imp_right (List.mem_cons_of_mem _)

theorem isSorted_insert (nsPrefix uri : String) {pairs : List (String × String)}
    (sorted : IsSorted pairs) : IsSorted (insert nsPrefix uri pairs) := by
  induction pairs with
  | nil => exact List.pairwise_singleton _ _
  | cons first rest ih =>
    obtain ⟨least, later⟩ := List.pairwise_cons.mp sorted
    rw [insert]
    split
    · next same => exact List.pairwise_cons.mpr ⟨same ▸ least, later⟩
    · next apart =>
      split
      · next less =>
        refine List.pairwise_cons.mpr ⟨fun pair member => ?_, sorted⟩
        rcases List.mem_cons.mp member with rfl | member
        · exact less
        · exact less.trans (least pair member)
      · next least' =>
        refine List.pairwise_cons.mpr ⟨fun pair member => ?_, ih later⟩
        rcases mem_insert member with rfl | member
        · exact lt_of_le_of_ne (not_lt.mp least') apart
        · exact least pair member

/-- A prefix that is bound stays bound, maybe to another namespace. -/
theorem bound_insert (nsPrefix uri : String) {pairs : List (String × String)} {name : String}
    (bound : ∃ uri, (name, uri) ∈ pairs) : ∃ found, (name, found) ∈ insert nsPrefix uri pairs := by
  induction pairs with
  | nil => exact absurd bound.choose_spec List.not_mem_nil
  | cons first rest ih =>
    obtain ⟨found, member⟩ := bound
    rw [insert]
    split
    · next same =>
      rcases List.mem_cons.mp member with rfl | member
      · exact ⟨uri, same ▸ List.mem_cons_self⟩
      · exact ⟨found, List.mem_cons_of_mem _ member⟩
    · split
      · exact ⟨found, List.mem_cons_of_mem _ member⟩
      · rcases List.mem_cons.mp member with rfl | member
        · exact ⟨found, List.mem_cons_self⟩
        · obtain ⟨found, member⟩ := ih ⟨found, member⟩
          exact ⟨found, List.mem_cons_of_mem _ member⟩

theorem IsSound.bind (sound : bindings.IsSound) (nsPrefix uri : String) :
    (bindings.bind nsPrefix uri).IsSound :=
  ⟨isSorted_insert nsPrefix uri sound.sorted, bound_insert nsPrefix uri sound.standard⟩

theorem isSound_standard : standard.IsSound :=
  ⟨List.pairwise_singleton _ _, xmlNamespace, List.mem_cons_self⟩

/-- All bindings that can be made are sound. -/
theorem isSound_ofPairs (pairs : List (String × String)) : (ofPairs pairs).IsSound := by
  have general : ∀ bindings : Bindings, bindings.IsSound →
      (pairs.foldl (fun bindings pair => bindings.bind pair.1 pair.2) bindings).IsSound := by
    induction pairs with
    | nil => exact fun _ sound => sound
    | cons pair rest ih => exact fun bindings sound => ih _ (sound.bind pair.1 pair.2)
  exact general _ isSound_standard

/-! ## What tells them apart -/

/-- The characters of a pair. -/
def spellPair (pair : String × String) : List Char :=
  pair.1.toList ++ '=' :: (pair.2.toList ++ ['\x00'])

theorem toList_key : bindings.key.toList = bindings.pairs.flatMap spellPair := by
  rw [key, String.toList_join, List.flatMap_map]
  exact List.flatMap_congr fun pair _ => by simp [spellPair]

/-- A pair that can be told from what follows it. -/
def IsPlainPair (pair : String × String) : Prop :=
  '=' ∉ pair.1.toList ∧ '\x00' ∉ pair.2.toList

/-- Bindings without an equals sign in a prefix and without a zero character in a namespace. -/
def IsPlain (bindings : Bindings) : Prop := ∀ pair ∈ bindings.pairs, IsPlainPair pair

instance : Decidable bindings.IsPlain :=
  inferInstanceAs (Decidable (∀ pair ∈ bindings.pairs, '=' ∉ pair.1.toList ∧ '\x00' ∉ pair.2.toList))

/-- What ends at the first of some character is told by where that is. -/
theorem eq_of_append_cons {ends : Char} {first second rest rest' : List Char}
    (inner : ends ∉ first) (inner' : ends ∉ second)
    (same : first ++ ends :: rest = second ++ ends :: rest') : first = second ∧ rest = rest' := by
  have upTo : ∀ {part behind : List Char}, ends ∉ part →
      (part ++ ends :: behind).takeWhile (· != ends) = part := by
    intro part behind inner
    have passed : ∀ c ∈ part, (c != ends) = true := fun c member =>
      bne_iff_ne.mpr (ne_of_mem_of_not_mem member inner)
    rw [List.takeWhile_append_of_pos passed]
    simp
  have parts : first = second := by rw [← upTo inner, same, upTo inner']
  subst parts
  exact ⟨rfl, (List.cons.inj (List.append_cancel_left same)).2⟩

theorem eq_of_spellPair {first second : String × String} (plain : IsPlainPair first)
    (plain' : IsPlainPair second) {rest rest' : List Char}
    (same : spellPair first ++ rest = spellPair second ++ rest') : first = second ∧ rest = rest' := by
  simp only [spellPair, List.append_assoc, List.cons_append, List.nil_append] at same
  obtain ⟨names, same⟩ := eq_of_append_cons plain.1 plain'.1 same
  obtain ⟨uris, same⟩ := eq_of_append_cons plain.2 plain'.2 same
  exact ⟨Prod.ext (String.toList_inj.mp names) (String.toList_inj.mp uris), same⟩

/-- A prefix after `xml` does not begin with the character that ends the bindings. -/
theorem spellPair_ne {pair : String × String} (later : "xml" < pair.1) (rest tail : List Char) :
    spellPair pair ++ rest ≠ '\x01' :: tail := by
  intro same
  rw [String.lt_iff_toList_lt] at later
  cases name : pair.1.toList with
  | nil => simp [name] at later
  | cons first others =>
    simp only [spellPair, name, List.cons_append, List.cons.injEq] at same
    rw [name, same.1, show "xml".toList = ['x', 'm', 'l'] from rfl, List.cons_lt_cons_iff] at later
    exact later.elim (by decide) fun both => absurd both.1 (by decide)

/-- After the prefix `xml` pairs are told from each other and from the end of the bindings. -/
theorem eq_of_spelled_after {tail tail' : List Char} (plain : ∀ pair ∈ left, IsPlainPair pair)
    (plain' : ∀ pair ∈ right, IsPlainPair pair) (later : ∀ pair ∈ left, "xml" < pair.1)
    (later' : ∀ pair ∈ right, "xml" < pair.1)
    (same : left.flatMap spellPair ++ '\x01' :: tail = right.flatMap spellPair ++ '\x01' :: tail') :
    left = right ∧ tail = tail' := by
  induction left generalizing right with
  | nil =>
    cases right with
    | nil => exact ⟨rfl, (List.cons.inj same).2⟩
    | cons pair rest =>
      rw [List.flatMap_cons, List.append_assoc] at same
      exact absurd same.symm (spellPair_ne (later' pair (by simp)) _ _)
  | cons pair rest ih =>
    cases right with
    | nil =>
      rw [List.flatMap_cons, List.append_assoc] at same
      exact absurd same (spellPair_ne (later pair (by simp)) _ _)
    | cons pair' rest' =>
      rw [List.forall_mem_cons] at plain plain' later later'
      rw [List.flatMap_cons, List.flatMap_cons, List.append_assoc, List.append_assoc] at same
      obtain ⟨rfl, behind⟩ := eq_of_spellPair plain.1 plain'.1 same
      obtain ⟨rfl, tails⟩ := ih plain.2 plain'.2 later.2 later'.2 behind
      exact ⟨rfl, tails⟩

/-- Up to the prefix `xml` neither of two texts ends, so they are told apart pair by pair. -/
theorem eq_of_spelled {tail tail' : List Char} (plain : ∀ pair ∈ left, IsPlainPair pair)
    (plain' : ∀ pair ∈ right, IsPlainPair pair) (sorted : IsSorted left) (sorted' : IsSorted right)
    (standard : ∃ uri, ("xml", uri) ∈ left) (standard' : ∃ uri, ("xml", uri) ∈ right)
    (same : left.flatMap spellPair ++ '\x01' :: tail = right.flatMap spellPair ++ '\x01' :: tail') :
    left = right ∧ tail = tail' := by
  induction left generalizing right with
  | nil => exact absurd standard.choose_spec List.not_mem_nil
  | cons pair rest ih =>
    cases right with
    | nil => exact absurd standard'.choose_spec List.not_mem_nil
    | cons pair' rest' =>
      rw [List.forall_mem_cons] at plain plain'
      rw [List.flatMap_cons, List.flatMap_cons, List.append_assoc, List.append_assoc] at same
      obtain ⟨rfl, behind⟩ := eq_of_spellPair plain.1 plain'.1 same
      obtain ⟨least, sorted⟩ := List.pairwise_cons.mp sorted
      obtain ⟨least', sorted'⟩ := List.pairwise_cons.mp sorted'
      by_cases named : pair.1 = "xml"
      · rw [named] at least least'
        obtain ⟨rfl, tails⟩ := eq_of_spelled_after plain.2 plain'.2 least least' behind
        exact ⟨rfl, tails⟩
      · have inside : ∀ {pairs : List (String × String)}, (∃ uri, ("xml", uri) ∈ pair :: pairs) →
            ∃ uri, ("xml", uri) ∈ pairs := fun ⟨uri, member⟩ =>
          ⟨uri, (List.mem_cons.mp member).resolve_left fun same => named (same ▸ rfl)⟩
        obtain ⟨rfl, tails⟩ :=
          ih plain.2 plain'.2 sorted sorted' (inside standard) (inside standard') behind
        exact ⟨rfl, tails⟩

/-- The text of plain bindings with something behind tells both. -/
theorem eq_of_key {text text' : String} (sound : bindings.IsSound) (sound' : other.IsSound)
    (plain : bindings.IsPlain) (plain' : other.IsPlain)
    (same : bindings.key ++ "\x01" ++ text = other.key ++ "\x01" ++ text') :
    bindings = other ∧ text = text' := by
  have spelled := congrArg String.toList same
  simp only [String.toList_append, toList_key, List.append_assoc,
    show "\x01".toList = ['\x01'] from rfl, List.singleton_append] at spelled
  obtain ⟨pairs, texts⟩ := eq_of_spelled plain plain' sound.sorted sound'.sorted sound.standard
    sound'.standard spelled
  refine ⟨?_, String.toList_inj.mp texts⟩
  cases bindings
  cases other
  exact congrArg Bindings.mk pairs

end Markup.XPath.Bindings
