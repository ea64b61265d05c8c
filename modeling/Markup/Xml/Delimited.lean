import Markup.Xml.Reader

/-!
# Comments, CDATA sections and instructions

Constructs that run up to a closing delimiter and hold no markup of their own. Line ends are read
as line feeds and every character is checked, as in all content.
-/

namespace Markup.Xml.Reader

-- The equations bound by `match` are what the termination proofs need.
set_option linter.unusedVariables false

/-- Read a construct up to its delimiter, latest character first. -/
def upTo (options : ParseOptions) (close : String) (within : Construct) (r : Reader)
    (content : List Char) : Except ParseFailure (List Char × Reader) :=
  if r.atEnd then r.fail (.endOfText (some within))
  else if r.startsWith close then .ok (content, r.skip close.length)
  else
    match h : r.char options with
    | .error failure => .error failure
    | .ok (c, next) => upTo options close within next (c :: content)
  termination_by r.rest.length
  decreasing_by exact length_lt_of_char h

/-- Read the content of a comment and its end, latest character first. Two hyphens that do not end
the comment are reported and kept. -/
def commentText (options : ParseOptions) (r : Reader) (content : List Char) :
    Except ParseFailure (List Char × Reader) :=
  match more : r.rest with
  | [] => r.fail (.endOfText (some .comment))
  | '-' :: '-' :: '>' :: _ => .ok (content, r.skip 3)
  | '-' :: '-' :: _ =>
    match h : r.report options .doubleHyphen with
    | .error failure => .error failure
    | .ok next => commentText options (next.skip 2) ('-' :: '-' :: content)
  | _ =>
    match h : r.char options with
    | .error failure => .error failure
    | .ok (c, next) => commentText options next (c :: content)
  termination_by r.rest.length
  decreasing_by
    · simp only [rest_skip, rest_report h, more, List.drop_succ_cons, List.length_cons]
      simp only [List.drop_zero]
      omega
    · exact length_lt_of_char h

/-- Read a comment. -/
def comment (r : Reader) (options : ParseOptions) : Except ParseFailure (String × Reader) := do
  let r ← r.expectWord "<!--"
  let (content, r) ← r.commentText options []
  return (String.ofList content.reverse, r)

/-- Read a CDATA section. -/
def cdataSection (r : Reader) (options : ParseOptions) :
    Except ParseFailure (String × Reader) := do
  let r ← r.expectWord "<![CDATA["
  let (content, r) ← r.upTo options "]]>" .cdataSection []
  return (String.ofList content.reverse, r)

/-- Read a processing instruction: its target and its data, if there is any. -/
def instruction (r : Reader) (options : ParseOptions) :
    Except ParseFailure ((String × Option String) × Reader) := do
  let r ← r.expectWord "<?"
  let (target, r) ← r.name options
  if Text.equalsIgnoringCase target.toList "xml".toList then r.fail .reservedTarget
  else if r.seesBlank then
    let (content, r) ← r.skipBlanks.upTo options "?>" .instruction []
    let data := if content.isEmpty then none else some (String.ofList content.reverse)
    return ((target, data), r)
  else
    let r ← r.expectWord "?>"
    return ((target, none), r)

/-! ## How far each step goes -/

theorem length_le_of_upTo {options : ParseOptions} {close : String} {within : Construct}
    {r next : Reader} {before content : List Char}
    (h : r.upTo options close within before = .ok (content, next)) :
    next.rest.length ≤ r.rest.length := by
  fun_induction upTo options close within r before with
  | case1 => exact absurd h not_fail
  | case2 => cases h; exact length_skip_le ..
  | case3 => cases h
  | case4 r before _ _ c middle read ih =>
    exact Nat.le_trans (ih h) (Nat.le_of_lt (length_lt_of_char read))

theorem length_le_of_commentText {options : ParseOptions} {r next : Reader}
    {before content : List Char} (h : r.commentText options before = .ok (content, next)) :
    next.rest.length ≤ r.rest.length := by
  fun_induction commentText options r before with
  | case1 => exact absurd h not_fail
  | case2 => cases h; exact length_skip_le ..
  | case3 => cases h
  | case4 r before _ _ _ middle read ih =>
    refine Nat.le_trans (ih h) (Nat.le_trans (length_skip_le ..) ?_)
    exact Nat.le_of_eq (by rw [rest_report read])
  | case5 => cases h
  | case6 r before c middle read _ _ _ ih =>
    exact Nat.le_trans (ih h) (Nat.le_of_lt (length_lt_of_char read))

theorem length_lt_of_expectWord {r next : Reader} {word : String} {c : Char} {tail : List Char}
    (spelled : word.toList = c :: tail) (h : r.expectWord word = .ok next) :
    next.rest.length < r.rest.length := by
  rw [expectWord, spelled, expectAll] at h
  cases first : r.expect c with
  | error failure => rw [first] at h; cases h
  | ok middle =>
    rw [first] at h
    exact Nat.lt_of_le_of_lt (length_le_of_expectAll h) (length_lt_of_expect first)

theorem length_lt_of_comment {r next : Reader} {options : ParseOptions} {content : String}
    (h : r.comment options = .ok (content, next)) : next.rest.length < r.rest.length := by
  unfold comment at h
  cases first : r.expectWord "<!--" with
  | error failure => simp [first, bind, Except.bind] at h
  | ok middle =>
    simp only [first, bind, Except.bind] at h
    split at h
    · cases h
    · rename_i read
      cases h
      exact Nat.lt_of_le_of_lt (length_le_of_commentText read) (length_lt_of_expectWord rfl first)

theorem length_lt_of_cdataSection {r next : Reader} {options : ParseOptions} {content : String}
    (h : r.cdataSection options = .ok (content, next)) : next.rest.length < r.rest.length := by
  unfold cdataSection at h
  cases first : r.expectWord "<![CDATA[" with
  | error failure => simp [first, bind, Except.bind] at h
  | ok middle =>
    simp only [first, bind, Except.bind] at h
    split at h
    · cases h
    · rename_i read
      cases h
      exact Nat.lt_of_le_of_lt (length_le_of_upTo read) (length_lt_of_expectWord rfl first)

theorem length_lt_of_instruction {r next : Reader} {options : ParseOptions}
    {found : String × Option String} (h : r.instruction options = .ok (found, next)) :
    next.rest.length < r.rest.length := by
  unfold instruction at h
  cases first : r.expectWord "<?" with
  | error failure => simp [first, bind, Except.bind] at h
  | ok middle =>
    refine Nat.lt_of_le_of_lt ?_ (length_lt_of_expectWord rfl first)
    simp only [first, bind, Except.bind] at h
    split at h
    · cases h
    · rename_i named
      refine Nat.le_trans ?_ (Nat.le_of_lt (length_lt_of_name named))
      split at h
      · exact absurd h not_fail
      · split at h
        · split at h
          · cases h
          · rename_i read
            cases h
            exact Nat.le_trans (length_le_of_upTo read) (length_skipBlanks_le _)
        · split at h
          · cases h
          · rename_i last
            cases h
            exact length_le_of_expectAll last

end Markup.Xml.Reader
