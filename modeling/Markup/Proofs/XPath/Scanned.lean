import Markup.Proofs.Name
import Markup.XPath.Token

/-!
# What is read as a token

The first token of a text is told by the characters it is made of, by whether an operand ends before
it, and by what stands behind it. What stands behind a token ends its name or its number, and the
first mark behind a name, blanks apart, tells what the name is for.
-/

namespace Markup.XPath

open Text (isMarkupBlank)

variable {afterOperand : Bool} {first c : Char} {text rest plain tail tail' before after : List Char}
  {token : Token} {position length : Nat} {name : QName} {member : Char → Bool}

/-! ## Where a part of a text ends -/

/-- A text does not go on with a character of a class. -/
def Ends (member : Char → Bool) (tail : List Char) : Prop := ∀ c ∈ tail.head?, member c = false

namespace Ends

@[simp] theorem nil : Ends member [] := by simp [Ends]

@[simp] theorem cons_iff : Ends member (c :: tail) ↔ member c = false := by simp [Ends]

theorem dropWhile (member : Char → Bool) (text : List Char) :
    Ends member (text.dropWhile member) := by
  intro c front
  cases left : text.dropWhile member with
  | nil => simp [left] at front
  | cons d others =>
    have stops := List.head_dropWhile_not member (l := text) (by simp [left])
    rw [left] at front
    obtain rfl : d = c := by simpa using front
    simpa [left] using stops

theorem takeWhile_append (ends : Ends member tail) (inside : plain.all member = true) :
    (plain ++ tail).takeWhile member = plain := by
  rw [List.takeWhile_append_of_pos (List.all_eq_true.mp inside)]
  cases tail with
  | nil => simp
  | cons c others =>
    rw [List.takeWhile_cons_of_neg (by simpa using ends), List.append_nil]

end Ends

/-- A text is cut where the first characters of a class end. -/
theorem exists_run (member : Char → Bool) (text : List Char) :
    ∃ run tail, text = run ++ tail ∧ text.takeWhile member = run ∧ run.all member = true ∧
      Ends member tail :=
  ⟨_, _, List.takeWhile_append_dropWhile.symm, rfl, List.all_takeWhile, .dropWhile member text⟩

/-! ## What a name is for -/

/-- The mark behind blanks that tells what a name before it is for. -/
def front (text : List Char) : Option Symbol :=
  match text.dropWhile isMarkupBlank with
  | '(' :: _ => some .leftParen
  | ':' :: ':' :: _ => some .doubleColon
  | _ => none

/-- What a name is for, by the mark behind it. -/
theorem classify_congr (same : front tail = front tail') :
    classify name tail = classify name tail' := by
  unfold front at same
  unfold classify
  split at same <;> split at same <;> simp_all

/-! ## The first token -/

/-- The marks of two characters. -/
def doubles : List (Char × Char × Symbol) :=
  [(':', ':', .doubleColon), ('.', '.', .dotDot), ('/', '/', .doubleSlash), ('<', '=', .atMost),
    ('>', '=', .atLeast), ('!', '=', .notEqual)]

/-- The marks of one character that begin one of two, with the second. -/
def singles : List (Char × Char × Symbol) :=
  [('/', '/', .slash), ('<', '=', .less), ('>', '=', .greater)]

/-- Whether a plain name goes on after a colon: with an asterisk, or with a character that begins
names and is no colon. -/
def joins : List Char → Bool
  | ':' :: next :: _ => next == '*' || (next != ':' && isNameStart next)
  | _ => false

/-- Whether a reference goes on after a colon, with a character that begins names. -/
def refers : List Char → Bool
  | ':' :: next :: _ => isNameStart next
  | _ => false

/-- Some characters and what stands behind them, where the characters are read as a token. -/
inductive Scanned (afterOperand : Bool) : List Char → List Char → Token → Prop
  | mark {c : Char} {symbol : Symbol} {tail : List Char} (known : mark? c = some symbol) :
      Scanned afterOperand [c] tail (.symbol symbol)
  | asterisk {tail : List Char} :
      Scanned afterOperand ['*'] tail (if afterOperand then .operator .multiply else .name .any)
  | double {first second : Char} {symbol : Symbol} {tail : List Char}
      (known : (first, second, symbol) ∈ doubles) :
      Scanned afterOperand [first, second] tail (.symbol symbol)
  | single {first second : Char} {symbol : Symbol} {tail : List Char}
      (known : (first, second, symbol) ∈ singles) (ends : Ends (· == second) tail) :
      Scanned afterOperand [first] tail (.symbol symbol)
  | dot {tail : List Char} (ends : Ends (fun c => c == '.' || c.isDigit) tail) :
      Scanned afterOperand ['.'] tail (.symbol .dot)
  | whole {digits tail : List Char} (nonempty : digits ≠ []) (numeric : digits.all Char.isDigit)
      (ends : Ends (fun c => c == '.' || c.isDigit) tail) :
      Scanned afterOperand digits tail (.number (Number.ofDigits false digits []))
  | fraction {before after tail : List Char} (nonempty : before ++ after ≠ [])
      (numeric : before.all Char.isDigit) (numeric' : after.all Char.isDigit)
      (ends : Ends Char.isDigit tail) :
      Scanned afterOperand (before ++ '.' :: after) tail
        (.number (Number.ofDigits false before after))
  | literal {quote : Char} {content tail : List Char} (known : quote = '"' ∨ quote = '\'')
      (free : quote ∉ content) :
      Scanned afterOperand (quote :: (content ++ [quote])) tail (.literal (.ofList content))
  | word {plain tail : List Char} {operator : WordOperator} (operand : afterOperand = true)
      (begins : plain.head?.any isNameStart) (inside : plain.all isPlainNameChar)
      (ends : Ends isPlainNameChar tail)
      (known : WordOperator.ofWord? (.ofList plain) = some operator) :
      Scanned afterOperand plain tail (.operator operator)
  | plainName {plain tail : List Char} (operand : afterOperand = false)
      (begins : plain.head?.any isNameStart) (inside : plain.all isPlainNameChar)
      (ends : Ends isPlainNameChar tail) (alone : joins tail = false) :
      Scanned afterOperand plain tail (classify ⟨none, .ofList plain⟩ tail)
  | anyName {plain tail : List Char} (operand : afterOperand = false)
      (begins : plain.head?.any isNameStart) (inside : plain.all isPlainNameChar) :
      Scanned afterOperand (plain ++ [':', '*']) tail (.name (.anyOf (.ofList plain)))
  | qualifiedName {plain localName tail : List Char} (operand : afterOperand = false)
      (begins : plain.head?.any isNameStart) (inside : plain.all isPlainNameChar)
      (begins' : localName.head?.any isNameStart) (inside' : localName.all isPlainNameChar)
      (ends : Ends isPlainNameChar tail) :
      Scanned afterOperand (plain ++ ':' :: localName) tail
        (classify ⟨some (.ofList plain), .ofList localName⟩ tail)
  | plainReference {plain tail : List Char} (begins : (plain ++ tail).head?.any isNameStart)
      (inside : plain.all isPlainNameChar) (ends : Ends isPlainNameChar tail)
      (alone : refers tail = false) :
      Scanned afterOperand ('$' :: plain) tail (.reference ⟨none, .ofList plain⟩)
  | qualifiedReference {plain localName tail : List Char}
      (begins : (plain ++ [':']).head?.any isNameStart) (inside : plain.all isPlainNameChar)
      (begins' : (localName ++ tail).head?.any isNameStart)
      (inside' : localName.all isPlainNameChar) (ends : Ends isPlainNameChar tail) :
      Scanned afterOperand ('$' :: (plain ++ ':' :: localName)) tail
        (.reference ⟨some (.ofList plain), .ofList localName⟩)

/-! ## What is read is a token -/

/-- A text begins with a token of so many characters. -/
def BeginsWith (afterOperand : Bool) (text : List Char) (token : Token) (length : Nat) : Prop :=
  ∃ chars tail, text = chars ++ tail ∧ chars.length = length ∧
    Scanned afterOperand chars tail token

theorem not_isPlainNameChar_colon : isPlainNameChar ':' = false := rfl

theorem isPlainNameChar_of_isNameStart (begins : isNameStart c = true) (other : c ≠ ':') :
    isPlainNameChar c = true := by
  simp [isPlainNameChar, other, isNameChar_of_isNameStart begins]

/-! ### Numbers -/

theorem readNumber_whole (numeric : before.all Char.isDigit = true)
    (ends : Ends (fun c => c == '.' || c.isDigit) tail) :
    readNumber (before ++ tail) = (.number (Number.ofDigits false before []), before.length) := by
  have stops : Ends Char.isDigit tail := fun c next => by
    simpa using (Bool.or_eq_false_iff.mp (ends c next)).2
  rw [readNumber, stops.takeWhile_append numeric, List.drop_left]
  cases tail with
  | nil => rfl
  | cons c rest =>
    have other : c ≠ '.' := by
      rintro rfl
      simp at ends
    simp [other]

theorem readNumber_fraction (numeric : before.all Char.isDigit = true)
    (numeric' : after.all Char.isDigit = true) (ends : Ends Char.isDigit tail) :
    readNumber (before ++ '.' :: (after ++ tail)) =
      (.number (Number.ofDigits false before after), before.length + 1 + after.length) := by
  have point : Ends Char.isDigit ('.' :: (after ++ tail)) := Ends.cons_iff.mpr rfl
  rw [readNumber, point.takeWhile_append numeric, List.drop_left]
  simp only [ends.takeWhile_append numeric']

/-- A number begins with a digit, or with a point before one. -/
def beginsNumber : List Char → Bool
  | first :: rest => first.isDigit || (first == '.' && rest.head?.any Char.isDigit)
  | [] => false

theorem beginsNumber_fraction (tail : List Char) (nonempty : before ++ after ≠ [])
    (numeric : before.all Char.isDigit = true) (numeric' : after.all Char.isDigit = true) :
    beginsNumber (before ++ '.' :: (after ++ tail)) = true := by
  cases before with
  | nil => cases after <;> simp_all [beginsNumber]
  | cons => simp_all [beginsNumber]

theorem beginsWith_readNumber (begins : beginsNumber text = true) :
    BeginsWith afterOperand text (readNumber text).1 (readNumber text).2 := by
  obtain ⟨before, behind, rfl, -, numeric, ends⟩ := exists_run Char.isDigit text
  by_cases point : behind.head? = some '.'
  · obtain ⟨fractional, rfl⟩ : ∃ fractional, behind = '.' :: fractional := by
      cases behind <;> simp_all
    obtain ⟨after, tail, rfl, -, numeric', ends'⟩ := exists_run Char.isDigit fractional
    rw [readNumber_fraction numeric numeric' ends']
    refine ⟨before ++ '.' :: after, tail, by simp, ?_,
      .fraction (fun none => ?_) numeric numeric' ends'⟩
    · simp
      omega
    · obtain ⟨rfl, rfl⟩ := List.append_eq_nil_iff.mp none
      cases tail <;> simp_all [beginsNumber]
  · have stops : Ends (fun c => c == '.' || c.isDigit) behind := by
      cases behind <;> simp_all
    rw [readNumber_whole numeric stops]
    refine ⟨before, behind, rfl, rfl, .whole ?_ numeric stops⟩
    rintro rfl
    cases behind <;> simp_all [beginsNumber]

/-! ### Names -/

theorem qualifiedName_plain (alone : refers tail = false) :
    qualifiedName plain tail = (⟨none, .ofList plain⟩, plain.length) := by
  unfold qualifiedName
  split
  · rename_i next rest
    have stops : isNameStart next = false := alone
    rw [stops]
    rfl
  · rfl

theorem qualifiedName_joined (begins : (after ++ tail).head?.any isNameStart = true)
    (inside : after.all isPlainNameChar = true) (ends : Ends isPlainNameChar tail) :
    XPath.qualifiedName plain (':' :: (after ++ tail)) =
      (⟨some (.ofList plain), .ofList after⟩, plain.length + 1 + after.length) := by
  have taken := ends.takeWhile_append inside
  cases behind : after ++ tail with
  | nil =>
    rw [behind] at begins
    cases begins
  | cons next rest =>
    rw [behind] at begins taken
    have start : isNameStart next = true := begins
    simp [XPath.qualifiedName, start, taken]

theorem readName_plain (alone : joins tail = false) :
    readName plain tail = (classify ⟨none, .ofList plain⟩ tail, plain.length) := by
  unfold readName
  split
  · rfl
  · cases alone
  · rename_i colons star
    have stops : refers tail = false := by
      unfold refers
      split
      · rename_i next rest
        have other : next ≠ ':' := fun same => colons rest (by rw [same])
        have other' : next ≠ '*' := fun same => star rest (by rw [same])
        simpa [joins, other, other'] using alone
      · rfl
    rw [qualifiedName_plain stops]
    simp

theorem readName_joined (begins : after.head?.any isNameStart = true)
    (inside : after.all isPlainNameChar = true) (ends : Ends isPlainNameChar tail) :
    readName plain (':' :: (after ++ tail)) =
      (classify ⟨some (.ofList plain), .ofList after⟩ tail, plain.length + 1 + after.length) := by
  cases after with
  | nil => cases begins
  | cons next rest =>
    have start : isNameStart next = true := begins
    have colon : next ≠ ':' := by
      rintro rfl
      simp [not_isPlainNameChar_colon] at inside
    have star : next ≠ '*' := ne_of_isNameStart start '*' rfl
    have named : qualifiedName plain (':' :: (next :: rest ++ tail)) = _ :=
      qualifiedName_joined begins inside ends
    unfold readName
    split
    · simp_all
    · simp_all
    · have length : plain.length + 1 + (next :: rest).length - plain.length =
          (':' :: next :: rest).length := by simp; omega
      rw [named]
      simp only [length, ← List.cons_append, List.drop_left]

/-- A plain name is cut off where its characters end. -/
theorem exists_name (start : isNameStart first = true) (other : first ≠ ':') (rest : List Char) :
    ∃ plain tail, first :: rest = plain ++ tail ∧ plain.head?.any isNameStart = true ∧
      plain.all isPlainNameChar = true ∧ Ends isPlainNameChar tail := by
  obtain ⟨plain, tail, split, taken, inside, ends⟩ := exists_run isPlainNameChar (first :: rest)
  refine ⟨plain, tail, split, ?_, inside, ends⟩
  rw [← taken, List.takeWhile_cons_of_pos (isPlainNameChar_of_isNameStart start other)]
  exact start

theorem beginsWith_readName (operand : afterOperand = false)
    (begins : plain.head?.any isNameStart = true) (inside : plain.all isPlainNameChar = true)
    (ends : Ends isPlainNameChar rest) :
    BeginsWith afterOperand (plain ++ rest) (readName plain rest).1 (readName plain rest).2 := by
  by_cases alone : joins rest = true
  · unfold joins at alone
    split at alone
    · rename_i next behind
      by_cases star : next = '*'
      · subst star
        exact ⟨plain ++ [':', '*'], behind, by simp, by simp [readName],
          .anyName operand begins inside⟩
      · have start : isNameStart next = true := by simp_all
        have colon : next ≠ ':' := by simp_all
        obtain ⟨after, tail, split, begins', inside', ends'⟩ := exists_name start colon behind
        rw [split, readName_joined begins' inside' ends']
        refine ⟨plain ++ ':' :: after, tail, by simp, ?_,
          .qualifiedName operand begins inside begins' inside' ends'⟩
        simp
        omega
    · cases alone
  · have alone' : joins rest = false := by simpa using alone
    rw [readName_plain alone']
    exact ⟨plain, rest, rfl, rfl, .plainName operand begins inside ends alone'⟩

theorem beginsWith_reference (begins : text.head?.any isNameStart = true)
    (taken : text.takeWhile isPlainNameChar = plain)
    (named : qualifiedName plain (text.drop plain.length) = (name, length)) :
    BeginsWith afterOperand ('$' :: text) (.reference name) (length + 1) := by
  obtain ⟨run, rest, rfl, taken', inside, ends⟩ := exists_run isPlainNameChar text
  obtain rfl := taken'.symm.trans taken
  rw [List.drop_left] at named
  by_cases alone : refers rest = true
  · unfold refers at alone
    split at alone
    · rename_i next behind
      obtain ⟨after, tail, split, -, inside', ends'⟩ :=
        exists_run isPlainNameChar (next :: behind)
      rw [split] at begins named ⊢
      have begins' : (after ++ tail).head?.any isNameStart = true := by
        rw [← split]
        exact alone
      rw [qualifiedName_joined begins' inside' ends'] at named
      obtain ⟨rfl, rfl⟩ := Prod.mk.inj named
      refine ⟨'$' :: (run ++ ':' :: after), tail, by simp, ?_,
        .qualifiedReference ?_ inside begins' inside' ends'⟩
      · simp
        omega
      · cases run <;> simpa using begins
    · cases alone
  · have alone' : refers rest = false := by simpa using alone
    rw [qualifiedName_plain alone'] at named
    obtain ⟨rfl, rfl⟩ := Prod.mk.inj named
    exact ⟨'$' :: run, rest, rfl, rfl, .plainReference begins inside ends alone'⟩

/-! ### Any token -/

theorem isDigit_iff : c.isDigit = true ↔ 48 ≤ c.toNat ∧ c.toNat ≤ 57 := by
  simp only [Char.isDigit, Bool.and_eq_true, decide_eq_true_eq]
  exact Iff.rfl

theorem not_isDigit_of_isNameStart (start : isNameStart c = true) : c.isDigit = false := by
  refine Bool.eq_false_iff.mpr fun digit => ?_
  rw [isDigit_iff] at digit
  simp only [isNameStart, nameStartRanges, Text.inRanges, List.any_cons, List.any_nil,
    Bool.or_eq_true, Bool.and_eq_true, decide_eq_true_eq, Bool.false_eq_true, or_false] at start
  omega

theorem ne_of_isDigit (digit : c.isDigit = true) (d : Char) (other : d.isDigit = false) :
    c ≠ d := by
  rintro rfl
  exact absurd digit (by simp [other])

theorem scan_digit (digit : first.isDigit = true) :
    scan afterOperand position first rest = .ok (readNumber (first :: rest)) := by
  have apart := ne_of_isDigit digit
  have unmarked : mark? first = none := by
    unfold mark?
    split <;> first | rfl | exact absurd rfl (apart _ rfl)
  simp [scan, unmarked, apart '*' rfl, apart ':' rfl, apart '.' rfl, apart '/' rfl, apart '<' rfl,
    apart '>' rfl, apart '!' rfl, apart '"' rfl, apart '\'' rfl, apart '$' rfl, digit]

theorem scan_number (begins : beginsNumber (first :: rest) = true) :
    scan afterOperand position first rest = .ok (readNumber (first :: rest)) := by
  by_cases digit : first.isDigit = true
  · exact scan_digit digit
  · obtain ⟨rfl, next⟩ : first = '.' ∧ rest.head?.any Char.isDigit = true := by
      simpa [beginsNumber, digit] using begins
    have other : rest.head? ≠ some '.' := by
      intro point
      simp [point] at next
    show (if rest.head? == some '.' then _ else if rest.head?.any Char.isDigit then _ else _) = _
    rw [if_neg (by simpa using other), if_pos next]

theorem scan_reference (begins : (plain ++ tail).head?.any isNameStart = true)
    (inside : plain.all isPlainNameChar = true) (ends : Ends isPlainNameChar tail)
    (named : qualifiedName plain tail = (name, length)) :
    scan afterOperand position '$' (plain ++ tail) = .ok (.reference name, length + 1) := by
  have step (text : List Char) : scan afterOperand position '$' text =
      if text.head?.any isNameStart then
        .ok (.reference (XPath.qualifiedName (text.takeWhile isPlainNameChar)
          (text.drop (text.takeWhile isPlainNameChar).length)).1,
            (XPath.qualifiedName (text.takeWhile isPlainNameChar)
              (text.drop (text.takeWhile isPlainNameChar).length)).2 + 1)
      else .error (.badSyntax .variableNameMissing (position + 1)) := rfl
  rw [step, if_pos begins, ends.takeWhile_append inside, List.drop_left, named]

theorem scan_literal {quote : Char} {content : List Char} (known : quote = '"' ∨ quote = '\'')
    (free : quote ∉ content) :
    scan afterOperand position quote (content ++ quote :: tail) =
      .ok (.literal (.ofList content), content.length + 2) := by
  have inside : content.all (· != quote) = true := by
    rw [List.all_eq_true]
    intro c member
    simp only [bne_iff_ne]
    rintro rfl
    exact free member
  have ends : Ends (· != quote) (quote :: tail) := Ends.cons_iff.mpr (by simp)
  have closed : content.length < (content ++ quote :: tail).length := by simp
  have step : scan afterOperand position quote (content ++ quote :: tail) =
      if ((content ++ quote :: tail).takeWhile (· != quote)).length <
          (content ++ quote :: tail).length then
        .ok (.literal (.ofList ((content ++ quote :: tail).takeWhile (· != quote))),
          ((content ++ quote :: tail).takeWhile (· != quote)).length + 2)
      else .error (.badSyntax .unterminatedLiteral position) := by
    rcases known with rfl | rfl <;> rfl
  rw [step, ends.takeWhile_append inside, if_pos closed]

theorem scan_name (begins : plain.head?.any isNameStart = true)
    (inside : plain.all isPlainNameChar = true) (ends : Ends isPlainNameChar tail)
    (spelled : plain ++ tail = first :: rest) :
    scan afterOperand position first rest =
      if afterOperand then
        match WordOperator.ofWord? (.ofList plain) with
        | some op => .ok (.operator op, plain.length)
        | none => .error (.badSyntax (.operatorMissing (.ofList plain)) position)
      else .ok (readName plain tail) := by
  obtain ⟨start, other⟩ : isNameStart first = true ∧ first ≠ ':' := by
    cases plain with
    | nil => cases begins
    | cons c more =>
      obtain ⟨rfl, rfl⟩ := List.cons.inj spelled
      refine ⟨begins, ?_⟩
      rintro rfl
      simp [not_isPlainNameChar_colon] at inside
  have apart := ne_of_isNameStart start
  have unmarked : mark? first = none := by
    unfold mark?
    split <;> first | rfl | exact absurd rfl (apart _ rfl)
  have taken : (first :: rest).takeWhile isPlainNameChar = plain := by
    rw [← spelled, ends.takeWhile_append inside]
  have behind : (first :: rest).drop plain.length = tail := by
    rw [← spelled, List.drop_left]
  cases known : WordOperator.ofWord? (.ofList plain) with
  | none | some op =>
    simp [scan, unmarked, other, apart '*' rfl, apart '.' rfl, apart '/' rfl, apart '<' rfl,
      apart '>' rfl, apart '!' rfl, apart '"' rfl, apart '\'' rfl, apart '$' rfl,
      not_isDigit_of_isNameStart start, start, taken, behind, known]

theorem beginsWith_name (start : isNameStart first = true) (other : first ≠ ':')
    (read : scan afterOperand position first rest = .ok (token, length)) :
    BeginsWith afterOperand (first :: rest) token length := by
  obtain ⟨plain, tail, split, begins, inside, ends⟩ := exists_name start other rest
  rw [scan_name begins inside ends split.symm] at read
  rw [split]
  cases operand : afterOperand with
  | true =>
    rw [if_pos operand] at read
    split at read
    · rename_i op known
      obtain ⟨rfl, rfl⟩ := Prod.mk.inj (Except.ok.inj read)
      exact ⟨plain, tail, rfl, rfl, .word rfl begins inside ends known⟩
    · cases read
  | false =>
    rw [if_neg (by simp [operand])] at read
    have named := Except.ok.inj read
    have begins' := beginsWith_readName operand begins inside ends
    rwa [named, operand] at begins'

theorem beginsWith_double {second : Char} {symbol : Symbol}
    (known : (first, second, symbol) ∈ doubles) (next : rest.head? = some second) :
    BeginsWith afterOperand (first :: rest) (.symbol symbol) 2 := by
  obtain ⟨tail, rfl⟩ := List.head?_eq_some_iff.mp next
  exact ⟨[first, second], tail, rfl, rfl, .double known⟩

theorem beginsWith_paired {second : Char} {pair single : Symbol}
    (known : (first, second, pair) ∈ doubles) (known' : (first, second, single) ∈ singles)
    (read : paired second pair single rest = (token, length)) :
    BeginsWith afterOperand (first :: rest) token length := by
  by_cases next : rest.head? = some second
  · rw [paired, if_pos (by simpa using next)] at read
    obtain ⟨rfl, rfl⟩ := Prod.mk.inj read
    exact beginsWith_double known next
  · rw [paired, if_neg (by simpa using next)] at read
    obtain ⟨rfl, rfl⟩ := Prod.mk.inj read
    refine ⟨[first], rest, rfl, rfl, .single known' fun c front => ?_⟩
    simp only [beq_eq_false_iff_ne]
    rintro rfl
    exact next front

theorem beginsWith_literal (known : first = '"' ∨ first = '\'')
    (closed : (rest.takeWhile (· != first)).length < rest.length) :
    BeginsWith afterOperand (first :: rest) (.literal (.ofList (rest.takeWhile (· != first))))
      ((rest.takeWhile (· != first)).length + 2) := by
  obtain ⟨content, behind, rfl, taken, free, ends⟩ := exists_run (· != first) rest
  rw [taken] at closed ⊢
  cases behind with
  | nil => simp at closed
  | cons c tail =>
    obtain rfl : c = first := by simpa using ends
    refine ⟨c :: (content ++ [c]), tail, by simp, by simp, .literal known fun member => ?_⟩
    simpa using List.all_eq_true.mp free c member

/-- What is read of a text as its first token is a token. -/
theorem beginsWith_of_scan (read : scan afterOperand position first rest = .ok (token, length)) :
    BeginsWith afterOperand (first :: rest) token length := by
  by_cases named : isNameStart first = true ∧ first ≠ ':'
  · exact beginsWith_name named.1 named.2 read
  by_cases numeric : beginsNumber (first :: rest) = true
  · rw [scan_number numeric] at read
    have number := Except.ok.inj read
    have begins : BeginsWith afterOperand (first :: rest) _ _ := beginsWith_readNumber numeric
    rwa [number] at begins
  cases known : mark? first with
  | some symbol =>
    simp only [scan, known] at read
    obtain ⟨rfl, rfl⟩ := Prod.mk.inj (Except.ok.inj read)
    exact ⟨[first], rest, rfl, rfl, .mark known⟩
  | none =>
    simp only [scan, known, beq_iff_eq, Bool.or_eq_true] at read
    by_cases star : first = '*'
    · rw [if_pos star] at read
      obtain ⟨rfl, rfl⟩ := Prod.mk.inj (Except.ok.inj read)
      exact ⟨['*'], rest, by rw [star]; rfl, rfl, .asterisk⟩
    rw [if_neg star] at read
    by_cases colon : first = ':'
    · rw [if_pos colon] at read
      split at read
      · rename_i next
        obtain ⟨rfl, rfl⟩ := Prod.mk.inj (Except.ok.inj read)
        exact beginsWith_double (by simp [colon, doubles]) next
      · cases read
    rw [if_neg colon] at read
    by_cases dot : first = '.'
    · have digit : ¬ rest.head?.any Char.isDigit = true := by simpa [beginsNumber, dot] using numeric
      rw [if_pos dot, if_neg digit] at read
      split at read
      · rename_i next
        obtain ⟨rfl, rfl⟩ := Prod.mk.inj (Except.ok.inj read)
        exact beginsWith_double (by simp [dot, doubles]) next
      · obtain ⟨rfl, rfl⟩ := Prod.mk.inj (Except.ok.inj read)
        refine ⟨['.'], rest, by rw [dot]; rfl, rfl, .dot ?_⟩
        cases rest <;> simp_all
    rw [if_neg dot] at read
    by_cases slash : first = '/'
    · rw [if_pos slash] at read
      exact beginsWith_paired (by simp [slash, doubles]) (by simp [slash, singles])
        (Except.ok.inj read)
    rw [if_neg slash] at read
    by_cases less : first = '<'
    · rw [if_pos less] at read
      exact beginsWith_paired (by simp [less, doubles]) (by simp [less, singles])
        (Except.ok.inj read)
    rw [if_neg less] at read
    by_cases greater : first = '>'
    · rw [if_pos greater] at read
      exact beginsWith_paired (by simp [greater, doubles]) (by simp [greater, singles])
        (Except.ok.inj read)
    rw [if_neg greater] at read
    by_cases bang : first = '!'
    · rw [if_pos bang] at read
      split at read
      · rename_i next
        obtain ⟨rfl, rfl⟩ := Prod.mk.inj (Except.ok.inj read)
        exact beginsWith_double (by simp [bang, doubles]) next
      · cases read
    rw [if_neg bang] at read
    by_cases quote : first = '"' ∨ first = '\''
    · rw [if_pos quote] at read
      split at read
      · rename_i closed
        obtain ⟨rfl, rfl⟩ := Prod.mk.inj (Except.ok.inj read)
        exact beginsWith_literal quote closed
      · cases read
    rw [if_neg quote] at read
    by_cases dollar : first = '$'
    · rw [if_pos dollar] at read
      split at read
      · rename_i begins
        obtain ⟨rfl, rfl⟩ := Prod.mk.inj (Except.ok.inj read)
        rw [dollar]
        exact beginsWith_reference begins rfl rfl
      · cases read
    have digit : ¬ first.isDigit = true := fun digit => numeric (by simp [beginsNumber, digit])
    rw [if_neg dollar, if_neg digit, if_neg fun start => named ⟨start, colon⟩] at read
    cases read

/-! ## A token is read as such -/

theorem not_isMarkupBlank_of_isNameStart (start : isNameStart c = true) :
    isMarkupBlank c = false := by
  have apart := ne_of_isNameStart start
  simp [isMarkupBlank, apart ' ' rfl, apart '\t' rfl, apart '\r' rfl, apart '\n' rfl]

theorem not_isMarkupBlank_of_isDigit (digit : c.isDigit = true) : isMarkupBlank c = false := by
  have apart := ne_of_isDigit digit
  simp [isMarkupBlank, apart ' ' rfl, apart '\t' rfl, apart '\r' rfl, apart '\n' rfl]

/-- A text begins with no blank, and a colon that it begins with is the first of two. -/
def Opens (text : List Char) : Prop :=
  ∃ first rest, text = first :: rest ∧ isMarkupBlank first = false ∧ (first = ':' → rest = [':'])

theorem opens_name (begins : plain.head?.any isNameStart = true)
    (inside : plain.all isPlainNameChar = true) (more : List Char) : Opens (plain ++ more) := by
  cases plain with
  | nil => cases begins
  | cons first rest =>
    refine ⟨first, rest ++ more, rfl, not_isMarkupBlank_of_isNameStart begins, ?_⟩
    rintro rfl
    simp [not_isPlainNameChar_colon] at inside

theorem opens_digits (nonempty : plain ≠ []) (numeric : plain.all Char.isDigit = true)
    (more : List Char) : Opens (plain ++ more) := by
  cases plain with
  | nil => exact absurd rfl nonempty
  | cons first rest =>
    have digit : first.isDigit = true := by simp_all
    refine ⟨first, rest ++ more, rfl, not_isMarkupBlank_of_isDigit digit, ?_⟩
    exact fun same => absurd same (ne_of_isDigit digit ':' rfl)

theorem opens_of_ne {rest : List Char} (solid : isMarkupBlank first = false)
    (other : first ≠ ':') : Opens (first :: rest) :=
  ⟨first, rest, rfl, solid, fun same => absurd same other⟩

namespace Scanned

theorem opens (scanned : Scanned afterOperand text tail token) : Opens text := by
  cases scanned with
  | mark known =>
    unfold mark? at known
    split at known
    all_goals first | exact opens_of_ne rfl (by decide) | cases known
  | asterisk | dot | plainReference | qualifiedReference => exact opens_of_ne rfl (by decide)
  | double known =>
    simp only [doubles, List.mem_cons, Prod.mk.injEq, List.not_mem_nil, or_false] at known
    rcases known with ⟨rfl, rfl, rfl⟩ | known
    · exact ⟨':', [':'], rfl, rfl, fun _ => rfl⟩
    · rcases known with ⟨rfl, -⟩ | ⟨rfl, -⟩ | ⟨rfl, -⟩ | ⟨rfl, -⟩ | ⟨rfl, -⟩
      all_goals exact opens_of_ne rfl (by decide)
  | single known =>
    simp only [singles, List.mem_cons, Prod.mk.injEq, List.not_mem_nil, or_false] at known
    rcases known with ⟨rfl, -⟩ | ⟨rfl, -⟩ | ⟨rfl, -⟩
    all_goals exact opens_of_ne rfl (by decide)
  | whole nonempty numeric => simpa using opens_digits nonempty numeric []
  | @fraction before after _ nonempty numeric =>
    by_cases pointed : before = []
    · rw [pointed]
      exact opens_of_ne rfl (by decide)
    · exact opens_digits pointed numeric _
  | literal known => rcases known with rfl | rfl <;> exact opens_of_ne rfl (by decide)
  | word _ begins inside => simpa using opens_name begins inside []
  | plainName _ begins inside => simpa using opens_name begins inside []
  | anyName _ begins inside => exact opens_name begins inside _
  | qualifiedName _ begins inside => exact opens_name begins inside _

/-- A token is read from its first character on. -/
theorem scan_eq (scanned : Scanned afterOperand text tail token) (spelled : text = first :: rest) :
    scan afterOperand position first (rest ++ tail) = .ok (token, text.length) := by
  have whole : text ++ tail = first :: (rest ++ tail) := by rw [spelled, List.cons_append]
  cases scanned with
  | mark known =>
    obtain ⟨rfl, rfl⟩ := List.cons.inj spelled
    simp only [scan, known]
    rfl
  | asterisk =>
    obtain ⟨rfl, rfl⟩ := List.cons.inj spelled
    rfl
  | double known =>
    obtain ⟨rfl, rfl⟩ := List.cons.inj spelled
    simp only [doubles, List.mem_cons, Prod.mk.injEq, List.not_mem_nil, or_false] at known
    rcases known with ⟨rfl, rfl, rfl⟩ | ⟨rfl, rfl, rfl⟩ | ⟨rfl, rfl, rfl⟩ | ⟨rfl, rfl, rfl⟩ |
      ⟨rfl, rfl, rfl⟩ | ⟨rfl, rfl, rfl⟩
    all_goals rfl
  | @single _ second symbol _ known ends =>
    obtain ⟨rfl, rfl⟩ := List.cons.inj spelled
    have other : (tail.head? == some second) = false := by
      cases tail <;> simp_all
    simp only [singles, List.mem_cons, Prod.mk.injEq, List.not_mem_nil, or_false] at known
    rcases known with ⟨rfl, rfl, rfl⟩ | ⟨rfl, rfl, rfl⟩ | ⟨rfl, rfl, rfl⟩
    all_goals
      show Except.ok (paired _ _ _ tail) = _
      rw [paired, other]
      rfl
  | dot ends =>
    obtain ⟨rfl, rfl⟩ := List.cons.inj spelled
    show (if tail.head? == some '.' then _ else if tail.head?.any Char.isDigit then _ else _) = _
    cases tail <;> simp_all
  | whole nonempty numeric ends =>
    rw [scan_number, ← whole, readNumber_whole numeric ends]
    simp_all [beginsNumber]
  | @fraction before after _ nonempty numeric numeric' ends =>
    rw [List.append_assoc, List.cons_append] at whole
    have begins := beginsNumber_fraction tail nonempty numeric numeric'
    rw [scan_number (whole ▸ begins), ← whole, readNumber_fraction numeric numeric' ends]
    simp
    omega
  | literal known free =>
    obtain ⟨rfl, rfl⟩ := List.cons.inj spelled
    rw [List.append_assoc, List.singleton_append, scan_literal known free]
    simp
  | word operand begins inside ends known =>
    rw [scan_name begins inside ends whole, if_pos operand, known]
  | plainName operand begins inside ends alone =>
    rw [scan_name begins inside ends whole, operand, if_neg (by simp), readName_plain alone]
  | @anyName plain _ operand begins inside =>
    rw [List.append_assoc] at whole
    rw [scan_name begins inside (Ends.cons_iff.mpr rfl) whole, operand, if_neg (by simp)]
    simp [readName]
  | qualifiedName operand begins inside begins' inside' ends =>
    rw [List.append_assoc, List.cons_append] at whole
    rw [scan_name begins inside (Ends.cons_iff.mpr rfl) whole, operand, if_neg (by simp),
      readName_joined begins' inside' ends]
    simp
    omega
  | plainReference begins inside ends alone =>
    obtain ⟨rfl, rfl⟩ := List.cons.inj spelled
    rw [scan_reference begins inside ends (qualifiedName_plain alone)]
    rfl
  | @qualifiedReference plain localName _ begins inside begins' inside' ends =>
    obtain ⟨rfl, rfl⟩ := List.cons.inj spelled
    have begins'' : (plain ++ ':' :: (localName ++ tail)).head?.any isNameStart = true := by
      cases plain <;> simpa using begins
    rw [List.append_assoc, List.cons_append, scan_reference begins'' inside (Ends.cons_iff.mpr rfl)
      (qualifiedName_joined begins' inside' ends)]
    simp
    omega

end Scanned

end Markup.XPath
