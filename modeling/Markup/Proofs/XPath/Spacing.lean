import Mathlib
import Markup.Proofs.XPath.Scanned

/-!
# Blanks between tokens

An expression is its tokens as they are spelled, with blanks between them. With other blanks it has
the same tokens, as long as tokens stay apart: what stands behind a token is looked at past blanks,
or only tells where the token ends. There is one exception. A reference may end with a colon where
two more follow, and with a blank behind it that colon is no part of a name.
-/

namespace Markup.XPath

open Text (isMarkupBlank)

variable {afterOperand : Bool} {text gap tail tail' lead lead' : List Char} {token : Token}
  {position : Nat} {name : QName} {member : Char → Bool}

/-! ## Spelling -/

/-- How a token is spelled. Numbers and literals may be spelled in several ways. -/
inductive Token.Spells : Token → List Char → Prop
  | symbol (s : Symbol) : Spells (.symbol s) s.spelling.toList
  | operator (op : WordOperator) : Spells (.operator op) op.spelling.toList
  | whole {digits : List Char} (nonempty : digits ≠ []) (numeric : digits.all Char.isDigit) :
      Spells (.number (Number.ofDigits false digits [])) digits
  | fraction {before after : List Char} (nonempty : before ++ after ≠ [])
      (numeric : (before ++ after).all Char.isDigit) :
      Spells (.number (Number.ofDigits false before after)) (before ++ '.' :: after)
  | literal {quote : Char} {content : String} (known : quote = '"' ∨ quote = '\'')
      (free : quote ∉ content.toList) : Spells (.literal content) (quote :: content.toList ++ [quote])
  | name (pattern : NamePattern) : Spells (.name pattern) pattern.toText.toList
  | reference (name : QName) : Spells (.reference name) ('$' :: name.toText.toList)
  | function (name : QName) : Spells (.function name) name.toText.toList
  | nodeType (type : NodeType) : Spells (.nodeType type) type.name.toList
  | axis (name : QName) : Spells (.axis name) name.toText.toList

theorem spells_classify (name : QName) (tail : List Char) :
    (classify name tail).Spells name.toText.toList := by
  unfold classify
  split
  · split
    · rename_i type known
      have same : type.name = name.toText := by
        simpa using List.find?_some (p := fun (type : NodeType) => type.name == name.toText) known
      rw [← same]
      exact .nodeType type
    · exact .function name
  · exact .axis name
  · exact .name (.exactly name)

theorem spelling_of_mark? {c : Char} {symbol : Symbol} (known : mark? c = some symbol) :
    symbol.spelling.toList = [c] := by
  unfold mark? at known
  split at known
  all_goals first | exact absurd known (Option.some_ne_none _).symm | cases known; rfl

theorem spelling_of_double {first second : Char} {symbol : Symbol}
    (known : (first, second, symbol) ∈ doubles) : symbol.spelling.toList = [first, second] := by
  simp only [doubles, List.mem_cons, Prod.mk.injEq, List.not_mem_nil, or_false] at known
  rcases known with ⟨rfl, rfl, rfl⟩ | ⟨rfl, rfl, rfl⟩ | ⟨rfl, rfl, rfl⟩ | ⟨rfl, rfl, rfl⟩ |
    ⟨rfl, rfl, rfl⟩ | ⟨rfl, rfl, rfl⟩
  all_goals rfl

theorem spelling_of_single {first second : Char} {symbol : Symbol}
    (known : (first, second, symbol) ∈ singles) : symbol.spelling.toList = [first] := by
  simp only [singles, List.mem_cons, Prod.mk.injEq, List.not_mem_nil, or_false] at known
  rcases known with ⟨rfl, rfl, rfl⟩ | ⟨rfl, rfl, rfl⟩ | ⟨rfl, rfl, rfl⟩
  all_goals rfl

namespace Scanned

/-- A token stands in a text as it is spelled. -/
theorem spells (scanned : Scanned afterOperand text tail token) : token.Spells text := by
  cases scanned with
  | mark known => exact spelling_of_mark? known ▸ .symbol _
  | asterisk =>
    cases afterOperand
    · exact .name .any
    · exact .operator .multiply
  | double known => exact spelling_of_double known ▸ .symbol _
  | single known ends => exact spelling_of_single known ▸ .symbol _
  | dot ends => exact .symbol .dot
  | whole nonempty numeric ends => exact .whole nonempty numeric
  | fraction nonempty numeric numeric' ends =>
    exact .fraction nonempty (by rw [List.all_append, numeric, numeric']; rfl)
  | @literal quote content _ known free =>
    have spelled : Token.Spells (.literal (.ofList content)) _ :=
      .literal known (by rwa [String.toList_ofList])
    simpa using spelled
  | @word _ _ op operand begins inside ends known =>
    have same : op.spelling = .ofList text := by
      simpa using List.find?_some (p := (fun op : WordOperator => op.spelling == .ofList text)) known
    simpa [same] using Token.Spells.operator op
  | plainName operand begins inside ends alone =>
    simpa [QName.toText] using spells_classify ⟨none, .ofList text⟩ tail
  | @anyName plain _ operand begins inside =>
    simpa [NamePattern.toText] using Token.Spells.name (.anyOf (.ofList plain))
  | @qualifiedName plain localName _ operand begins inside begins' inside' ends =>
    simpa [QName.toText] using spells_classify ⟨some (.ofList plain), .ofList localName⟩ tail
  | @plainReference plain _ begins inside ends alone =>
    simpa [QName.toText] using Token.Spells.reference ⟨none, .ofList plain⟩
  | @qualifiedReference plain localName _ begins inside begins' inside' ends =>
    simpa [QName.toText] using Token.Spells.reference ⟨some (.ofList plain), .ofList localName⟩

end Scanned

/-! ## Other blanks behind a token -/

/-- Nothing stands behind a token, or a blank does. -/
def Spaced (tail : List Char) : Prop := Ends (fun c => !isMarkupBlank c) tail

theorem Spaced.ends (spaced : Spaced tail) (member : Char → Bool)
    (apart : [' ', '\t', '\r', '\n'].all (fun blank => !member blank) = true) :
    Ends member tail := by
  intro c next
  have blank := spaced c next
  simp only [isMarkupBlank, Bool.not_eq_false', Bool.or_eq_true, beq_iff_eq, or_assoc] at blank
  refine (Bool.not_eq_true' _).mp (List.all_eq_true.mp apart c ?_)
  simpa using blank

theorem joins_of_spaced (spaced : Spaced tail) : joins tail = false := by
  unfold joins
  split
  · simp [Spaced, isMarkupBlank] at spaced
  · rfl

theorem refers_of_spaced (spaced : Spaced tail) : refers tail = false := by
  unfold refers
  split
  · simp [Spaced, isMarkupBlank] at spaced
  · rfl

/-- Blanks are passed over before the mark that tells what a name is for. -/
theorem front_gap (blank : gap.all isMarkupBlank = true) : front (gap ++ text) = front text := by
  rw [front, front, List.dropWhile_append_of_pos (List.all_eq_true.mp blank)]

/-- What a token begins with is not looked at beyond the token. -/
theorem front_append (opens : Opens text) : front (text ++ tail) = front text := by
  obtain ⟨first, rest, rfl, solid, colons⟩ := opens
  have stays (more : List Char) : (first :: more).dropWhile isMarkupBlank = first :: more :=
    List.dropWhile_cons_of_neg (by simp [solid])
  rw [front, front, List.cons_append, stays, stays]
  by_cases colon : first = ':'
  · rw [colons colon, colon]
    rfl
  · by_cases paren : first = '('
    · rw [paren]
      rfl
    · simp [colon, paren]

/-- Whether a reference ends with a colon that is the first of three. -/
def Token.isCut : Token → Bool
  | reference name => name.localName == ""
  | _ => false

/-- With other blanks behind it, a token is read as it was, if the mark behind the blanks is
the same. -/
theorem Scanned.moved (scanned : Scanned afterOperand text tail token)
    (complete : token.isCut = false) (spaced : Spaced tail') (same : front tail' = front tail) :
    Scanned afterOperand text tail' token := by
  cases scanned with
  | mark known => exact .mark known
  | asterisk => exact .asterisk
  | double known => exact .double known
  | single known =>
    have known' := known
    simp only [singles, List.mem_cons, Prod.mk.injEq, List.not_mem_nil, or_false] at known'
    rcases known' with ⟨-, rfl, -⟩ | ⟨-, rfl, -⟩ | ⟨-, rfl, -⟩
    all_goals exact .single known (spaced.ends _ (by decide))
  | dot => exact .dot (spaced.ends _ (by decide))
  | whole nonempty numeric => exact .whole nonempty numeric (spaced.ends _ (by decide))
  | fraction nonempty numeric numeric' =>
    exact .fraction nonempty numeric numeric' (spaced.ends _ (by decide))
  | literal known free => exact .literal known free
  | word operand begins inside _ known =>
    exact .word operand begins inside (spaced.ends _ (by decide)) known
  | plainName operand begins inside =>
    rw [← classify_congr same]
    exact .plainName operand begins inside (spaced.ends _ (by decide)) (joins_of_spaced spaced)
  | anyName operand begins inside => exact .anyName operand begins inside
  | qualifiedName operand begins inside begins' inside' =>
    rw [← classify_congr same]
    exact .qualifiedName operand begins inside begins' inside' (spaced.ends _ (by decide))
  | @plainReference plain _ begins inside =>
    have nonempty : plain ≠ [] := by
      rintro rfl
      cases complete
    refine .plainReference ?_ inside (spaced.ends _ (by decide)) (refers_of_spaced spaced)
    cases plain <;> simp_all
  | @qualifiedReference plain localName _ begins inside begins' inside' =>
    have nonempty : localName ≠ [] := by
      rintro rfl
      cases complete
    refine .qualifiedReference begins inside ?_ inside' (spaced.ends _ (by decide))
    cases localName <;> simp_all

/-! ## Reading token by token -/

theorem utf8Size_of_isMarkupBlank {c : Char} (blank : isMarkupBlank c = true) : c.utf8Size = 1 := by
  simp only [isMarkupBlank, Bool.or_eq_true, beq_iff_eq, or_assoc] at blank
  rcases blank with rfl | rfl | rfl | rfl <;> rfl

theorem tokensFrom_blanks (blank : gap.all isMarkupBlank = true) :
    tokensFrom afterOperand position (gap ++ text) =
      tokensFrom afterOperand (position + Text.byteLength gap) text := by
  induction gap generalizing position with
  | nil => rfl
  | cons c rest ih =>
    obtain ⟨first, more⟩ : isMarkupBlank c = true ∧ rest.all isMarkupBlank = true := by
      simpa using blank
    rw [List.cons_append, tokensFrom, if_pos first, ih more, Text.byteLength_cons,
      utf8Size_of_isMarkupBlank first, Nat.add_assoc]

theorem tokensFrom_scanned (scanned : Scanned afterOperand text tail token) :
    tokensFrom afterOperand position (text ++ tail) =
      (tokensFrom token.endsOperand (position + Text.byteLength text) tail).map
        ((token, position) :: ·) := by
  obtain ⟨first, rest, rfl, solid, -⟩ := scanned.opens
  rw [List.cons_append, tokensFrom, if_neg (by simp [solid]), scanned.scan_eq rfl]
  simp only [bind, Except.bind, List.length_cons, Nat.add_sub_cancel, List.take_left,
    List.drop_left]
  cases tokensFrom token.endsOperand (position + Text.byteLength (first :: rest)) tail <;> rfl

theorem isCut_classify : (classify name tail).isCut = false := by
  unfold classify
  split
  · split <;> rfl
  · rfl
  · rfl

/-- One colon begins no token. -/
theorem tokensFrom_colon (spaced : Spaced tail) :
    tokensFrom afterOperand position (':' :: tail) =
      .error (.badSyntax .doubleColonMissing position) := by
  have single : (tail.head? == some ':') = false := by
    cases tail with
    | nil => rfl
    | cons c rest =>
      have other := Ends.cons_iff.mp (spaced.ends (· == ':') (by decide))
      simpa using other
  have failed : scan afterOperand position ':' tail =
      .error (.badSyntax .doubleColonMissing position) := by
    show (if tail.head? == some ':' then _ else _) = _
    rw [single]
    rfl
  rw [tokensFrom, if_neg (by decide), failed]
  rfl

/-- Where a reference ends with a colon, a blank behind that leaves nothing to be read. -/
theorem tokensFrom_cut (scanned : Scanned afterOperand text tail token)
    (cut : token.isCut = true) (spaced : Spaced tail') :
    ∃ fault, tokensFrom afterOperand position (text ++ tail') = .error fault := by
  cases scanned with
  | mark | double | single | dot | whole | fraction | literal | word | anyName => cases cut
  | asterisk => cases afterOperand <;> cases cut
  | plainName | qualifiedName => exact absurd cut (by simp [isCut_classify])
  | @plainReference plain _ begins inside ends alone =>
    have empty : plain = [] := by simpa [Token.isCut] using cut
    have unnamed : tail'.head?.any isNameStart = false := by
      cases tail' with
      | nil => rfl
      | cons c rest => exact Ends.cons_iff.mp (spaced.ends isNameStart (by decide))
    have failed : scan afterOperand position '$' tail' =
        .error (.badSyntax .variableNameMissing (position + 1)) := by
      show (if tail'.head?.any isNameStart then _ else _) = _
      rw [unnamed]
      rfl
    refine ⟨.badSyntax .variableNameMissing (position + 1), ?_⟩
    rw [empty, List.singleton_append, tokensFrom, if_neg (by decide), failed]
    rfl
  | @qualifiedReference plain localName _ begins inside begins' inside' ends =>
    have empty : localName = [] := by simpa [Token.isCut] using cut
    subst empty
    have begins'' : (plain ++ ':' :: tail').head?.any isNameStart = true := by
      cases plain <;> simpa using begins
    have alone : refers (':' :: tail') = false := by
      cases tail' with
      | nil => rfl
      | cons c rest => exact Ends.cons_iff.mp (spaced.ends isNameStart (by decide))
    have shorter : Scanned afterOperand ('$' :: plain) (':' :: tail') _ :=
      .plainReference begins'' inside (Ends.cons_iff.mpr rfl) alone
    have split : '$' :: (plain ++ [':']) ++ tail' = '$' :: plain ++ ':' :: tail' := by simp
    rw [split, tokensFrom_scanned shorter, tokensFrom_colon spaced]
    exact ⟨_, rfl⟩

/-! ## Expressions in pieces -/

/-- A token of an expression, how it is spelled there, and the blanks behind it. -/
structure Piece where
  token : Token
  text : List Char
  gap : List Char

namespace Piece

/-- The text that pieces make up. -/
def spread (pieces : List Piece) : List Char := pieces.flatMap fun piece => piece.text ++ piece.gap

@[simp] theorem spread_nil : spread [] = [] := rfl

@[simp] theorem spread_cons (piece : Piece) (rest : List Piece) :
    spread (piece :: rest) = piece.text ++ (piece.gap ++ spread rest) := by
  simp [spread]

/-- The tokens of pieces with their places, if the first stands at a place. -/
def placed (position : Nat) : List Piece → List (Token × Nat)
  | [] => []
  | piece :: rest => (piece.token, position) ::
      placed (position + Text.byteLength (piece.text ++ piece.gap)) rest

end Piece

/-- No token of pieces stands before the first. -/
theorem Piece.le_of_mem_placed {pieces : List Piece} {position place : Nat}
    (member : place ∈ (placed position pieces).map (·.2)) : position ≤ place := by
  induction pieces generalizing position with
  | nil => cases member
  | cons piece rest ih =>
    rcases List.mem_cons.mp member with rfl | member
    · exact Nat.le_refl _
    · exact Nat.le_trans (Nat.le_add_right ..) (ih member)

theorem Piece.map_placed (pieces : List Piece) (position : Nat) :
    (placed position pieces).map (·.1) = pieces.map (·.token) := by
  induction pieces generalizing position with
  | nil => rfl
  | cons piece rest ih => rw [placed, List.map_cons, List.map_cons, ih]

theorem Piece.any_placed (pieces : List Piece) (position : Nat) :
    (placed position pieces).any (·.1.isCut) = pieces.any (·.token.isCut) := by
  induction pieces generalizing position with
  | nil => rfl
  | cons piece rest ih => rw [placed, List.any_cons, List.any_cons, ih]

open Piece

variable {pieces pieces' : List Piece} {found : List (Token × Nat)}

/-- Pieces that are read one after the other. -/
inductive Tokenized : Bool → List Piece → Prop
  | nil {afterOperand : Bool} : Tokenized afterOperand []
  | cons {afterOperand : Bool} {piece : Piece} {rest : List Piece}
      (scanned : Scanned afterOperand piece.text (piece.gap ++ spread rest) piece.token)
      (blank : piece.gap.all isMarkupBlank = true)
      (more : Tokenized piece.token.endsOperand rest) : Tokenized afterOperand (piece :: rest)

/-- The same tokens, spelled alike, with other blanks: any behind the last one, and some between
any two. -/
inductive Respaced : List Piece → List Piece → Prop
  | nil : Respaced [] []
  | cons {piece : Piece} {gap : List Char} {rest rest' : List Piece}
      (blank : gap.all isMarkupBlank = true) (apart : rest ≠ [] → gap ≠ [])
      (more : Respaced rest rest') : Respaced (piece :: rest) ({ piece with gap } :: rest')

theorem Respaced.spaced (moved : Respaced pieces pieces') (blank : gap.all isMarkupBlank = true)
    (apart : pieces ≠ [] → gap ≠ []) : Spaced (gap ++ spread pieces') := by
  cases gap with
  | nil =>
    cases moved with
    | nil => exact .nil
    | cons => exact absurd rfl (apart (List.cons_ne_nil _ _))
  | cons c rest =>
    have first : isMarkupBlank c = true := List.all_eq_true.mp blank c List.mem_cons_self
    exact Ends.cons_iff.mpr (by simp [first])

namespace Tokenized

theorem tokensFrom_eq (tokenized : Tokenized afterOperand pieces) :
    tokensFrom afterOperand position (spread pieces) = .ok (placed position pieces) := by
  induction tokenized generalizing position with
  | nil => rw [spread_nil, tokensFrom, placed]
  | cons scanned blank more ih =>
    rw [spread_cons, tokensFrom_scanned scanned, tokensFrom_blanks blank, ih, placed,
      Text.byteLength_append, ← Nat.add_assoc]
    rfl

/-- Each token is spelled in its piece, and blanks follow it. -/
theorem spells (tokenized : Tokenized afterOperand pieces) :
    ∀ piece ∈ pieces, piece.token.Spells piece.text ∧ piece.gap.all isMarkupBlank = true := by
  induction tokenized with
  | nil => simp
  | cons scanned blank more ih => exact List.forall_mem_cons.mpr ⟨⟨scanned.spells, blank⟩, ih⟩

/-- Tokens stand one behind the other. -/
theorem placed_increasing (tokenized : Tokenized afterOperand pieces) :
    ((placed position pieces).map (·.2)).Pairwise (· < ·) := by
  induction tokenized generalizing position with
  | nil => exact .nil
  | @cons _ piece rest scanned blank more ih =>
    refine List.pairwise_cons.mpr ⟨fun place member => ?_, ih⟩
    obtain ⟨first, others, spelled, -⟩ := scanned.opens
    have least := le_of_mem_placed member
    have wide := first.utf8Size_pos
    rw [spelled, List.cons_append, Text.byteLength_cons] at least
    show position < place
    omega

/-- The mark behind blanks is told by the next token. -/
theorem front_spread (tokenized : Tokenized afterOperand pieces)
    (moved : Respaced pieces pieces') : front (spread pieces') = front (spread pieces) := by
  cases tokenized with
  | nil => cases moved; rfl
  | cons scanned blank more =>
    cases moved with
    | cons blank apart more =>
      rw [spread_cons, spread_cons, front_append scanned.opens, front_append scanned.opens]

/-- With other blanks the tokens are the same, unless a reference is cut. -/
theorem respaced (tokenized : Tokenized afterOperand pieces) (moved : Respaced pieces pieces')
    (complete : ∀ piece ∈ pieces, piece.token.isCut = false) :
    Tokenized afterOperand pieces' := by
  induction tokenized generalizing pieces' with
  | nil =>
    cases moved
    exact .nil
  | cons scanned blank more ih =>
    cases moved with
    | cons blank' apart moved =>
      obtain ⟨first, others⟩ := List.forall_mem_cons.mp complete
      refine .cons (scanned.moved first (moved.spaced blank' apart) ?_) blank' (ih moved others)
      rw [front_gap blank', front_gap blank, more.front_spread moved]

/-- Where a reference is cut, there are no tokens with other blanks. -/
theorem respaced_cut (tokenized : Tokenized afterOperand pieces) (moved : Respaced pieces pieces')
    (cut : ∃ piece ∈ pieces, piece.token.isCut = true) :
    ∃ fault, tokensFrom afterOperand position (spread pieces') = .error fault := by
  induction tokenized generalizing pieces' position with
  | nil => simp at cut
  | @cons _ piece rest scanned blank more ih =>
    cases moved with
    | @cons _ gap _ rest' blank' apart moved =>
      have spaced := moved.spaced blank' apart
      rw [spread_cons]
      cases first : piece.token.isCut with
      | true => exact tokensFrom_cut scanned first spaced
      | false =>
        have front : front (gap ++ spread rest') = front (piece.gap ++ spread rest) := by
          rw [front_gap blank', front_gap blank, more.front_spread moved]
        obtain ⟨fault, failed⟩ := ih moved (by simpa [first] using cut)
        rw [tokensFrom_scanned (scanned.moved first spaced front), tokensFrom_blanks blank', failed]
        exact ⟨fault, rfl⟩

end Tokenized

/-- An expression that has tokens is read in pieces. -/
theorem exists_tokenized (read : tokensFrom afterOperand position text = .ok found) :
    ∃ lead pieces, lead.all isMarkupBlank = true ∧ text = lead ++ spread pieces ∧
      Tokenized afterOperand pieces ∧ found = placed (position + Text.byteLength lead) pieces := by
  induction afterOperand, position, text using tokensFrom.induct generalizing found with
  | case1 afterOperand position =>
    rw [tokensFrom] at read
    cases read
    exact ⟨[], [], rfl, rfl, .nil, rfl⟩
  | case2 afterOperand position first rest blank ih =>
    rw [tokensFrom, if_pos blank] at read
    obtain ⟨lead, pieces, blanks, split, tokenized, places⟩ := ih read
    refine ⟨first :: lead, pieces, by simp [blank, blanks], by rw [split]; rfl, tokenized, ?_⟩
    rw [places, Text.byteLength_cons, utf8Size_of_isMarkupBlank blank, Nat.add_assoc]
  | case3 afterOperand position first rest solid ih =>
    cases scanned : scan afterOperand position first rest with
    | error fault =>
      rw [tokensFrom, if_neg solid, scanned] at read
      cases read
    | ok given =>
      obtain ⟨token, length⟩ := given
      obtain ⟨chars, tail, split, rfl, front⟩ := beginsWith_of_scan scanned
      rw [split, tokensFrom_scanned front] at read
      obtain ⟨c, more, rfl, -⟩ := front.opens
      rw [List.cons_append] at split
      obtain ⟨rfl, rfl⟩ := List.cons.inj split
      cases later : tokensFrom token.endsOperand (position + Text.byteLength (first :: more))
          tail with
      | error fault =>
        rw [later] at read
        cases read
      | ok others =>
        rw [later] at read
        have onward := @ih token (first :: more).length others
        simp only [List.length_cons, Nat.add_sub_cancel, List.take_left, List.drop_left] at onward
        obtain ⟨gap, pieces, blanks, rfl, tokenized, rfl⟩ := onward later
        refine ⟨[], ⟨token, first :: more, gap⟩ :: pieces, rfl, by simp,
          .cons front blanks tokenized, ?_⟩
        rw [placed, Text.byteLength_append, ← Nat.add_assoc]
        exact (Except.ok.inj read).symm

/-- Each token of an expression stands at its place as it is spelled, and only blanks stand before,
between and behind the tokens. Other blanks change no token, only the places, as long as there are
some between any two tokens. But if a reference ends with a colon where two more follow, then there
are no tokens with other blanks. -/
theorem tokens_spacing {text : String} (read : tokens text = .ok found) :
    (found.map (·.2)).Pairwise (· < ·) ∧
    ∃ lead pieces, lead.all isMarkupBlank = true ∧ text.toList = lead ++ spread pieces ∧
      found = placed (Text.byteLength lead) pieces ∧
      (∀ piece ∈ pieces, piece.token.Spells piece.text ∧ piece.gap.all isMarkupBlank = true) ∧
      ∀ lead' pieces', lead'.all isMarkupBlank = true → Respaced pieces pieces' →
        if found.any (·.1.isCut) then
          ∃ fault, tokens (.ofList (lead' ++ spread pieces')) = .error fault
        else tokens (.ofList (lead' ++ spread pieces')) =
          .ok (placed (Text.byteLength lead') pieces') := by
  obtain ⟨lead, pieces, blanks, split, tokenized, rfl⟩ := exists_tokenized read
  rw [Nat.zero_add] at *
  refine ⟨tokenized.placed_increasing, lead, pieces, blanks, split, rfl, tokenized.spells,
    fun lead' pieces' blanks' moved => ?_⟩
  rw [tokens, String.toList_ofList, tokensFrom_blanks blanks']
  rw [any_placed]
  split
  · rename_i cut
    exact tokenized.respaced_cut moved (by simpa using cut)
  · rename_i complete
    rw [(tokenized.respaced moved (by simpa using complete)).tokensFrom_eq, Nat.zero_add]

/-- The pieces of an asterisk between two names, with blanks around it. -/
def productPieces (gap gap' : List Char) : List Piece :=
  [⟨.name (.exactly ⟨none, "a"⟩), ['a'], gap⟩, ⟨.operator .multiply, ['*'], gap'⟩,
    ⟨.name (.exactly ⟨none, "b"⟩), ['b'], []⟩]

/-- An asterisk between two names multiplies, whatever blanks stand around it. -/
theorem tokens_spacing_product :
    tokens "a*b" = .ok (placed 0 (productPieces [] [])) ∧
    ∀ gap gap', gap.all isMarkupBlank = true → gap'.all isMarkupBlank = true → gap ≠ [] →
      gap' ≠ [] → tokens (.ofList (spread (productPieces gap gap'))) =
        .ok (placed 0 (productPieces gap gap')) := by
  have read : tokens "a*b" = .ok (placed 0 (productPieces [] [])) := by cbv
  refine ⟨read, fun gap gap' blank blank' apart apart' => ?_⟩
  obtain ⟨-, lead, pieces, -, -, places, spelled, others⟩ := tokens_spacing read
  have tokens : pieces.map (·.token) = (productPieces [] []).map (·.token) := by
    rw [← map_placed pieces, ← places, map_placed]
  obtain ⟨⟨_, text, _⟩, _, rfl, rfl, later⟩ := List.map_eq_cons_iff.mp tokens
  obtain ⟨⟨_, text', _⟩, _, rfl, rfl, last⟩ := List.map_eq_cons_iff.mp later
  obtain ⟨⟨_, text'', _⟩, _, rfl, rfl, none⟩ := List.map_eq_cons_iff.mp last
  obtain rfl := List.map_eq_nil_iff.mp none
  simp only [List.forall_mem_cons] at spelled
  obtain ⟨⟨⟨⟩, -⟩, ⟨⟨⟩, -⟩, ⟨⟨⟩, -⟩, -⟩ := spelled
  exact others [] (productPieces gap gap') rfl
    (.cons blank (fun _ => apart) (.cons blank' (fun _ => apart')
      (.cons rfl (fun none => absurd rfl none) .nil)))

/-- The pieces of a reference that ends with a colon, of an axis mark and of a name, with blanks
between them. -/
def cutPieces (gap : List Char) : List Piece :=
  [⟨.reference ⟨some "a", ""⟩, ['$', 'a', ':'], gap⟩, ⟨.symbol .doubleColon, [':', ':'], gap⟩,
    ⟨.name (.exactly ⟨none, "b"⟩), ['b'], []⟩]

/-- A reference that ends with a colon is read before an axis mark. With blanks around the mark
nothing is read. -/
theorem tokens_spacing_cut :
    tokens "$a:::b" = .ok (placed 0 (cutPieces [])) ∧
    Respaced (cutPieces []) (cutPieces [' ']) ∧ spread (cutPieces [' ']) = "$a: :: b".toList ∧
    tokens "$a: :: b" = .error (.badSyntax .doubleColonMissing 2) := by
  refine ⟨by cbv, ?_, rfl, by cbv⟩
  exact .cons rfl (fun _ => by simp) (.cons rfl (fun _ => by simp)
    (.cons rfl (fun none => absurd rfl none) .nil))

end Markup.XPath
