import FormulaMachine.Proofs.Decimal.Spelling
import FormulaMachine.Token.Scan

/-!
# Reading a text token by token

The scanner takes the longest piece at the front of a text, so it stops between two pieces only
where the second does not continue the first. Behind an identifier or a plain literal that is a matter of
one character.

* `isIdentifier`: a letter or `_`, and letters, digits and `_` behind it.
* `Literal.IsPlain`: digits, perhaps with a point among them or behind them, and no exponent.
* `Delimited`: what comes next continues neither.
* **`Reads`**: the kinds of the tokens of a text, wherever it starts; one lemma for each piece that
  can be in front.
* **`TokenStream.reads_of_scanFrom`**: what kinds of tokens a text has does not depend on its place.
-/

namespace FormulaMachine

open Text Decimal

/-- A letter or `_`, and letters, digits and `_` behind it. -/
def isIdentifier (name : String) : Bool :=
  match name.toList with
  | [] => false
  | c :: cs => Piece.isIdentifierStart c && cs.all Piece.isIdentifierChar

/-- At the front stands no character of an identifier and no point, or nothing. -/
def Delimited (cs : List Char) : Prop :=
  ∀ c ∈ cs.head?, Piece.isIdentifierChar c = false ∧ c ≠ '.'

theorem delimited_nil : Delimited [] := by simp [Delimited]

theorem delimited_cons {c : Char} {cs : List Char} (h : Piece.isIdentifierChar c = false)
    (hpoint : c ≠ '.') : Delimited (c :: cs) := by
  intro d hd
  obtain rfl : c = d := Option.some.inj hd
  exact ⟨h, hpoint⟩

/-- What stands behind the names and literals of a printed formula continues neither. -/
theorem delimited_of_mem {c : Char} (hc : c ∈ [' ', '(', ')', ',', '\n']) (cs : List Char) :
    Delimited (c :: cs) := by
  simp only [List.mem_cons, List.not_mem_nil, or_false] at hc
  obtain rfl | rfl | rfl | rfl | rfl := hc
  all_goals exact delimited_cons (by decide) (by decide)

/-! ## Classes of characters -/

/-- The digits are the characters from 48 to 57. -/
theorem toNat_of_isDigit {c : Char} (h : c.isDigit = true) : 48 ≤ c.toNat ∧ c.toNat ≤ 57 := by
  simp only [Char.isDigit, ge_iff_le, Bool.and_eq_true, decide_eq_true_eq,
    UInt32.le_iff_toNat_le] at h
  exact h

/-- A digit may stand in an identifier. -/
theorem isIdentifierChar_of_isDigit {c : Char} (h : c.isDigit = true) :
    Piece.isIdentifierChar c = true := by
  have hascii : c.toNat < 0x80 := by
    have hrange := toNat_of_isDigit h
    omega
  simp [Piece.isIdentifierChar, isAlphanumeric, isNumeral_of_ascii hascii, h]

/-- A digit is no white space. -/
theorem isBlank_eq_false_of_isDigit {c : Char} (h : c.isDigit = true) : isBlank c = false := by
  have hrange := toNat_of_isDigit h
  rw [isBlank, Bool.eq_false_iff, ne_eq, Ranges.contains_iff]
  rintro ⟨r, hr, hlow, hhigh⟩
  -- no interval of blanks meets that of the digits
  have hapart : ∀ r ∈ blankRanges, r.2 < 48 ∨ 57 < r.1 := by decide
  have hside := hapart r hr
  omega

/-- A digit does not begin an identifier. There are ten of them, and each is looked up in the table
of letters. -/
theorem isIdentifierStart_eq_false_of_isDigit {c : Char} (h : c.isDigit = true) :
    Piece.isIdentifierStart c = false := by
  have hrange := toNat_of_isDigit h
  have hdigits : ∀ n ∈ List.range' 48 10, Piece.isIdentifierStart (Char.ofNat n) = false := by
    decide
  rw [← Char.ofNat_toNat c]
  refine hdigits _ ?_
  rw [List.mem_range'_1]
  omega

/-- What may begin an identifier may stand in one. -/
theorem Piece.isIdentifierChar_of_isIdentifierStart {c : Char}
    (h : Piece.isIdentifierStart c = true) : Piece.isIdentifierChar c = true := by
  unfold Piece.isIdentifierStart at h
  unfold Piece.isIdentifierChar
  rcases Bool.or_eq_true_iff.1 h with hletter | hline
  · rw [isAlphanumeric_of_isLetter hletter, Bool.true_or]
  · rw [hline, Bool.or_true]

/-- White space is given by a table of intervals, and so is what an identifier consists of. The
tables do not meet. -/
theorem Piece.isIdentifierChar_eq_false_of_isBlank {c : Char} (h : isBlank c = true) :
    Piece.isIdentifierChar c = false := by
  have hblanks : ∀ r ∈ blankRanges, ∀ n ∈ List.range' r.1 (r.2 + 1 - r.1),
      Piece.isIdentifierChar (Char.ofNat n) = false := by
    decide +kernel
  obtain ⟨r, hr, hlow, hhigh⟩ := Ranges.contains_iff.1 h
  rw [← Char.ofNat_toNat c]
  refine hblanks r hr _ ?_
  rw [List.mem_range'_1]
  omega

/-- No mark may stand in an identifier. -/
theorem Piece.isIdentifierChar_eq_false_of_mark {c : Char} {kind : TokenKind}
    (h : TokenKind.ofMark? c = some kind) : Piece.isIdentifierChar c = false := by
  unfold TokenKind.ofMark? at h
  split at h <;> first | decide | cases h

/-- White space does not begin an identifier. -/
theorem isIdentifierStart_eq_false_of_isBlank {c : Char} (h : isBlank c = true) :
    Piece.isIdentifierStart c = false := by
  by_contra hstart
  have hchar := Piece.isIdentifierChar_of_isIdentifierStart (Bool.eq_true_of_not_eq_false hstart)
  rw [Piece.isIdentifierChar_eq_false_of_isBlank h] at hchar
  cases hchar

/-! ## Literals -/

/-- What continues no identifier continues no literal: it is no digit, no point, and neither `e` nor
`E`. -/
theorem Delimited.endsLiteral {cs : List Char} (h : Delimited cs) : EndsLiteral cs := by
  intro c hc
  obtain ⟨hchar, hpoint⟩ := h c hc
  refine ⟨Bool.eq_false_iff.2 fun hdigit => ?_, hpoint, ?_, ?_⟩
  · rw [isIdentifierChar_of_isDigit hdigit] at hchar
    cases hchar
  · rintro rfl
    exact absurd hchar (by decide)
  · rintro rfl
    exact absurd hchar (by decide)

/-- Digits, perhaps with a point and digits behind them. -/
structure Decimal.Literal.IsPlain (l : Literal) : Prop where
  nonempty : l.whole ≠ []
  whole : ∀ c ∈ l.whole, c.isDigit = true
  fraction : ∀ ds ∈ l.fraction, ∀ c ∈ ds, c.isDigit = true
  exponent : l.exponent = none

/-- A plain literal is a number as the grammar of numbers has it. -/
theorem Decimal.Literal.IsPlain.isNumber {l : Literal} (h : l.IsPlain) : IsNumber l.text := by
  obtain ⟨whole, fraction, exponent⟩ := l
  obtain ⟨hne, hwhole, hfraction, rfl⟩ := h
  cases fraction with
  | none =>
    have htext : Literal.text ⟨whole, none, none⟩ = whole ++ [] := by
      simp [Literal.text, fractionText]
    rw [htext]
    exact .whole hwhole hne .absent
  | some ds =>
    have htext : Literal.text ⟨whole, some ds, none⟩ = whole ++ '.' :: (ds ++ []) := by
      simp [Literal.text, fractionText]
    rw [htext]
    exact .pointed hwhole hne (hfraction ds rfl) .absent

/-- The text of a plain literal consists of digits where it has to. -/
theorem Decimal.Literal.IsPlain.isSpelled {l : Literal} (h : l.IsPlain) : l.IsSpelled :=
  ⟨h.whole, h.fraction, by simp [h.exponent]⟩

/-! ## Pieces -/

namespace Piece

/-- What starts a number is none of what is tried before numbers. -/
theorem front?_of_startsNumber {c : Char} {cs : List Char} (h : startsNumber c cs = true) :
    front? c cs = some (token (.number (Literal.scan (c :: cs)).1.value)
      (Literal.scan (c :: cs)).1.text, (Literal.scan (c :: cs)).2) := by
  -- a number starts with a digit or a point, and neither is a line break, a hash or a blank
  have hfirst : c.isDigit = true ∨ c = '.' := by
    simp only [startsNumber, Bool.or_eq_true, Bool.and_eq_true, beq_iff_eq] at h
    exact h.imp_right And.left
  have hbreak : c ≠ '\n' := by
    rintro rfl
    exact absurd hfirst (by decide)
  have hcomment : c ≠ '#' := by
    rintro rfl
    exact absurd hfirst (by decide)
  have hblank : isBlank c = false := by
    rcases hfirst with hdigit | rfl
    · exact isBlank_eq_false_of_isDigit hdigit
    · decide
  rw [front?, if_neg hbreak, hblank, if_neg Bool.false_ne_true, if_neg hcomment, if_pos h]

/-- A digit in front is enough for a number. -/
theorem front?_of_isDigit {c : Char} (h : c.isDigit = true) (cs : List Char) :
    front? c cs = some (token (.number (Literal.scan (c :: cs)).1.value)
      (Literal.scan (c :: cs)).1.text, (Literal.scan (c :: cs)).2) :=
  front?_of_startsNumber (by rw [startsNumber, h, Bool.true_or])

/-- What starts an identifier is none of what is tried before identifiers. -/
theorem front?_of_isIdentifierStart {c : Char} (h : isIdentifierStart c = true)
    (cs : List Char) :
    front? c cs = some (token (.identifier (String.ofList (c :: cs.takeWhile isIdentifierChar)))
      (c :: cs.takeWhile isIdentifierChar), cs.dropWhile isIdentifierChar) := by
  have hbreak : c ≠ '\n' := by
    rintro rfl
    exact absurd h (by decide)
  have hcomment : c ≠ '#' := by
    rintro rfl
    exact absurd h (by decide)
  have hpoint : c ≠ '.' := by
    rintro rfl
    exact absurd h (by decide)
  have hblank : isBlank c = false := by
    by_contra hblank
    rw [isIdentifierStart_eq_false_of_isBlank (Bool.eq_true_of_not_eq_false hblank)] at h
    cases h
  -- digits and the point start no identifier, so numbers have not been found either
  have hnumber : startsNumber c cs = false := by
    have hdigit : c.isDigit = false := by
      by_contra hdigit
      rw [isIdentifierStart_eq_false_of_isDigit (Bool.eq_true_of_not_eq_false hdigit)] at h
      cases h
    simp [startsNumber, hdigit, hpoint]
  rw [front?, if_neg hbreak, hblank, if_neg Bool.false_ne_true, if_neg hcomment, hnumber,
    if_neg Bool.false_ne_true, if_pos h]

/-- The marks are single characters, none of which starts anything else. -/
theorem front?_of_mark {c : Char} {kind : TokenKind} (h : TokenKind.ofMark? c = some kind)
    (cs : List Char) : front? c cs = some (token kind [c], cs) := by
  unfold TokenKind.ofMark? at h
  split at h
  all_goals cases h
  all_goals rfl

/-- What stands at the front of `c :: cs`, by the character that it starts with. -/
inductive AtFront (c : Char) (cs : List Char) : Piece → List Char → Prop where
  | lineBreak (hbreak : c = '\n') : AtFront c cs lineBreak cs
  | blank (hblank : isBlank c = true) (hne : c ≠ '\n') : AtFront c cs (skipped [c]) cs
  | comment (hcomment : c = '#') :
    AtFront c cs (skipped (c :: cs.takeWhile isCommentChar)) (cs.dropWhile isCommentChar)
  | number (hnumber : startsNumber c cs = true) :
    AtFront c cs (token (.number (Literal.scan (c :: cs)).1.value) (Literal.scan (c :: cs)).1.text)
      (Literal.scan (c :: cs)).2
  | identifier (hstart : isIdentifierStart c = true) :
    AtFront c cs (token (.identifier (String.ofList (c :: cs.takeWhile isIdentifierChar)))
      (c :: cs.takeWhile isIdentifierChar)) (cs.dropWhile isIdentifierChar)
  | mark {kind : TokenKind} (hmark : TokenKind.ofMark? c = some kind) :
    AtFront c cs (token kind [c]) cs

/-- The cases of the scanner in the order in which it tries them. -/
theorem atFront_of_front? {c : Char} {cs rest : List Char} {piece : Piece}
    (h : front? c cs = some (piece, rest)) : AtFront c cs piece rest := by
  unfold front? at h
  split at h
  · next hbreak => cases h; exact .lineBreak hbreak
  · next hbreak =>
    split at h
    · next hblank => cases h; exact .blank hblank hbreak
    split at h
    · next hcomment => cases h; exact .comment hcomment
    split at h
    · next hnumber => cases h; exact .number hnumber
    split at h
    · next hstart => cases h; exact .identifier hstart
    · obtain ⟨kind, hmark, h⟩ := Option.map_eq_some_iff.1 h
      cases h
      exact .mark hmark

/-- A number starts with a digit, or with a point and a digit. -/
theorem startsNumber_iff {c : Char} {cs : List Char} :
    startsNumber c cs = true ↔
      leadingDigits (c :: cs) ≠ [] ∨ ∃ d ds, c :: cs = '.' :: d :: ds ∧ d.isDigit = true := by
  -- with a digit in front the first side holds; without one there are no leading digits
  by_cases hdigit : c.isDigit = true
  · rw [(leadingDigits_cons hdigit cs).1]
    simp [startsNumber, hdigit]
  · rw [(leadingDigits_of_not_isDigit (Bool.eq_false_iff.2 hdigit) cs).1]
    cases cs <;> simp [startsNumber, hdigit]

/-- In front of this text, the text of the piece is read as the piece. -/
def ReadBefore (piece : Piece) (rest : List Char) : Prop :=
  ∃ c cs, piece.text ++ rest = c :: cs ∧ front? c cs = some (piece, rest)

/-- A number is read in front of what does not continue it: the scanner of literals stops there. -/
theorem readBefore_number {l : Literal} {rest : List Char} (hnumber : IsNumber l.text)
    (hscan : Literal.scan (l.text ++ rest) = (l, rest)) :
    (token (.number l.value) l.text).ReadBefore rest := by
  have hbegins := begins_append hnumber.begins rest
  -- the text of a number is not empty
  obtain ⟨c, cs, htext⟩ : ∃ c cs, l.text ++ rest = c :: cs := by
    refine List.exists_cons_of_ne_nil fun hnil => ?_
    rw [hnil] at hbegins
    simp [leadingDigits] at hbegins
  rw [htext] at hbegins hscan
  have hfront := front?_of_startsNumber (startsNumber_iff.2 hbegins)
  rw [hscan] at hfront
  exact ⟨c, cs, htext, hfront⟩

/-- An identifier is read in front of what does not continue it. -/
theorem readBefore_identifier {c : Char} {cs rest : List Char} (hstart : isIdentifierStart c = true)
    (hcs : ∀ d ∈ cs, isIdentifierChar d = true)
    (hrest : ∀ d ∈ rest.head?, isIdentifierChar d = false) :
    (token (.identifier (String.ofList (c :: cs))) (c :: cs)).ReadBefore rest := by
  obtain ⟨htake, hdrop⟩ := takeWhile_dropWhile_append hcs hrest
  have hfront := front?_of_isIdentifierStart hstart (cs ++ rest)
  rw [htake, hdrop] at hfront
  exact ⟨c, cs ++ rest, rfl, hfront⟩

/-- A comment is read in front of the end of its line, or of the text. -/
theorem readBefore_comment {cs rest : List Char} (hcs : ∀ d ∈ cs, isCommentChar d = true)
    (hrest : ∀ d ∈ rest.head?, isCommentChar d = false) :
    (skipped ('#' :: cs)).ReadBefore rest := by
  obtain ⟨htake, hdrop⟩ := takeWhile_dropWhile_append hcs hrest
  have hfront : front? '#' (cs ++ rest) = some (skipped ('#' :: (cs ++ rest).takeWhile isCommentChar),
      (cs ++ rest).dropWhile isCommentChar) := rfl
  rw [htake, hdrop] at hfront
  exact ⟨'#', cs ++ rest, rfl, hfront⟩

theorem readBefore_blank {c : Char} (hblank : isBlank c = true) (hne : c ≠ '\n')
    (rest : List Char) : (skipped [c]).ReadBefore rest :=
  ⟨c, rest, rfl, by rw [front?, if_neg hne, if_pos hblank]⟩

theorem readBefore_mark {c : Char} {kind : TokenKind} (h : TokenKind.ofMark? c = some kind)
    (rest : List Char) : (token kind [c]).ReadBefore rest :=
  ⟨c, rest, rfl, front?_of_mark h rest⟩

theorem readBefore_lineBreak (rest : List Char) : lineBreak.ReadBefore rest :=
  ⟨'\n', rest, rfl, rfl⟩

/-- The kind of the token that the piece stands for with `depth` parentheses open. -/
def kind? (depth : Nat) : Piece → Option TokenKind
  | token kind _ => some kind
  | lineBreak => if depth = 0 then some .terminator else none
  | skipped _ => none

/-- The kind of the token is told without its place. -/
theorem kind_token? (position : Position) (depth : Nat) (piece : Piece) :
    (piece.token? position depth).map Token.kind = piece.kind? depth := by
  cases piece with
  | token | skipped => rfl
  | lineBreak =>
    rw [token?, kind?]
    split <;> rfl

/-- The count of open parentheses, by the token that the piece stands for. -/
theorem depthAfter_eq_foldl (depth : Nat) (piece : Piece) :
    piece.depthAfter depth = (piece.kind? depth).toList.foldl TokenKind.depthAfter depth := by
  cases piece with
  | token kind text => rfl
  | skipped text => rfl
  | lineBreak =>
    unfold kind?
    by_cases hdepth : depth = 0
    · rw [if_pos hdepth]
      rfl
    · rw [if_neg hdepth]
      rfl

end Piece

namespace TokenStream

/-- A text with a piece in front is scanned from behind the piece, and its token comes first. -/
theorem scanFrom_of_readBefore {piece : Piece} {rest : List Char} (h : piece.ReadBefore rest)
    (position : Position) (depth : Nat) :
    scanFrom position depth (piece.text ++ rest) =
      (scanFrom (position.after piece.text) (piece.depthAfter depth) rest).map
        (prepend (piece.token? position depth)) := by
  obtain ⟨c, cs, htext, hfront⟩ := h
  rw [htext, scanFrom_of_front? hfront]

/-- The kind of the token in front comes first. -/
theorem kinds_prepend (position : Position) (depth : Nat) (piece : Piece) (stream : TokenStream) :
    (stream.prepend (piece.token? position depth)).tokens.map Token.kind =
      (piece.kind? depth).toList ++ stream.tokens.map Token.kind := by
  rw [prepend, List.map_append, ← Piece.kind_token? position depth piece]
  cases piece.token? position depth <;> rfl

/-- A text that is read has a piece at its front, and behind it a text that is read. -/
theorem exists_of_scanFrom_cons {position : Position} {depth : Nat} {c : Char} {cs : List Char}
    {stream : TokenStream} (h : scanFrom position depth (c :: cs) = .ok stream) :
    ∃ piece rest inner, Piece.front? c cs = some (piece, rest) ∧
      scanFrom (position.after piece.text) (piece.depthAfter depth) rest = .ok inner ∧
      stream = inner.prepend (piece.token? position depth) := by
  cases hfront : Piece.front? c cs with
  | none =>
    rw [scanFrom_of_front?_eq_none hfront] at h
    cases h
  | some found =>
    obtain ⟨piece, rest⟩ := found
    rw [scanFrom_of_front? hfront] at h
    cases hrest : scanFrom (position.after piece.text) (piece.depthAfter depth) rest with
    | error stray => rw [hrest] at h; cases h
    | ok inner =>
      rw [hrest] at h
      cases h
      exact ⟨piece, rest, inner, rfl, hrest, rfl⟩

end TokenStream

/-! ## Texts -/

/-- Wherever the text starts, with `depth` parentheses open it is read as tokens of these kinds. -/
def Reads (depth : Nat) (cs : List Char) (kinds : List TokenKind) : Prop :=
  ∀ position, ∃ stream, TokenStream.scanFrom position depth cs = .ok stream ∧
    stream.tokens.map Token.kind = kinds

namespace Reads

variable {depth : Nat} {rest : List Char} {kinds : List TokenKind}

theorem nil (depth : Nat) : Reads depth [] [] := fun position =>
  ⟨⟨[], position⟩, TokenStream.scanFrom_nil position depth, rfl⟩

/-- A piece in front of a text that is read. -/
theorem front {c : Char} {cs : List Char} {piece : Piece}
    (hfront : Piece.front? c cs = some (piece, rest))
    (h : Reads (piece.depthAfter depth) rest kinds) :
    Reads depth (c :: cs) ((piece.kind? depth).toList ++ kinds) := by
  intro position
  obtain ⟨stream, hscan, hkinds⟩ := h (position.after piece.text)
  refine ⟨stream.prepend (piece.token? position depth), ?_, ?_⟩
  · rw [TokenStream.scanFrom_of_front? hfront, hscan]
    rfl
  · rw [TokenStream.kinds_prepend, hkinds]

/-- A piece that is read before a text that is read. -/
theorem of_readBefore {piece : Piece} (hread : piece.ReadBefore rest)
    (h : Reads (piece.depthAfter depth) rest kinds) :
    Reads depth (piece.text ++ rest) ((piece.kind? depth).toList ++ kinds) := by
  obtain ⟨c, cs, htext, hfront⟩ := hread
  rw [htext]
  exact front hfront h

/-- A mark in front. A parenthesis changes how many are open. -/
theorem mark {c : Char} {kind : TokenKind} (hmark : TokenKind.ofMark? c = some kind)
    (h : Reads (kind.depthAfter depth) rest kinds) : Reads depth (c :: rest) (kind :: kinds) :=
  front (Piece.front?_of_mark hmark rest) h

theorem openParen (h : Reads (depth + 1) rest kinds) :
    Reads depth ('(' :: rest) (.openParen :: kinds) := mark rfl h

/-- The parenthesis that closes one of those open. -/
theorem closeParen (h : Reads depth rest kinds) :
    Reads (depth + 1) (')' :: rest) (.closeParen :: kinds) := mark rfl h

theorem space (h : Reads depth rest kinds) : Reads depth (' ' :: rest) kinds :=
  have hfront : Piece.front? ' ' rest = some (.skipped [' '], rest) := rfl
  front hfront h

/-- A line break outside parentheses. -/
theorem lineBreak (h : Reads 0 rest kinds) : Reads 0 ('\n' :: rest) (.terminator :: kinds) :=
  have hfront : Piece.front? '\n' rest = some (.lineBreak, rest) := rfl
  front hfront h

/-- A plain literal in front of what does not continue it. -/
theorem literal {l : Literal} (hl : l.IsPlain) (hrest : Delimited rest)
    (h : Reads depth rest kinds) : Reads depth (l.text ++ rest) (.number l.value :: kinds) := by
  have hscan := Literal.scan_append hl.isSpelled hrest.endsLiteral
  exact of_readBefore (Piece.readBefore_number hl.isNumber hscan) h

/-- A name in front of what does not continue it. -/
theorem identifier {name : String} (hname : isIdentifier name = true) (hrest : Delimited rest)
    (h : Reads depth rest kinds) :
    Reads depth (name.toList ++ rest) (.identifier name :: kinds) := by
  rw [isIdentifier] at hname
  split at hname
  · cases hname
  · next c cs hchars =>
    -- the name is its first character and characters that the scanner takes with it
    obtain ⟨hstart, hcs⟩ := Bool.and_eq_true_iff.1 hname
    have hread := Piece.readBefore_identifier hstart (List.all_eq_true.1 hcs)
      fun d hd => (hrest d hd).1
    rw [← hchars, String.ofList_toList] at hread
    exact of_readBefore hread h

theorem scan {source : String} (h : Reads 0 source.toList kinds) :
    ∃ stream, TokenStream.scan source = .ok stream ∧ stream.tokens.map Token.kind = kinds :=
  h .start

end Reads

/-- What kinds of tokens a text has does not depend on where it starts. By induction on its
length. -/
theorem TokenStream.reads_of_scanFrom {position : Position} {depth : Nat} (cs : List Char)
    {stream : TokenStream} (h : scanFrom position depth cs = .ok stream) :
    Reads depth cs (stream.tokens.map Token.kind) := by
  induction hn : cs.length using Nat.strong_induction_on generalizing position depth cs stream with
  | _ n ih =>
    cases cs with
    | nil =>
      rw [scanFrom_nil] at h
      cases h
      exact .nil depth
    | cons c cs =>
      obtain ⟨piece, rest, inner, hfront, hrest, rfl⟩ := exists_of_scanFrom_cons h
      -- the piece in front is not empty
      have hshorter : rest.length < n := hn ▸ Piece.length_front? hfront
      have hinner := ih _ hshorter rest hrest rfl
      rw [kinds_prepend]
      exact hinner.front hfront

end FormulaMachine
