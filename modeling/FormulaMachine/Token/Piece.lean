import FormulaMachine.Token.Basic
import FormulaMachine.Text.Numeral
import FormulaMachine.Text.Blank
import FormulaMachine.Decimal.Literal

/-!
# The piece at the front of a text

A formula is cut into pieces: tokens, line breaks, and what is skipped, which is white space and
comments. Every piece is the longest of its sort. What a piece is does not depend on what came
before it; only the meaning of a line break does, and that is left to the scanner.

* `Piece.text_front?`: the piece's text and the rest make up the text.
* `Piece.length_front?`: the rest is shorter.
-/

namespace FormulaMachine

open Text Decimal

/-- A piece of a formula. -/
inductive Piece where
  /-- a token, with its text -/
  | token (kind : TokenKind) (text : List Char)
  /-- a line feed -/
  | lineBreak
  /-- white space or a comment -/
  | skipped (text : List Char)

namespace Piece

def text : Piece → List Char
  | token _ text => text
  | lineBreak => ['\n']
  | skipped text => text

def isIdentifierChar (c : Char) : Bool := isAlphanumeric c || c == '_'

def isIdentifierStart (c : Char) : Bool := isLetter c || c == '_'

/-- Whether `c` stands inside a comment, which goes on to the end of its line. -/
def isCommentChar (c : Char) : Bool := c != '\n'

/-- Whether a number starts with `c` when `cs` follows: at a digit, or at a point before one. -/
def startsNumber (c : Char) (cs : List Char) : Bool :=
  c.isDigit || (c == '.' && cs.head?.any Char.isDigit)

/-- The piece at the front of `c :: cs`, and the rest; nothing if no piece starts with `c`. -/
def front? (c : Char) (cs : List Char) : Option (Piece × List Char) :=
  if c = '\n' then some (lineBreak, cs)
  else if isBlank c then some (skipped [c], cs)
  else if c = '#' then some (skipped (c :: cs.takeWhile isCommentChar), cs.dropWhile isCommentChar)
  else if startsNumber c cs then
    let (literal, rest) := Literal.scan (c :: cs)
    some (token (.number literal.value) literal.text, rest)
  else if isIdentifierStart c then
    let name := c :: cs.takeWhile isIdentifierChar
    some (token (.identifier (String.ofList name)) name, cs.dropWhile isIdentifierChar)
  else (TokenKind.ofMark? c).map fun kind => (token kind [c], cs)

/-- A piece and the rest make up the text. -/
theorem text_front? {c : Char} {cs rest : List Char} {piece : Piece}
    (h : front? c cs = some (piece, rest)) : piece.text ++ rest = c :: cs := by
  -- one case for each test that the scanner makes, in its order
  unfold front? at h
  split at h
  · next hc => cases h; simp [text, hc]
  split at h
  · cases h; rfl
  split at h
  · cases h
    simp only [text, List.cons_append, List.takeWhile_append_dropWhile]
  split at h
  · cases h
    exact Literal.text_scan (c :: cs)
  split at h
  · cases h
    simp only [text, List.cons_append, List.takeWhile_append_dropWhile]
  · obtain ⟨kind, _, h⟩ := Option.map_eq_some_iff.1 h
    cases h
    rfl

/-- The literal read where a number starts is not empty. -/
theorem text_scan_ne_nil {c : Char} {cs : List Char} (h : startsNumber c cs = true) :
    (Literal.scan (c :: cs)).1.text ≠ [] := by
  -- what is before the point is read first, then the point and what is behind it
  have key : (Literal.scan (c :: cs)).1.whole = leadingDigits (c :: cs) ∧
      (Literal.scan (c :: cs)).1.fraction = (scanFraction (afterDigits (c :: cs))).1 := by
    simp only [Literal.scan]
    split <;> exact ⟨rfl, rfl⟩
  by_cases hd : c.isDigit = true
  · intro empty
    have : (Literal.scan (c :: cs)).1.whole = [] := by
      simp only [Literal.text, List.append_eq_nil_iff] at empty
      exact empty.1.1
    simp [key.1, leadingDigits, hd] at this
  · have hp : c = '.' := by
      simp only [startsNumber, hd, Bool.false_or, Bool.and_eq_true, beq_iff_eq] at h
      exact h.1
    intro empty
    have : fractionText (Literal.scan (c :: cs)).1.fraction = [] := by
      simp only [Literal.text, List.append_eq_nil_iff] at empty
      exact empty.1.2
    subst hp
    simp [key.2, afterDigits, scanFraction, fractionText] at this

/-- Every piece has a character at least. -/
theorem text_ne_nil_of_front? {c : Char} {cs rest : List Char} {piece : Piece}
    (h : front? c cs = some (piece, rest)) : piece.text ≠ [] := by
  unfold front? at h
  split at h
  · cases h; simp [text]
  split at h
  · cases h; simp [text]
  split at h
  · cases h; simp [text]
  split at h
  · next hn => cases h; exact text_scan_ne_nil hn
  split at h
  · cases h; simp [text]
  · obtain ⟨kind, _, h⟩ := Option.map_eq_some_iff.1 h
    cases h
    simp [text]

/-- What is left behind a piece is shorter, so reading comes to an end. -/
theorem length_front? {c : Char} {cs rest : List Char} {piece : Piece}
    (h : front? c cs = some (piece, rest)) : rest.length < (c :: cs).length := by
  have nonempty := List.length_pos_iff.2 (text_ne_nil_of_front? h)
  have whole := congrArg List.length (text_front? h)
  rw [List.length_append] at whole
  omega

end Piece

end FormulaMachine
