import FormulaMachine.Proofs.Token.Reading

/-!
# Reading past a line break

A line break continues no piece. So the pieces of a text stay what they are when a line break and
more text are put behind it, and its tokens are followed by those of the rest. What the rest is read
as depends on the text before it only through the number of parentheses left open.

* **`Piece.front?_lineBreak`**: the piece at the front, with a line break behind the text.
* **`Reads.append`**: the tokens of a text, a line break, and another text.
-/

namespace FormulaMachine

open Text Decimal

variable (more : List Char)

/-- What is taken while `p` holds ends at the line break at the latest, if `p` does not hold there.
-/
theorem takeWhile_dropWhile_lineBreak {p : Char → Bool} (hp : p '\n' = false) (cs : List Char) :
    (cs ++ '\n' :: more).takeWhile p = cs.takeWhile p ∧
      (cs ++ '\n' :: more).dropWhile p = cs.dropWhile p ++ '\n' :: more := by
  induction cs with
  | nil => simp [hp]
  | cons c cs ih =>
    by_cases hc : p c = true
    · simp [hc, ih]
    · simp [hc]

/-! ## Literals -/

namespace Decimal

/-- A line break is no digit. -/
theorem digits_lineBreak (cs : List Char) :
    leadingDigits (cs ++ '\n' :: more) = leadingDigits cs ∧
      afterDigits (cs ++ '\n' :: more) = afterDigits cs ++ '\n' :: more :=
  takeWhile_dropWhile_lineBreak more (by decide) cs

/-- A line break is no point, and the digits behind a point end there. -/
theorem scanFraction_lineBreak (cs : List Char) :
    scanFraction (cs ++ '\n' :: more) =
      ((scanFraction cs).1, (scanFraction cs).2 ++ '\n' :: more) := by
  by_cases hpoint : ∃ rest, cs = '.' :: rest
  · obtain ⟨rest, rfl⟩ := hpoint
    have hdigits := digits_lineBreak more rest
    show (some (leadingDigits (rest ++ '\n' :: more)), afterDigits (rest ++ '\n' :: more)) = _
    rw [hdigits.1, hdigits.2]
    rfl
  -- without a point at the front there is no fraction, in either text
  · have hnone {ds : List Char} (hds : ∀ rest, ds ≠ '.' :: rest) :
        scanFraction ds = (none, ds) := by
      unfold scanFraction
      split
      · next rest => exact absurd rfl (hds rest)
      · rfl
    have hfront : ∀ rest, cs ++ '\n' :: more ≠ '.' :: rest := by
      intro rest h
      cases cs with
      | nil => exact absurd (List.cons.inj h).1 (by decide)
      | cons c cs =>
        obtain ⟨rfl, -⟩ := List.cons.inj h
        exact hpoint ⟨cs, rfl⟩
    rw [hnone hfront, hnone fun rest h => hpoint ⟨rest, h⟩]

/-- A line break is no sign. -/
theorem Exponent.splitSign_lineBreak (cs : List Char) :
    splitSign (cs ++ '\n' :: more) = ((splitSign cs).1, (splitSign cs).2 ++ '\n' :: more) := by
  cases cs with
  | nil => rfl
  | cons c cs =>
    by_cases hplus : c = '+'
    · subst hplus
      rfl
    by_cases hminus : c = '-'
    · subst hminus
      rfl
    · simp [splitSign, hplus, hminus]

/-- Whether an exponent stands at the front, and which, is decided before the line break. -/
theorem Exponent.scan?_lineBreak (cs : List Char) :
    scan? (cs ++ '\n' :: more) =
      (scan? cs).map fun found => (found.1, found.2 ++ '\n' :: more) := by
  cases cs with
  | nil =>
    have hmarker : ¬ ('\n' = 'e' ∨ '\n' = 'E') := by decide
    simp only [List.nil_append, scan?]
    rw [if_neg fun h => hmarker h.1]
    rfl
  | cons m cs =>
    have hdigits := digits_lineBreak more (splitSign cs).2
    simp only [List.cons_append, scan?, splitSign_lineBreak, hdigits.1, hdigits.2]
    split <;> rfl

/-- The literal at the front ends before the line break, as each of its parts does. -/
theorem Literal.scan_lineBreak (cs : List Char) :
    scan (cs ++ '\n' :: more) = ((scan cs).1, (scan cs).2 ++ '\n' :: more) := by
  have hdigits := digits_lineBreak more cs
  simp only [scan, hdigits.1, hdigits.2, scanFraction_lineBreak, Exponent.scan?_lineBreak]
  cases Exponent.scan? (scanFraction (afterDigits cs)).2 <;> rfl

end Decimal

/-! ## Pieces -/

namespace Piece

/-- A point in front of a line break begins no number, just as one at the end of a text. -/
theorem startsNumber_lineBreak (c : Char) (cs : List Char) :
    startsNumber c (cs ++ '\n' :: more) = startsNumber c cs := by
  cases cs with
  | nil =>
    have hdigit : Char.isDigit '\n' = false := by decide
    simp [startsNumber, hdigit]
  | cons d cs => rfl

/-- The piece at the front of a text is the same with a line break behind the text, and what is left
of the text has the line break behind it. -/
theorem front?_lineBreak (c : Char) (cs : List Char) :
    front? c (cs ++ '\n' :: more) =
      (front? c cs).map fun found => (found.1, found.2 ++ '\n' :: more) := by
  have hcomment := takeWhile_dropWhile_lineBreak more (p := isCommentChar) (by decide) cs
  have hname := takeWhile_dropWhile_lineBreak more (p := isIdentifierChar) (by decide) cs
  have hliteral := Literal.scan_lineBreak more (c :: cs)
  rw [List.cons_append] at hliteral
  unfold front?
  rw [startsNumber_lineBreak, hcomment.1, hcomment.2, hname.1, hname.2, hliteral]
  -- the same case applies to both texts
  split
  · rfl
  split
  · rfl
  split
  · rfl
  split
  · rfl
  split
  · rfl
  · rw [Option.map_map]
    rfl

end Piece

/-! ## Texts -/

/-- A text, a line break, and what can be read behind it with the parentheses open that the text
leaves open: the tokens follow each other. By induction on the length of the text. -/
theorem Reads.append {depth : Nat} {cs : List Char} {kinds others : List TokenKind}
    (h : Reads depth cs kinds)
    (hmore : Reads (kinds.foldl TokenKind.depthAfter depth) ('\n' :: more) others) :
    Reads depth (cs ++ '\n' :: more) (kinds ++ others) := by
  induction hn : cs.length using Nat.strong_induction_on generalizing depth cs kinds with
  | _ n ih =>
    obtain ⟨stream, hscan, rfl⟩ := h .start
    cases cs with
    | nil =>
      rw [TokenStream.scanFrom_nil] at hscan
      cases hscan
      exact hmore
    | cons c cs =>
      obtain ⟨piece, rest, inner, hfront, hrest, rfl⟩ := TokenStream.exists_of_scanFrom_cons hscan
      have hshorter : rest.length < n := hn ▸ Piece.length_front? hfront
      have hinner := TokenStream.reads_of_scanFrom rest hrest
      -- the first piece is the same, and the induction hypothesis is for what is left behind it
      have hjoined : Piece.front? c (cs ++ '\n' :: more) = some (piece, rest ++ '\n' :: more) := by
        rw [Piece.front?_lineBreak, hfront]
        rfl
      rw [TokenStream.kinds_prepend] at hmore ⊢
      rw [List.foldl_append, ← Piece.depthAfter_eq_foldl] at hmore
      rw [List.append_assoc]
      exact (ih _ hshorter hinner hmore rfl).front hjoined

end FormulaMachine
