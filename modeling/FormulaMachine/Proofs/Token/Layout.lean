import FormulaMachine.Proofs.Token.Reading

/-!
# Tokens with single blanks between them

The texts of the tokens of a formula, with a blank between any two of them, are read as the same
tokens. Nothing else of a text is needed: neither blanks and comments, nor the line breaks inside
parentheses. A line break outside of them is the text of a terminator, and it is one again, since
the parentheses around it are still there.

* **`Piece.ReadBefore.delimited`**: a token is read as it stands in front of what continues none.
* `TokenStream.respelled`: the text with single blanks.
* **`TokenStream.exists_scan_respelled`**: what is read of it.
-/

namespace FormulaMachine

open Text Decimal

namespace Piece

/-- A piece that is not skipped, in front of something else. -/
theorem ReadBefore.delimited {piece : Piece} {rest rest' : List Char} (h : piece.ReadBefore rest)
    (htoken : ∀ text, piece ≠ skipped text) (hrest : Delimited rest') :
    piece.ReadBefore rest' := by
  obtain ⟨c, cs, -, hfront⟩ := h
  -- marks and line breaks are read as they stand; numbers and names need that what follows does not
  -- continue them
  cases atFront_of_front? hfront with
  | lineBreak hbreak => exact readBefore_lineBreak rest'
  | blank hblank hne => exact absurd rfl (htoken _)
  | comment hcomment => exact absurd rfl (htoken _)
  | number hnumber =>
    exact readBefore_number (Literal.isNumber_scan (startsNumber_iff.1 hnumber))
      (Literal.scan_append (Literal.isSpelled_scan _) hrest.endsLiteral)
  | identifier hstart =>
    exact readBefore_identifier hstart (fun d hd => List.mem_takeWhile_imp hd)
      fun d hd => (hrest d hd).1
  | mark hmark => exact readBefore_mark hmark rest'

/-- A piece that gives a token is not one that is skipped. -/
theorem ne_skipped_of_token? {piece : Piece} {position : Position} {depth : Nat} {t : Token}
    (h : piece.token? position depth = some t) (text : List Char) : piece ≠ skipped text := by
  rintro rfl
  cases h

/-- The text of a token is that of its piece, also for the terminator that a line break gives. -/
theorem lexeme_of_token? {piece : Piece} {position : Position} {depth : Nat} {t : Token}
    (h : piece.token? position depth = some t) : t.lexeme.toList = piece.text := by
  cases piece with
  | token kind text =>
    obtain rfl := Option.some.inj h
    exact String.toList_ofList
  | lineBreak =>
    by_cases hdepth : depth = 0
    · rw [token?, if_pos hdepth] at h
      obtain rfl := Option.some.inj h
      exact (by decide : "\n".toList = ['\n'])
    · rw [token?, if_neg hdepth] at h
      cases h
  | skipped text => cases h

/-- What is no token leaves the parentheses as they are. -/
theorem depthAfter_of_token?_eq_none {piece : Piece} {position : Position} {depth : Nat}
    (h : piece.token? position depth = none) : piece.depthAfter depth = depth := by
  rw [depthAfter_eq_foldl, ← kind_token? position, h]
  rfl

end Piece

/-- A token without its place. -/
def Token.contents (t : Token) : TokenKind × String := (t.kind, t.lexeme)

/-- What token a piece gives, apart from its place, does not depend on where the piece stands. -/
theorem Piece.contents_token? (p q : Position) (depth : Nat) (piece : Piece) :
    (piece.token? p depth).map Token.contents = (piece.token? q depth).map Token.contents := by
  cases piece with
  | token kind text => rfl
  | lineBreak => by_cases hdepth : depth = 0 <;> simp [token?, hdepth, Token.contents]
  | skipped text => rfl

namespace TokenStream

/-- The tokens without their places. -/
def contents (stream : TokenStream) : List (TokenKind × String) :=
  stream.tokens.map Token.contents

/-- The texts of the tokens with single blanks between them. -/
def respelled (stream : TokenStream) : String :=
  " ".intercalate (stream.tokens.map Token.lexeme)

theorem contents_prepend (token? : Option Token) (stream : TokenStream) :
    (stream.prepend token?).contents = (token?.map Token.contents).toList ++ stream.contents := by
  cases token? <;> rfl

/-- A blank moves the place on by one and gives no token. -/
theorem scanFrom_space (position : Position) (depth : Nat) (cs : List Char) :
    scanFrom position depth (' ' :: cs) = scanFrom (position.next ' ') depth cs := by
  have hfront : Piece.front? ' ' cs = some (.skipped [' '], cs) := rfl
  rw [scanFrom_of_front? hfront]
  show (scanFrom (position.next ' ') depth cs).map (prepend none) = _
  cases scanFrom (position.next ' ') depth cs <;> rfl

/-- The text behind the first token. -/
def afterFirst (stream : TokenStream) : List Char :=
  if stream.tokens = [] then [] else ' ' :: stream.respelled.toList

/-- With single blanks the text begins with that of the first token. -/
theorem toList_respelled_prepend (t : Token) (stream : TokenStream) :
    (stream.prepend (some t)).respelled.toList = t.lexeme.toList ++ stream.afterFirst := by
  obtain ⟨tokens, finish⟩ := stream
  cases tokens with
  | nil => simp [respelled, prepend, afterFirst]
  | cons u us => simp [respelled, prepend, afterFirst, String.intercalate_cons_cons]

/-- What stands behind the first token is nothing or begins with a blank, so it continues no token.
-/
theorem delimited_afterFirst (stream : TokenStream) : Delimited stream.afterFirst := by
  unfold afterFirst
  split
  · exact delimited_nil
  · exact delimited_of_mem (by simp) _

/-- With single blanks, by induction on the length of the text. -/
theorem exists_scanFrom_respelled {position : Position} {depth : Nat} (cs : List Char)
    {stream : TokenStream} (h : scanFrom position depth cs = .ok stream) (start : Position) :
    ∃ again, scanFrom start depth stream.respelled.toList = .ok again ∧
      again.contents = stream.contents := by
  induction hn : cs.length using Nat.strong_induction_on
    generalizing position depth cs stream start with
  | _ n ih =>
    cases cs with
    | nil =>
      rw [scanFrom_nil] at h
      cases h
      exact ⟨⟨[], start⟩, scanFrom_nil start depth, rfl⟩
    | cons c cs =>
      obtain ⟨piece, rest, inner, hfront, hrest, rfl⟩ := exists_of_scanFrom_cons h
      have hshorter : rest.length < n := hn ▸ Piece.length_front? hfront
      cases htoken : piece.token? position depth with
      | none =>
        -- a piece without a token leaves no trace in the text with single blanks
        rw [Piece.depthAfter_of_token?_eq_none htoken] at hrest
        exact ih _ hshorter rest hrest start rfl
      | some t =>
        have hread : piece.ReadBefore inner.afterFirst :=
          Piece.ReadBefore.delimited ⟨c, cs, Piece.text_front? hfront, hfront⟩
            (Piece.ne_skipped_of_token? htoken) inner.delimited_afterFirst
        -- what stands behind the token is nothing, or a blank and the other tokens
        obtain ⟨again, hagain, hcontents⟩ : ∃ again,
            scanFrom (start.after piece.text) (piece.depthAfter depth) inner.afterFirst =
              .ok again ∧ again.contents = inner.contents := by
          unfold afterFirst
          split
          · next hnil => exact ⟨⟨[], _⟩, scanFrom_nil .., by simp [contents, hnil]⟩
          · rw [scanFrom_space]
            exact ih _ hshorter rest hrest _ rfl
        refine ⟨again.prepend (piece.token? start depth), ?_, ?_⟩
        · rw [toList_respelled_prepend, Piece.lexeme_of_token? htoken,
            scanFrom_of_readBefore hread, hagain]
          rfl
        · rw [contents_prepend, contents_prepend, hcontents, ← htoken,
            Piece.contents_token? start position]

/-- A text that is read, with single blanks. -/
theorem exists_scan_respelled {source : String} {stream : TokenStream}
    (h : scan source = .ok stream) :
    ∃ again, scan stream.respelled = .ok again ∧ again.contents = stream.contents :=
  exists_scanFrom_respelled _ h .start

end TokenStream

end FormulaMachine
