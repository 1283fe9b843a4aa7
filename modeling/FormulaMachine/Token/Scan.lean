import FormulaMachine.Token.Piece

/-!
# From text to tokens

The scanner takes pieces off the front, keeps count of lines, columns and open parentheses, and
keeps the tokens. A line break is a terminator where no parenthesis is open and is skipped
elsewhere. The one thing that can go wrong is a character that starts no piece.
-/

namespace FormulaMachine

/-- A character that cannot stand where it was found. -/
structure StrayCharacter where
  character : Char
  position : Position
  deriving DecidableEq, Repr

namespace Piece

/-- The token that the piece stands for at `position` with `depth` parentheses open. -/
def token? (position : Position) (depth : Nat) : Piece → Option Token
  | token kind text => some ⟨kind, String.ofList text, position⟩
  | lineBreak => if depth = 0 then some ⟨.terminator, "\n", position⟩ else none
  | skipped _ => none

/-- How many parentheses are open behind the piece. -/
def depthAfter (depth : Nat) : Piece → Nat
  | token kind _ => kind.depthAfter depth
  | _ => depth

end Piece

namespace TokenStream

/-- The tokens of `cs`, which starts at `position` with `depth` parentheses open. -/
def scanFrom (position : Position) (depth : Nat) : List Char → Except StrayCharacter TokenStream
  | [] => .ok ⟨[], position⟩
  | c :: cs =>
    match _h : Piece.front? c cs with
    | none => .error ⟨c, position⟩
    | some (piece, rest) =>
      (scanFrom (position.after piece.text) (piece.depthAfter depth) rest).map
        (prepend (piece.token? position depth))
termination_by cs => cs.length
decreasing_by exact Piece.length_front? _h

/-- The tokens of a text. -/
def scan (source : String) : Except StrayCharacter TokenStream :=
  scanFrom .start 0 source.toList

theorem scanFrom_nil (position : Position) (depth : Nat) :
    scanFrom position depth [] = .ok ⟨[], position⟩ := by
  rw [scanFrom]

/-- A piece at the front, with its token if it stands for one, and then the tokens of the rest. -/
theorem scanFrom_of_front? {position : Position} {depth : Nat} {c : Char} {cs rest : List Char}
    {piece : Piece} (h : Piece.front? c cs = some (piece, rest)) :
    scanFrom position depth (c :: cs) =
      (scanFrom (position.after piece.text) (piece.depthAfter depth) rest).map
        (prepend (piece.token? position depth)) := by
  rw [scanFrom]
  split
  · next h' => simp [h] at h'
  · next h' =>
    rw [h] at h'
    cases h'
    rfl

/-- A character that begins no piece is what reading fails with. -/
theorem scanFrom_of_front?_eq_none {position : Position} {depth : Nat} {c : Char} {cs : List Char}
    (h : Piece.front? c cs = none) :
    scanFrom position depth (c :: cs) = .error ⟨c, position⟩ := by
  rw [scanFrom]
  split
  · rfl
  · next h' => simp [h] at h'

end TokenStream

end FormulaMachine
