import FormulaMachine.Text.Ranges

/-!
# White space

The Unicode property `White_Space`. The line feed belongs to it; the readers of this library look
at line feeds first.

* `isBlank_of_isWhitespace`: every character that core calls white space is blank.
-/

namespace FormulaMachine.Text

/-- All white space, ASCII and beyond. -/
def blankRanges : Ranges := [
    (0x9, 0xd), (0x20, 0x20),
    (0x85, 0x85), (0xa0, 0xa0), (0x1680, 0x1680), (0x2000, 0x200a), (0x2028, 0x2029),
    (0x202f, 0x202f), (0x205f, 0x205f), (0x3000, 0x3000)]

def isBlank (c : Char) : Bool :=
  blankRanges.contains c.toNat

/-- What is white space in ASCII is blank. -/
theorem isBlank_of_isWhitespace {c : Char} (h : c.isWhitespace = true) : isBlank c = true := by
  simp only [Char.isWhitespace, Bool.or_eq_true, decide_eq_true_eq] at h
  rcases h with ((rfl | rfl) | rfl) | rfl <;> decide

end FormulaMachine.Text
