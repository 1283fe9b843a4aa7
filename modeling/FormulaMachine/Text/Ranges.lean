/-!
# Sets of code points given by intervals

A character class of the Unicode standard is a set of code points. `Ranges` writes such a set as
a list of closed intervals, and `Ranges.contains` decides membership.

* `contains_iff`: a code point belongs to the set iff some interval holds it.
-/

namespace FormulaMachine.Text

/-- A set of code points, as a list of closed intervals `(first, last)`. -/
abbrev Ranges := List (Nat × Nat)

namespace Ranges

/-- Whether the code point `n` lies in one of the intervals. -/
def contains (ranges : Ranges) (n : Nat) : Bool :=
  ranges.any fun (first, last) => decide (first ≤ n) && decide (n ≤ last)

theorem contains_iff {ranges : Ranges} {n : Nat} :
    ranges.contains n = true ↔ ∃ r ∈ ranges, r.1 ≤ n ∧ n ≤ r.2 := by
  simp [contains]

end Ranges

end FormulaMachine.Text
