import FormulaMachine.Binary64.Exact

/-!
# Rounding to an integral value

Rounding works on the exact value `±m · 2^e`. For `0 ≤ e` the double is integral already; otherwise
`m / 2^(-e)` is rounded as a quotient of natural numbers and the sign is put back, so that a result
of zero keeps the sign of its argument.

* `Direction.quotient_of_dvd`: a quotient without remainder is left alone in every direction.
-/

namespace FormulaMachine.Binary64

open Float.Model (UnpackedFloat)

-- powers of natural numbers are core's, also where a monoid is in scope
attribute [local instance (2000)] instPowNat

/-- Where a value between two integers goes. -/
inductive Direction where
  | up
  | down
  | towardZero
  /-- to the nearest integer, a half away from zero -/
  | halfAway
  /-- to the nearest integer, a half to the even one -/
  | halfEven
  deriving DecidableEq, Repr

/-- Whether the magnitude `q + r/d` with `0 < r < d` is rounded to `q + 1` rather than `q`. -/
def Direction.raises (dir : Direction) (s : Sign) (q r d : Nat) : Bool :=
  match dir, s with
  | .up, .positive => true
  | .up, .negative => false
  | .down, .positive => false
  | .down, .negative => true
  | .towardZero, _ => false
  | .halfAway, _ => decide (d ≤ 2 * r)
  | .halfEven, _ => decide (d < 2 * r) || (decide (2 * r = d) && decide (q % 2 = 1))

/-- The magnitude `n/d` rounded to an integer, for a value of sign `s`. -/
def Direction.quotient (dir : Direction) (s : Sign) (n d : Nat) : Nat :=
  if n % d ≠ 0 ∧ dir.raises s (n / d) (n % d) d = true then n / d + 1 else n / d

theorem Direction.quotient_of_dvd (dir : Direction) (s : Sign) {n d : Nat} (h : d ∣ n) :
    dir.quotient s n d = n / d := by
  simp [Direction.quotient, Nat.mod_eq_zero_of_dvd h]

/-- `x` rounded to an integral double. NaN, infinities and zeros stay as they are. -/
def roundTo (dir : Direction) (x : Float) : Float :=
  match unpack x with
  | .finite s m e _ => if 0 ≤ e then x else ofScaled s (dir.quotient s m (2 ^ (-e).toNat)) 0
  | _ => x

end FormulaMachine.Binary64
