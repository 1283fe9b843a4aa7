import FormulaMachine.Binary64.Rounding

/-!
# Exact remainders

For finite `x` and non-zero `y` both remainders are `x - k · y` for an integer `k`, and the result
is a double without any rounding. The two values are written over one power of two, so that `k` and
the rest come from division of natural numbers.

* `truncatedRemainder`: `k` is `x / y` rounded towards zero; the result has the sign of `x`.
* `nearestRemainder`: `k` is the integer nearest to `x / y`, a tie going to the even one.
-/

namespace FormulaMachine.Binary64

open Float.Model (UnpackedFloat)

-- powers of natural numbers are core's, also where a monoid is in scope
attribute [local instance (2000)] instPowNat

/-- The remainder of `x` by `y` with the quotient rounded by `rest`, which gets both magnitudes as
integers over one unit and answers a signed rest in that unit. A rest of zero has the sign of
`x`. -/
def remainderBy (rest : Nat → Nat → Int) (x y : Float) : Float :=
  match unpack x, unpack y with
  | .zero _, .finite .. | .zero _, .infinity _ | .finite .., .infinity _ => x
  | .finite s m e _, .finite _ n f _ =>
    let unit := min e f
    let r := rest (m * 2 ^ (e - unit).toNat) (n * 2 ^ (f - unit).toNat)
    ofScaled (if r < 0 then -s else s) r.natAbs unit
  | _, _ => nan

/-- The remainder whose quotient is rounded towards zero. -/
def truncatedRemainder (x y : Float) : Float :=
  remainderBy (fun a b => ((a % b : Nat) : Int)) x y

/-- The remainder whose quotient is the nearest integer, a tie going to the even one. -/
def nearestRemainder (x y : Float) : Float :=
  remainderBy (fun a b => (a : Int) - (Direction.halfEven.quotient .positive a b : Int) * b) x y

end FormulaMachine.Binary64
