import FormulaMachine.Special.Elementary

/-!
# The digamma function

`digamma` is the derivative of `log Γ`. A positive argument is shifted above 10 by the recurrence
`ψ x = ψ (x + 1) - 1/x` and put into the asymptotic series there; a negative one goes through the
reflection formula first. Every shift adds 1, so ten of them suffice.
-/

namespace FormulaMachine.Special

open FormulaMachine.Binary64

/-- At most `steps` shifts by one towards 10: the argument reached, and what the shifts add to the
sum so far. -/
def shiftToTen : Nat → Float → Float → Float × Float
  | 0, x, sum => (x, sum)
  | steps + 1, x, sum =>
    if x < 10 then shiftToTen steps (x + 1) (sum - 1 / x) else (x, sum)

/-- The asymptotic series at `x`, added to `sum`. -/
def asymptotic (x sum : Float) : Float :=
  let inverse := 1 / x
  let square := inverse * inverse
  let tail := 1 / 240 - square / 132
  let series := 1 / 12 - square * (1 / 120 - square * (1 / 252 - square * tail))
  sum + x.log - 0.5 * inverse - square * series

/-- The digamma function at a positive argument. -/
def digammaPositive (x : Float) : Float :=
  let (x, sum) := shiftToTen 10 x 0
  asymptotic x sum

/-- Arguments without a value: NaN, and the poles, which are zero and the negative integers, with
`-∞` as one of them. -/
def hasNoValue (x : Float) : Bool := x.isNaN || (x <= 0 && x == roundTo .down x)

/-- The digamma function. -/
def digamma (x : Float) : Float :=
  if hasNoValue x then nan
  else if x < 0 then digammaPositive (1 - x) - pi / (pi * x).tan
  else digammaPositive x

end FormulaMachine.Special
