import FormulaMachine.Dual.Basic
import FormulaMachine.Scalar.Binary64
import FormulaMachine.Special.Digamma

/-!
# Dual numbers of doubles

Doubles supply the parts of the dual numbers that derivatives are computed with.
-/

namespace FormulaMachine

namespace Binary64

/-- `x` to the power `n` by repeated squaring, multiplying `product` where a binary digit of `n` is
one, from the lowest on. -/
def squarings (x : Float) (n : Nat) (product : Float) : Float :=
  let product := if n % 2 = 1 then product * x else product
  if n / 2 = 0 then product else squarings (x * x) (n / 2) product
termination_by n
decreasing_by omega

/-- `x` to the power of an integer: repeated squaring, and the inverse below zero. -/
def powInt (x : Float) (n : Int32) : Float :=
  let power := squarings x n.toInt.natAbs 1
  if n < 0 then 1 / power else power

/-- One with the sign of `x`, zeros included; NaN for NaN. -/
def signum (x : Float) : Float :=
  if x.isNaN then x else copySign 1 x

end Binary64

instance : Analytic Float where
  ofInt := Float.ofInt
  pi := Special.pi
  logTwo := Special.logTwo
  logTen := Special.logTen
  digamma := Special.digamma
  powInt := Binary64.powInt
  signum := Binary64.signum
  isNaN := Float.isNaN
  eq a b := a == b
  lt a b := decide (a < b)
  le a b := decide (a ≤ b)

end FormulaMachine
