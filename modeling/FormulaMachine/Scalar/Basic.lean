import FormulaMachine.Expr.Basic
import FormulaMachine.Binary64.Rounding

/-!
# What formulas compute on

`Scalar α` gathers what the machine needs of a type of values: the operators, and the functions that
formulas may call. Nothing is assumed about them, so what is proved of the machine holds on every
such type.

* `Smooth`: the functions of one argument that have a derivative rule.
* `Operator.apply`: the meaning of an operator.
-/

namespace FormulaMachine

open Binary64 (Direction)

/-- Functions of one argument that are differentiable inside their domain. -/
inductive Smooth where
  | sin
  | cos
  | tan
  | arcsin
  | arccos
  | arctan
  | sinh
  | cosh
  | tanh
  | arsinh
  | arcosh
  | artanh
  | exp
  | exp2
  /-- `exp x - 1` -/
  | expMinusOne
  | log
  | log2
  | log10
  /-- `log (1 + x)` -/
  | logOnePlus
  | sqrt
  | cbrt
  | erf
  | erfc
  | gamma
  /-- `log |Γ x|` -/
  | logGamma
  deriving DecidableEq, Repr

/-- A type of values that formulas can be computed on. -/
class Scalar (α : Type) extends Add α, Sub α, Mul α, Div α, Neg α where
  /-- the value of a variable that was never set -/
  zero : α
  /-- the value of a literal -/
  ofFloat : Float → α
  pow : α → α → α
  smooth : Smooth → α → α
  /-- rounding to an integral value -/
  integral : Direction → α → α
  abs : α → α
  /-- the angle of the point with the second argument to the right and the first upwards -/
  atan2 : α → α → α
  hypot : α → α → α
  /-- the remainder whose quotient is rounded towards zero -/
  fmod : α → α → α
  /-- the remainder whose quotient is rounded to the nearest integer -/
  remainder : α → α → α
  /-- the difference if it is positive, and zero otherwise -/
  positiveDifference : α → α → α
  max : α → α → α
  min : α → α → α

namespace Operator

/-- The meaning of an operator. -/
def apply {α : Type} [Scalar α] : Operator → α → α → α
  | add, a, b => a + b
  | sub, a, b => a - b
  | mul, a, b => a * b
  | div, a, b => a / b
  | pow, a, b => Scalar.pow a b

end Operator

end FormulaMachine
