import FormulaMachine.Scalar.Basic
import FormulaMachine.Binary64.Remainder
import FormulaMachine.Special.ErrorFunction
import FormulaMachine.Special.Gamma

/-!
# Formulas on doubles

Doubles are scalars. Arithmetic, square and cube roots, roundings, remainders and `hypot` are exact
up to the one rounding of the result; the other functions are good to the last digits, except
`artanh` near -1.
-/

namespace FormulaMachine

namespace Binary64

/-- The larger of two doubles. A NaN gives way to the other one; equal ones give the first. -/
def larger (a b : Float) : Float :=
  if a.isNaN then b else if a < b then b else a

/-- The smaller of two doubles. A NaN gives way to the other one; equal ones give the first. -/
def smaller (a b : Float) : Float :=
  if a.isNaN then b else if b < a then b else a

/-- `a - b` if that is positive, zero if it is not, and NaN beside a NaN. -/
def positiveDifference (a b : Float) : Float :=
  if a.isNaN then a else if b.isNaN then b else if b < a then a - b else 0

end Binary64

namespace Smooth

/-- The function on doubles. -/
def onFloat : Smooth → Float → Float
  | sin => Float.sin
  | cos => Float.cos
  | tan => Float.tan
  | arcsin => Float.asin
  | arccos => Float.acos
  | arctan => Float.atan
  | sinh => Float.sinh
  | cosh => Float.cosh
  | tanh => Float.tanh
  | arsinh => Float.asinh
  | arcosh => Float.acosh
  | artanh => Special.areaTangent
  | exp => Float.exp
  | exp2 => Float.exp2
  | expMinusOne => Special.expMinusOne
  | log => Float.log
  | log2 => Float.log2
  | log10 => Float.log10
  | logOnePlus => Special.logOnePlus
  | sqrt => Float.sqrt
  | cbrt => Special.cubeRoot
  | erf => Special.erf
  | erfc => Special.erfc
  | gamma => Special.gamma
  | logGamma => Special.logGamma

end Smooth

instance : Scalar Float where
  zero := 0
  ofFloat x := x
  pow := Float.pow
  smooth := Smooth.onFloat
  integral := Binary64.roundTo
  abs := Float.abs
  atan2 := Float.atan2
  hypot := Special.hypotenuse
  fmod := Binary64.truncatedRemainder
  remainder := Binary64.nearestRemainder
  positiveDifference := Binary64.positiveDifference
  max := Binary64.larger
  min := Binary64.smaller

end FormulaMachine
