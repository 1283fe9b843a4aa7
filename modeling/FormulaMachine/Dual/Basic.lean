import FormulaMachine.Scalar.Basic

/-!
# Dual numbers

A dual number `val + eps · ε` with `ε² = 0` carries a value and a slope. Computing a formula on dual
numbers with slope one on a variable gives the derivative with respect to that variable beside the
value.

The parts come from a type `ρ` of which `Analytic ρ` gathers what the rules need: scalars, tests,
integers, and a few constants. Doubles are one such type; the rules hold on any other one as they
stand.

* `Dual.chain`: the chain rule.
* `Smooth.slope`: the derivative of each smooth function.
* `Dual ρ` is a scalar type.
-/

namespace FormulaMachine

open Binary64 (Direction)

/-- What derivative rules need of the type of their parts. -/
class Analytic (ρ : Type) extends Scalar ρ where
  ofInt : Int → ρ
  pi : ρ
  logTwo : ρ
  logTen : ρ
  /-- the derivative of `log Γ` -/
  digamma : ρ → ρ
  /-- the power with a fixed integer exponent -/
  powInt : ρ → Int32 → ρ
  /-- one with the sign of the argument -/
  signum : ρ → ρ
  isNaN : ρ → Bool
  eq : ρ → ρ → Bool
  lt : ρ → ρ → Bool
  le : ρ → ρ → Bool

/-- A value and a slope. -/
structure Dual (ρ : Type) where
  val : ρ
  eps : ρ

variable {ρ : Type} [Analytic ρ]

open Scalar Analytic

/-- The derivative of a smooth function at `x`. -/
def Smooth.slope : Smooth → ρ → ρ
  | sin, x => smooth cos x
  | cos, x => -smooth sin x
  | tan, x => let t := smooth tan x; ofInt 1 + t * t
  | arcsin, x => ofInt 1 / smooth sqrt (ofInt 1 - x * x)
  | arccos, x => ofInt (-1) / smooth sqrt (ofInt 1 - x * x)
  | arctan, x => ofInt 1 / (ofInt 1 + x * x)
  | sinh, x => smooth cosh x
  | cosh, x => smooth sinh x
  | tanh, x => let t := smooth tanh x; ofInt 1 - t * t
  | arsinh, x => ofInt 1 / smooth sqrt (x * x + ofInt 1)
  | arcosh, x => ofInt 1 / smooth sqrt (x * x - ofInt 1)
  | artanh, x => ofInt 1 / (ofInt 1 - x * x)
  | exp, x => smooth exp x
  | exp2, x => smooth exp2 x * logTwo
  | expMinusOne, x => smooth exp x
  | log, x => ofInt 1 / x
  | log2, x => ofInt 1 / (x * logTwo)
  | log10, x => ofInt 1 / (x * logTen)
  | logOnePlus, x => ofInt 1 / (ofInt 1 + x)
  | sqrt, x => ofInt 1 / ofInt 2 / smooth sqrt x
  | cbrt, x => let c := smooth cbrt x; ofInt 1 / (ofInt 3 * c * c)
  | erf, x => ofInt 2 / smooth sqrt pi * smooth exp (-x * x)
  | erfc, x => ofInt (-2) / smooth sqrt pi * smooth exp (-x * x)
  | gamma, x => smooth gamma x * digamma x
  | logGamma, x => digamma x

namespace Dual

/-- A constant: its slope is zero. -/
def constant (x : ρ) : Dual ρ := ⟨x, zero⟩

/-- An independent variable: its slope is one. -/
def independent (x : ρ) : Dual ρ := ⟨x, ofInt 1⟩

/-- The result of a function with value `f` and derivative `df` at `d.val`. -/
def chain (d : Dual ρ) (f df : ρ) : Dual ρ := ⟨f, df * d.eps⟩

/-! ## Operators -/

def mul (a b : Dual ρ) : Dual ρ := ⟨a.val * b.val, a.val * b.eps + a.eps * b.val⟩

def div (a b : Dual ρ) : Dual ρ :=
  ⟨a.val / b.val, (a.eps * b.val - a.val * b.eps) / (b.val * b.val)⟩

instance : Add (Dual ρ) := ⟨fun a b => ⟨a.val + b.val, a.eps + b.eps⟩⟩
instance : Sub (Dual ρ) := ⟨fun a b => ⟨a.val - b.val, a.eps - b.eps⟩⟩
instance : Neg (Dual ρ) := ⟨fun a => ⟨-a.val, -a.eps⟩⟩
instance : Mul (Dual ρ) := ⟨mul⟩
instance : Div (Dual ρ) := ⟨div⟩

/-- The power with a dual exponent. Either term of the slope is left out where the slope it is
multiplied by is zero, so that a constant exponent asks for no logarithm of the base. -/
def pow (a b : Dual ρ) : Dual ρ :=
  let value := Scalar.pow a.val b.val
  let fromBase :=
    if eq a.eps zero then zero
    else zero + b.val * Scalar.pow a.val (b.val - ofInt 1) * a.eps
  let fromBoth :=
    if eq b.eps zero then fromBase
    else fromBase + value * smooth .log a.val * b.eps
  ⟨value, fromBoth⟩

/-! ## Functions -/

def smooth (f : Smooth) (d : Dual ρ) : Dual ρ := d.chain (Scalar.smooth f d.val) (f.slope d.val)

/-- Rounding is constant between its jumps. -/
def integral (dir : Direction) (d : Dual ρ) : Dual ρ := constant (Scalar.integral dir d.val)

/-- The magnitude; the slope turns round below zero. -/
def abs (d : Dual ρ) : Dual ρ :=
  ⟨Scalar.abs d.val, if le zero d.val then d.eps else -d.eps⟩

/-- The angle of the point `(x, y)`. -/
def atan2 (y x : Dual ρ) : Dual ρ :=
  let square := x.val * x.val + y.val * y.val
  ⟨Scalar.atan2 y.val x.val, (x.val * y.eps - y.val * x.eps) / square⟩

/-- The length of the hypotenuse; its slope at the origin is taken as zero. -/
def hypot (a b : Dual ρ) : Dual ρ :=
  let h := Scalar.hypot a.val b.val
  if eq h zero then constant zero
  else ⟨h, (a.val * a.eps + b.val * b.eps) / h⟩

/-- The remainder whose quotient is rounded towards zero. -/
def fmod (a b : Dual ρ) : Dual ρ :=
  let quotient := Scalar.integral .towardZero (a.val / b.val)
  ⟨Scalar.fmod a.val b.val, a.eps - quotient * b.eps⟩

/-- The remainder whose quotient is rounded to the nearest integer. -/
def remainder (a b : Dual ρ) : Dual ρ :=
  let quotient := Scalar.integral .halfEven (a.val / b.val)
  ⟨Scalar.remainder a.val b.val, a.eps - quotient * b.eps⟩

/-- The difference where it is positive, a constant elsewhere. -/
def positiveDifference (a b : Dual ρ) : Dual ρ :=
  if lt b.val a.val then a - b else constant (Scalar.positiveDifference a.val b.val)

/-- The larger of two, with its slope. A NaN on the right gives way. -/
def max (a b : Dual ρ) : Dual ρ :=
  if isNaN b.val || le b.val a.val then a else b

/-- The smaller of two, with its slope. A NaN on the right gives way. -/
def min (a b : Dual ρ) : Dual ρ :=
  if isNaN b.val || le a.val b.val then a else b

instance : Scalar (Dual ρ) where
  zero := constant zero
  ofFloat x := constant (ofFloat x)
  pow := pow
  smooth := smooth
  integral := integral
  abs := abs
  atan2 := atan2
  hypot := hypot
  fmod := fmod
  remainder := remainder
  positiveDifference := positiveDifference
  max := max
  min := min

/-! ## Functions that formulas do not call -/

def recip (d : Dual ρ) : Dual ρ :=
  let r := ofInt 1 / d.val
  d.chain r (-r * r)

/-- The power with a fixed integer exponent. The exponent of the slope is one less, in 32 bits. -/
def powInt (d : Dual ρ) (n : Int32) : Dual ρ :=
  let slope := if n = 0 then zero else ofInt n.toInt * Analytic.powInt d.val (n - 1)
  d.chain (Analytic.powInt d.val n) slope

/-- The part behind the point, with the slope of the whole. -/
def fract (d : Dual ρ) : Dual ρ := ⟨d.val - Scalar.integral .towardZero d.val, d.eps⟩

def signum (d : Dual ρ) : Dual ρ := constant (Analytic.signum d.val)

def logBase (d base : Dual ρ) : Dual ρ := smooth .log d / smooth .log base

def mulAdd (a b c : Dual ρ) : Dual ρ := a * b + c

/-! ## Tests -/

def isZero (d : Dual ρ) : Bool := eq d.val zero && eq d.eps zero

def same (a b : Dual ρ) : Bool := eq a.val b.val && eq a.eps b.eps

/-- The order of two parts, if they have one. -/
def comparePart? (a b : ρ) : Option Ordering :=
  if lt a b then some .lt else if eq a b then some .eq else if lt b a then some .gt else none

/-- The order of the values, or of the slopes if the values are equal. -/
def compare? (a b : Dual ρ) : Option Ordering :=
  match comparePart? a.val b.val with
  | some .eq => comparePart? a.eps b.eps
  | order => order

end Dual

end FormulaMachine
