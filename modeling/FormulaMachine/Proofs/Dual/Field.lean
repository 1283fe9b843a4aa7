import FormulaMachine.Dual.Basic
import Mathlib

/-!
# Dual numbers over a field

The rules for dual numbers stand on any type that has operators, tests and elementary functions.
Here the operators and the tests are those of an ordered field, where division by zero gives zero,
and the elementary functions are any functions at all. What holds of such dual numbers is due to the
rules, and neither to rounding nor to what the functions compute.

* `Dual.add_def` and its like: the operators, part by part.
* `Elementary`: functions and constants on which nothing is assumed.
* `Elementary.analytic`: what the rules for dual numbers need, from a field.
* `Elementary.rational`: the rational numbers.
-/

namespace FormulaMachine

open Binary64 (Direction)

namespace Dual

variable {ρ : Type} [Analytic ρ]

theorem add_def (a b : Dual ρ) : a + b = ⟨a.val + b.val, a.eps + b.eps⟩ := rfl

theorem sub_def (a b : Dual ρ) : a - b = ⟨a.val - b.val, a.eps - b.eps⟩ := rfl

theorem neg_def (a : Dual ρ) : -a = ⟨-a.val, -a.eps⟩ := rfl

/-- The product rule. -/
theorem mul_def (a b : Dual ρ) : a * b = ⟨a.val * b.val, a.val * b.eps + a.eps * b.val⟩ := rfl

/-- The quotient rule. -/
theorem div_def (a b : Dual ρ) :
    a / b = ⟨a.val / b.val, (a.eps * b.val - a.val * b.eps) / (b.val * b.val)⟩ := rfl

end Dual

/-! ## Ordered fields -/

/-- What dual numbers need beside a field and its order. -/
class Elementary (ρ : Type) where
  ofFloat : Float → ρ
  pow : ρ → ρ → ρ
  smooth : Smooth → ρ → ρ
  integral : Direction → ρ → ρ
  abs : ρ → ρ
  atan2 : ρ → ρ → ρ
  hypot : ρ → ρ → ρ
  fmod : ρ → ρ → ρ
  remainder : ρ → ρ → ρ
  positiveDifference : ρ → ρ → ρ
  max : ρ → ρ → ρ
  min : ρ → ρ → ρ
  pi : ρ
  logTwo : ρ
  logTen : ρ
  digamma : ρ → ρ
  powInt : ρ → Int32 → ρ
  signum : ρ → ρ
  isNaN : ρ → Bool

variable {ρ : Type} [Field ρ] [LinearOrder ρ] [Elementary ρ]

namespace Elementary

/-- The operators and the tests of the field, with the given functions. -/
scoped instance analytic : Analytic ρ where
  zero := 0
  ofFloat := ofFloat
  pow := pow
  smooth := smooth
  integral := integral
  abs := abs
  atan2 := atan2
  hypot := hypot
  fmod := fmod
  remainder := remainder
  positiveDifference := positiveDifference
  max := max
  min := min
  ofInt n := n
  pi := pi
  logTwo := logTwo
  logTen := logTen
  digamma := digamma
  powInt := powInt
  signum := signum
  isNaN := isNaN
  eq a b := decide (a = b)
  lt a b := decide (a < b)
  le a b := decide (a ≤ b)

/-! ## Rational numbers -/

/-- The value of a finite double. Infinities and NaN stand for zero. -/
def ratOfFloat (x : Float) : ℚ :=
  match Binary64.unpack x with
  | .finite s m e _ => (s.apply m : Int) * 2 ^ e
  | _ => 0

/-- Rounding to an integer. -/
def roundRat : Direction → ℚ → ℚ
  | .up, x => ⌈x⌉
  | .down, x => ⌊x⌋
  | .towardZero, x => if 0 ≤ x then ⌊x⌋ else ⌈x⌉
  | .halfAway, x => if 0 ≤ x then ⌊x + 1 / 2⌋ else ⌈x - 1 / 2⌉
  | .halfEven, x => if x - ⌊x⌋ = 1 / 2 ∧ Even ⌊x⌋ then ⌊x⌋ else ⌊x + 1 / 2⌋

/-- Functions on the rational numbers: exact where the result is rational, as in integer powers and
in roots of squares. What is not rational is put as zero. -/
scoped instance rational : Elementary ℚ where
  ofFloat := ratOfFloat
  pow x y := if y.den = 1 then x ^ y.num else 0
  smooth
    | .sqrt, x => Rat.sqrt x
    | _, _ => 0
  integral := roundRat
  abs x := |x|
  atan2 _ _ := 0
  hypot x y := Rat.sqrt (x * x + y * y)
  fmod x y := x - roundRat .towardZero (x / y) * y
  remainder x y := x - roundRat .halfEven (x / y) * y
  positiveDifference x y := Max.max (x - y) 0
  max := Max.max
  min := Min.min
  pi := 0
  logTwo := 0
  logTen := 0
  digamma _ := 0
  powInt x n := x ^ n.toInt
  signum x := if x < 0 then -1 else 1
  isNaN _ := false

end Elementary

end FormulaMachine
