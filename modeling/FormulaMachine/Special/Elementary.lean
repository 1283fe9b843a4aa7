import FormulaMachine.Binary64.Rounding

/-!
# Elementary functions beyond core's

Core gives `sin`, `exp`, `log` and their like on doubles. This module adds those that a formula can
call besides:

* `expMinusOne`, `logOnePlus`: exact to a few units in the last place also near zero, where the
  rounding of `exp x` and `1 + x` is divided out again.
* `areaTangent`: the inverse of `tanh`, as half a logarithm of one quotient.
* `hypotenuse`: the square root of the exact sum of squares, rounded once.
* `cubeRoot`: the cube root, rounded once.
* `sinTurn`: the sine of a multiple of `π`, reduced before `π` comes in, so that it is exactly zero
  at the integers.
-/

namespace FormulaMachine.Special

open FormulaMachine.Binary64
open Float.Model (UnpackedFloat)

-- powers of natural numbers are core's, also where a monoid is in scope
attribute [local instance (2000)] instPowNat

/-- `c₀ + x · (c₁ + x · (c₂ + …))`, evaluated from the inside. -/
def polynomial (coefficients : List Float) (x : Float) : Float :=
  coefficients.foldr (fun c rest => c + x * rest) 0

def pi : Float := 3.14159265358979323846

def euler : Float := 2.71828182845904523536

def logTwo : Float := 0.693147180559945309417

def logTen : Float := 2.30258509299404568402

/-- `exp x - 1`. With `u` the rounded `exp x`, `x / log u` is what the rounding changed. -/
def expMinusOne (x : Float) : Float :=
  let u := x.exp
  if u == 1 then x
  else if u == infinity || u - 1 == -1 then u - 1
  else (u - 1) * (x / u.log)

/-- `log (1 + x)`. With `u` the rounded `1 + x`, `x / (u - 1)` is what the rounding changed. -/
def logOnePlus (x : Float) : Float :=
  let u := 1 + x
  if u == 1 then x
  else if u == infinity then u
  else u.log * (x / (u - 1))

/-- The inverse of `tanh`: half of `log ((1 + x) / (1 - x))`, where the quotient exceeds 1 by
`2 x / (1 - x)`. Near -1 that excess is near -1 itself and its rounding weighs most: a result there
has fewer good digits than the one of the opposite sign near 1. -/
def areaTangent (x : Float) : Float := 0.5 * logOnePlus (2 * x / (1 - x))

/-- The length of the hypotenuse over the legs `x` and `y`. An infinite leg makes it infinite, even
beside a NaN. -/
def hypotenuse (x y : Float) : Float :=
  match unpack x, unpack y with
  | .infinity _, _ | _, .infinity _ => infinity
  | .notANumber, _ | _, .notANumber => nan
  | .zero _, _ => y.abs
  | _, .zero _ => x.abs
  | .finite _ m e hm, .finite _ n f _ =>
    let unit := min e f
    let a := m * 2 ^ (e - unit).toNat
    let b := n * 2 ^ (f - unit).toNat
    have pos : 0 < a * a + b * b :=
      Nat.add_pos_left (Nat.mul_pos (Nat.mul_pos hm (Nat.two_pow_pos _))
        (Nat.mul_pos hm (Nat.two_pow_pos _))) _
    ⟨.pack (.sqrt .binary64 (.finite .positive (a * a + b * b) (2 * unit) pos))⟩

/-- The largest `r` below `2^bits` with `r³ ≤ n`, found bit by bit from the top. -/
def cubeRootNat (n : Nat) : (bits : Nat) → (found : Nat) → Nat
  | 0, found => found
  | bits + 1, found =>
    let raised := found + 2 ^ bits
    cubeRootNat n bits (if raised ^ (3 : Nat) ≤ n then raised else found)

/-- The cube root, rounded once. The significand is scaled by a power of eight to 165 bits or more,
so that its root has 55; whether the root is exact goes into one more bit. -/
def cubeRoot (x : Float) : Float :=
  match unpack x with
  | .finite s m e _ =>
    let n := m * 2 ^ (165 + (e % 3).toNat)
    let root := cubeRootNat n 74 0
    ofScaled s (2 * root + if root ^ (3 : Nat) = n then 0 else 1) (e / 3 - 56)
  | _ => x

/-- `sin (π x)` for `0 ≤ x`. The argument is reduced to a quarter turn around a multiple of a half
turn, which is exact, and only then multiplied by `π`. -/
def sinTurn (x : Float) : Float :=
  let half := x * 0.5
  let turn := 2 * (half - roundTo .down half)
  let quarter := ((turn * 4).toUInt64.toNat + 1) / 2
  let y := (turn - quarter.toFloat * 0.5) * pi
  match quarter with
  | 1 => y.cos
  | 2 => (-y).sin
  | 3 => -y.cos
  | _ => y.sin

end FormulaMachine.Special
