/-!
# Doubles as exact values

A finite double is `±m · 2^e` with natural `m` and integer `e`. Core's `UnpackedFloat` gives that
view; this module goes back from such a value to a double and reads off what else the bits say.

* `ofScaled`: the double nearest to `±m · 2^e`.
* `FloatClass.of`, `integerDecode`, `truncated?`: the kind of a double, its bits as integers, and
  its integer part.
-/

namespace FormulaMachine.Binary64

open Float.Model (UnpackedFloat)

-- powers of natural numbers are core's, also where a monoid is in scope
attribute [local instance (2000)] instPowNat

/-- The sign of a double or of an exact value. -/
abbrev Sign := UnpackedFloat.Sign

/-- The value of `x`: a NaN, an infinity, a zero, or `±m · 2^e` with `0 < m`. -/
def unpack (x : Float) : UnpackedFloat := x.toModel.unpack

/-- The double nearest to `±m · 2^e`, a tie going to the even neighbour. Zero keeps the sign, and
what is too large becomes an infinity. -/
def ofScaled (s : Sign) (m : Nat) (e : Int) : Float :=
  if m = 0 then ⟨.pack (.zero s)⟩ else ⟨.pack (.round .binary64 s m e)⟩

/-- The not-a-number value; all of them are one here. -/
def nan : Float := ⟨.pack .notANumber⟩

def infinity : Float := ⟨.pack (.infinity .positive)⟩

def largest : Float := ofScaled .positive (2 ^ (53 : Nat) - 1) 971

def smallestNormal : Float := ofScaled .positive 1 (-1022)

/-- Whether the sign of `x` is negative, which zeros and infinities have too. -/
def isNegative (x : Float) : Bool :=
  match unpack x with
  | .finite .negative .. | .zero .negative | .infinity .negative => true
  | _ => false

def copySign (x y : Float) : Float :=
  if isNegative x == isNegative y then x else -x

/-! ## Kinds of doubles -/

/-- The five kinds of doubles. -/
inductive FloatClass where
  | notANumber
  | infinite
  | zero
  | subnormal
  | normal
  deriving DecidableEq, Repr

/-- The kind of `x`. A finite double is subnormal when its significand has fewer than 53 bits. -/
def FloatClass.of (x : Float) : FloatClass :=
  match unpack x with
  | .notANumber => .notANumber
  | .infinity _ => .infinite
  | .zero _ => .zero
  | .finite _ m _ _ => if m < 2 ^ (52 : Nat) then .subnormal else .normal

/-! ## Integers in a double -/

/-- The fields of a double as integers `(m, e, s)` with value `s · m · 2^e`. The significand holds
the implicit bit, or for the smallest exponent the fraction doubled. Infinities and NaN give what
their bits say. -/
def integerDecode (x : Float) : Nat × Int × Int :=
  let bits := x.toBits.toNat
  let biased : Nat := bits / 2 ^ (52 : Nat) % 2 ^ (11 : Nat)
  let fraction : Nat := bits % 2 ^ (52 : Nat)
  let mantissa := if biased = 0 then 2 * fraction else fraction + 2 ^ (52 : Nat)
  (mantissa, (biased : Int) - 1075, if bits / 2 ^ (63 : Nat) = 0 then 1 else -1)

/-- The integer part of a finite double, rounded towards zero. -/
def truncated? (x : Float) : Option Int :=
  match unpack x with
  | .zero _ => some 0
  | .finite s m e _ =>
    let magnitude := if 0 ≤ e then m * 2 ^ e.toNat else m / 2 ^ (-e).toNat
    some (s.apply magnitude)
  | _ => none

/-- The integer part of `x` if it lies between `low` and `high`. -/
def truncatedWithin? (low high : Int) (x : Float) : Option Int :=
  (truncated? x).filter fun n => decide (low ≤ n) && decide (n ≤ high)

end FormulaMachine.Binary64
