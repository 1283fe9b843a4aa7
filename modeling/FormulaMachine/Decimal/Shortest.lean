import FormulaMachine.Binary64.Rounding

/-!
# Decimal digits of a double

Two ways to write a positive finite double `m · 2^e` in decimal, both worked out on natural numbers:

* `Scientific.shortest`: the fewest digits that read back as the same double, and of those the
  number nearest to it; of two equally near ones the larger.
* `Scientific.rounded`: a given number of significant digits, a tie going to the even digit.

The decimals that read back are those between the midpoints to the two neighbours, the midpoints
included iff `m` is even. If a grid of decimals has a point there, one of the two grid points around
the value is such a point, so two candidates per digit count suffice.
-/

namespace FormulaMachine.Decimal

open FormulaMachine.Binary64

-- powers of natural numbers are core's, also where a monoid is in scope
attribute [local instance (2000)] instPowNat

/-- The decimal `digits · 10^(exponent - places)`, where `digits` has `places + 1` digits: one digit
before the point and `places` after it. -/
structure Scientific where
  digits : Nat
  places : Nat
  exponent : Int
  deriving DecidableEq, Repr

def digitCount (n : Nat) : Nat := (Nat.toDigits 10 n).length

/-- The `k` with `10^k ≤ num/den < 10^(k+1)`, for positive `num` and `den`. -/
def decimalExponent (num den : Nat) : Int :=
  if den ≤ num then (digitCount (num / den) : Int) - 1 else -(digitCount ((den - 1) / num) : Int)

namespace Scientific

/-- The same number with no zeros at the end of its digits. -/
def trimmed (digits places : Nat) (exponent : Int) : Scientific :=
  match places with
  | 0 => ⟨digits, 0, exponent⟩
  | places + 1 =>
    if digits % 10 = 0 then trimmed (digits / 10) places exponent
    else ⟨digits, places + 1, exponent⟩

/-- A number of `places + 1` digits that rounding may have carried to `10^(places + 1)`. -/
def carried (digits places : Nat) (exponent : Int) : Scientific :=
  if digits = 10 ^ (places + 1) then ⟨10 ^ places, places, exponent + 1⟩
  else ⟨digits, places, exponent⟩

/-- The decimals of `places + 1` digits that read back as `m · 2^e`, the nearest of them; `k` is the
decimal exponent of the value. Magnitudes count quarters of `2^e`: the midpoints lie two of them
off, below a power of two only one. -/
def candidate? (m : Nat) (e : Int) (k : Int) (places : Nat) : Option Scientific :=
  let grid : Int := k - places
  let scale := 2 ^ (e - 2).toNat * 10 ^ (-grid).toNat
  let unit := 2 ^ (2 - e).toNat * 10 ^ grid.toNat
  let value := 4 * m * scale
  let low := (4 * m - if m = 2 ^ (52 : Nat) ∧ -1074 < e then 1 else 2) * scale
  let high := (4 * m + 2) * scale
  let readsBack := fun d : Nat =>
    if m % 2 = 0 then decide (low ≤ d * unit) && decide (d * unit ≤ high)
    else decide (low < d * unit) && decide (d * unit < high)
  let below := value / unit
  let nearest := if unit ≤ 2 * (value % unit) then [below + 1, below] else [below, below + 1]
  (nearest.find? readsBack).map fun d =>
    let c := carried d places k
    trimmed c.digits c.places c.exponent

/-- The value `m · 2^e` as a quotient of natural numbers. -/
def quotient (m : Nat) (e : Int) : Nat × Nat := (m * 2 ^ e.toNat, 2 ^ (-e).toNat)

/-- `m · 2^e` rounded to `places + 1` significant digits, a tie going to the even digit. -/
def rounded (m : Nat) (e : Int) (places : Nat) : Scientific :=
  let (num, den) := quotient m e
  let k := decimalExponent num den
  let grid : Int := k - places
  carried (Direction.halfEven.quotient .positive (num * 10 ^ (-grid).toNat)
    (den * 10 ^ grid.toNat)) places k

/-- The shortest decimal that reads back as `m · 2^e`. Seventeen digits always suffice. -/
def shortest (m : Nat) (e : Int) : Scientific :=
  let (num, den) := quotient m e
  let k := decimalExponent num den
  ((List.range 17).findSome? (candidate? m e k)).getD (rounded m e 16)

end Scientific

end FormulaMachine.Decimal
