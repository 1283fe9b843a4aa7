import FormulaMachine.Decimal.Literal
import FormulaMachine.Dual.Binary64

/-!
# Reading doubles from text

* `ofText?`: a decimal literal with an optional sign, or a word for an infinity or a NaN.
* `ofTextInRadix?`: digits of any base up to 36 with an optional point.

The whole text must be a number; blanks are not skipped.
-/

namespace FormulaMachine.Decimal

open FormulaMachine.Binary64

-- powers of natural numbers are core's, also where a monoid is in scope
attribute [local instance (2000)] instPowNat

/-- The double that a word names, in upper or lower case. -/
def ofWord? (cs : List Char) : Option Float :=
  match String.ofList (cs.map Char.toLower) with
  | "inf" | "infinity" => some infinity
  | "nan" => some nan
  | _ => none

/-- The double of a text without sign: a literal that has a digit, or a word. -/
def ofUnsigned? (cs : List Char) : Option Float :=
  let (literal, rest) := Literal.scan cs
  if rest = [] ∧ literal.whole ++ literal.fraction.getD [] ≠ [] then some literal.value
  else ofWord? cs

/-- The double of a text with an optional sign. -/
def ofText? (text : String) : Option Float :=
  match text.toList with
  | '-' :: cs => (ofUnsigned? cs).map (-·)
  | '+' :: cs => ofUnsigned? cs
  | cs => ofUnsigned? cs

/-! ## Other bases -/

/-- The value of a digit in a base of up to 36. -/
def digit? (radix : Nat) (c : Char) : Option Nat :=
  let value :=
    if c.isDigit then c.toNat - '0'.toNat
    else if c.isAlpha then c.toLower.toNat - 'a'.toNat + 10
    else radix
  if value < radix then some value else none

/-- Digits as a double, each step rounded, and what follows them. `none` in place of the double
means that it is too large: then a step cannot be undone. -/
def wholePart (radix : Float) (toDigit : Char → Option Nat) (sum : Float) :
    List Char → Option Float × List Char
  | [] => (some sum, [])
  | c :: cs =>
    match toDigit c with
    | none => (some sum, c :: cs)
    | some d =>
      let next := sum * radix + d.toFloat
      if sum != 0 && sum != (next - d.toFloat) / radix then (none, cs)
      else wholePart radix toDigit next cs

/-- Digits behind the point, each with its own power of the base, added to `sum`. -/
def fractionPart (radix : Float) (toDigit : Char → Option Nat) (sum unit : Float) :
    List Char → Float × List Char
  | [] => (sum, [])
  | c :: cs =>
    match toDigit c with
    | none => (sum, c :: cs)
    | some d =>
      let unit := unit / radix
      fractionPart radix toDigit (sum + d.toFloat * unit) unit cs

/-- A natural number of at most 64 bits with an optional sign `+`. -/
def word? (cs : List Char) : Option Nat :=
  let digits := match cs with
    | '+' :: ds => ds
    | ds => ds
  if digits ≠ [] ∧ digits.all Char.isDigit = true ∧ natOfDigits digits < 2 ^ (64 : Nat) then
    some (natOfDigits digits)
  else none

/-- The factor that a binary exponent after `p` stands for, which base 16 admits. -/
def binaryExponent? (radix : Nat) : List Char → Option Float
  | [] => some 1
  | m :: cs =>
    if radix = 16 ∧ (m = 'p' ∨ m = 'P') then
      let power := fun n : Nat => powInt 2 (Int32.ofNat n)
      match cs with
      | '-' :: ds => (word? ds).map fun n => 1 / power n
      | '+' :: ds => (word? ds).map power
      | ds => if ds = [] then none else (word? ds).map power
    else none

/-- The magnitude of a text in another base. -/
def magnitudeInRadix? (radix : Nat) (cs : List Char) : Option Float :=
  let base := radix.toFloat
  match wholePart base (digit? radix) 0 cs with
  | (none, _) => some infinity
  | (some sum, '.' :: fraction) =>
    let (sum, rest) := fractionPart base (digit? radix) sum 1 fraction
    (binaryExponent? radix rest).map (sum * ·)
  | (some sum, rest) => (binaryExponent? radix rest).map (sum * ·)

/-- The double of a text in a base of up to 36. Base ten admits all that `ofText?` reads; in other
bases the only sign is `-`. -/
def ofTextInRadix? (text : String) (radix : Nat) : Option Float :=
  if radix = 10 then ofText? text
  else
    match text.toList with
    | [] => none
    | '-' :: cs =>
      if cs = [] then none
      else ((ofWord? cs).orElse fun _ => magnitudeInRadix? radix cs).map (-·)
    | cs => (ofWord? cs).orElse fun _ => magnitudeInRadix? radix cs

end FormulaMachine.Decimal
