import FormulaMachine.Decimal.Shortest

/-!
# Doubles as text

* `plain`: the shortest digits in positional form, without exponent and without `.0` for whole
  numbers: `2`, `0.5`, `-0`, `0.0000001`. This is the form inside listings and messages.
* `scientific`: the shortest digits as `d.ddde±x`: `1e0`, `-2.5e-3`.
* `scientificTo`: the same form with a given number of digits after the point.

NaN and the infinities are `NaN`, `inf` and `-inf` in all three.
-/

namespace FormulaMachine.Decimal

open FormulaMachine.Binary64
open Float.Model (UnpackedFloat)

namespace Scientific

/-- The digits, padded with zeros in front to `places + 1` of them. -/
def digitText (s : Scientific) : List Char :=
  let ds := Nat.toDigits 10 s.digits
  List.replicate (s.places + 1 - ds.length) '0' ++ ds

def plain (s : Scientific) : List Char :=
  let ds := s.digitText
  match s.exponent with
  | .negSucc n => '0' :: '.' :: List.replicate n '0' ++ ds
  | .ofNat n =>
    if s.places ≤ n then ds ++ List.replicate (n - s.places) '0'
    else ds.take (n + 1) ++ '.' :: ds.drop (n + 1)

/-- One digit, a point and more digits if there are any, and the exponent. -/
def scientific (s : Scientific) : List Char :=
  let ds := s.digitText
  let fraction := if s.places = 0 then [] else '.' :: ds.drop 1
  ds.take 1 ++ fraction ++ 'e' :: (toString s.exponent).toList

end Scientific

/-- The text of `x`: its sign and what `write` makes of its magnitude; that of zero is `0 · 2^0`. -/
def signedText (write : Nat → Int → List Char) (x : Float) : String :=
  let signed := fun (s : Sign) (cs : List Char) =>
    String.ofList (if s == .negative then '-' :: cs else cs)
  match unpack x with
  | .notANumber => "NaN"
  | .infinity s => signed s "inf".toList
  | .zero s => signed s (write 0 0)
  | .finite s m e _ => signed s (write m e)

/-- The shortest decimal of `m · 2^e`; zero is the single digit `0`. -/
def shortestOrZero (m : Nat) (e : Int) : Scientific :=
  if m = 0 then ⟨0, 0, 0⟩ else .shortest m e

/-- `m · 2^e` rounded to `places + 1` digits; zero has as many of them. -/
def roundedOrZero (places : Nat) (m : Nat) (e : Int) : Scientific :=
  if m = 0 then ⟨0, places, 0⟩ else .rounded m e places

/-- Positional form with the shortest digits. -/
def plain (x : Float) : String :=
  signedText (fun m e => (shortestOrZero m e).plain) x

/-- Scientific form with the shortest digits. -/
def scientific (x : Float) : String :=
  signedText (fun m e => (shortestOrZero m e).scientific) x

/-- Scientific form with `places` digits after the point. -/
def scientificTo (places : Nat) (x : Float) : String :=
  signedText (fun m e => (roundedOrZero places m e).scientific) x

end FormulaMachine.Decimal
