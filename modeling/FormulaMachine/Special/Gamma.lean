import FormulaMachine.Special.Elementary

/-!
# The gamma function

`gamma` is `Γ` by Lanczos' formula with a table for the factorials, and the reflection formula below
zero. `logGamma` is `log |Γ|`, by polynomials up to 8, Stirling's series beyond, and reflection
below zero.
-/

namespace FormulaMachine.Special

open FormulaMachine.Binary64

/-! ## Γ -/

/-- Numerator of Lanczos' rational function, constant term first. -/
def lanczosNumerator : List Float := [
  23531376880.410759688572007674451636754734846804940,
  42919803642.649098768957899047001988850926355848959,
  35711959237.355668049440185451547166705960488635843,
  17921034426.037209699919755754458931112671403265390,
  6039542586.3520280050642916443072979210699388420708,
  1439720407.3117216736632230727949123939715485786372,
  248874557.86205415651146038641322942321632125127801,
  31426415.585400194380614231628318205362874684987640,
  2876370.6289353724412254090516208496135991145378768,
  186056.26539522349504029498971604569928220784236328,
  8071.6720023658162106380029022722506138218516325024,
  210.82427775157934587250973392071336271166969580291,
  2.5066282746310002701649081771338373386264310793408]

/-- Denominator of Lanczos' rational function, constant term first. -/
def lanczosDenominator : List Float := [
  0, 39916800, 120543840, 150917976, 105258076, 45995730, 13339535, 2637558, 357423, 32670, 1925,
  66, 1]

/-- Lanczos' rational function at a positive `x`. From 8 on it is evaluated in `1/x`, which keeps
the sums from overflowing. -/
def lanczos (x : Float) : Float :=
  if x < 8 then
    lanczosNumerator.foldr (fun c sum => sum * x + c) 0 /
      lanczosDenominator.foldr (fun c sum => sum * x + c) 0
  else
    lanczosNumerator.foldl (fun sum c => sum / x + c) 0 /
      lanczosDenominator.foldl (fun sum c => sum / x + c) 0

def lanczosOffset : Float := 5.524680040776729583740234375

def factorial (n : Nat) : Float :=
  Nat.toFloat ((List.range n).foldl (fun product k => product * (k + 1)) 1)

/-- `Γ x` for a magnitude from `2^-54` up to 184 that is neither a negative integer nor one of the
integers up to 23. -/
def gammaFormula (x : Float) : Float :=
  let a := x.abs
  let y := a + lanczosOffset
  let dy := if lanczosOffset < a then y - a - lanczosOffset else y - lanczosOffset - a
  let r := lanczos a * (-y).exp
  let (r, dy, z) :=
    if x < 0 then (-pi / (sinTurn a * a * r), -dy, -(a - 0.5)) else (r, dy, a - 0.5)
  let r := r + dy * (lanczosOffset + 0.5) * r / y
  let root := y.pow (0.5 * z)
  r * root * root

/-- The gamma function. NaN at the negative integers, an infinity of matching sign at the zeros. -/
def gamma (x : Float) : Float :=
  let a := x.abs
  if x.isNaN || a == infinity then x + infinity
  else if a < 5.5511151231257827021e-17 then 1 / x
  else
    let below := roundTo .down x
    if x == below && isNegative x then nan
    else if x == below && x <= 23 then factorial (x.toUInt64.toNat - 1)
    else if 184 <= a then
      if isNegative x then
        if below * 0.5 == roundTo .down (x * 0.5) then 0 else -0
      else infinity
    else gammaFormula x

/-! ## The logarithm of Γ -/

/-- `log Γ (2 - y) + y/2` near 2, and likewise `log Γ (1 - y) + log (1 - y) + y/2`. -/
def logGammaNearTwo (y : Float) : Float :=
  let z := y * y
  let p := polynomial [7.72156649015328655494e-02, 6.73523010531292681824e-02,
    7.38555086081402883957e-03, 1.19270763183362067845e-03, 2.20862790713908385557e-04,
    2.52144565451257326939e-05] z
  let q := z * polynomial [3.22467033424113591611e-01, 2.05808084325167332806e-02,
    2.89051383673415629091e-03, 5.10069792153511336608e-04, 1.08011567247583939954e-04,
    4.48640949618915160150e-05] z
  y * p + q

/-- Where `Γ` has its minimum on the positive numbers. -/
def gammaMinimum : Float := 1.46163214496836224576e+00

/-- `log Γ (m + y)` around the minimum `m` of `Γ`. -/
def logGammaNearMinimum (y : Float) : Float :=
  let z := y * y
  let w := z * y
  let p := polynomial [4.83836122723810047042e-01, -3.27885410759859649565e-02,
    6.10053870246291332635e-03, -1.40346469989232843813e-03, 3.15632070903625950361e-04] w
  let q := polynomial [-1.47587722994593911752e-01, 1.79706750811820387126e-02,
    -3.68452016781138256760e-03, 8.81081882437654011382e-04, -3.12754168375120860518e-04] w
  let r := polynomial [6.46249402391333854778e-02, -1.03142241298341437450e-02,
    2.25964780900612472250e-03, -5.38595305356740546715e-04, 3.35529192635519073543e-04] w
  z * p - (-3.63867699703950536541e-18 - w * (q + y * r)) - 1.21486290535849611461e-01

/-- `log Γ (1 + y)` for small `y`. -/
def logGammaNearOne (y : Float) : Float :=
  let p := y * polynomial [-7.72156649015328655494e-02, 6.32827064025093366517e-01,
    1.45492250137234768737e+00, 9.77717527963372745603e-01, 2.28963728064692451092e-01,
    1.33810918536787660377e-02] y
  let q := polynomial [1, 2.45597793713041134822e+00, 2.12848976379893395361e+00,
    7.69285150456672783825e-01, 1.04222645593369134254e-01, 3.21709242282423911810e-03] y
  p / q - 0.5 * y

/-- `log Γ x` for `0 < x < 2`. Below 0.9 the recurrence `Γ (x + 1) = x Γ x` leads above 1. -/
def logGammaBelowTwo (x : Float) : Float :=
  if x < 0.9000000953674316 then
    let r := -x.log
    if 0.7315998077392578 <= x then
      let y := 1 - x
      r + (logGammaNearTwo y - 0.5 * y)
    else if 0.23163998126983643 <= x then r + logGammaNearMinimum (x - (gammaMinimum - 1))
    else r + logGammaNearOne x
  else if 1.7316312789916992 <= x then
    let y := 2 - x
    logGammaNearTwo y - 0.5 * y
  else if 1.2316322326660156 <= x then logGammaNearMinimum (x - gammaMinimum)
  else logGammaNearOne (x - 1)

/-- `log Γ x` for `2 ≤ x < 8`: a rational function on 2 to 3 and the recurrence from there. -/
def logGammaBelowEight (x : Float) : Float :=
  let n := x.toUInt64.toNat
  let y := x - n.toFloat
  let p := y * polynomial [-7.72156649015328655494e-02, 2.14982415960608852501e-01,
    3.25778796408930981787e-01, 1.46350472652464452805e-01, 2.66422703033638609560e-02,
    1.84028451407337715652e-03, 3.19475326584100867617e-05] y
  let q := polynomial [1, 1.39200533467621045958e+00, 7.21935547567138069525e-01,
    1.71933865632803078993e-01, 1.86459191715652901344e-02, 7.77942496381893596434e-04,
    7.32668430744625636189e-06] y
  let r := 0.5 * y + p / q
  if n < 3 then r
  else
    let product := (List.range (n - 2)).foldr (fun k z => z * (y + (k + 2).toFloat)) 1
    r + product.log

/-- `log Γ x` for `8 ≤ x`, by Stirling's series. -/
def logGammaLarge (x : Float) : Float :=
  if x < 288230376151711744 then
    let z := 1 / x
    let y := z * z
    let series := polynomial [8.33333333333329678849e-02, -2.77777777728775536470e-03,
      7.93650558643019558500e-04, -5.95187557450339963135e-04, 8.36339918996282139126e-04,
      -1.63092934096575273989e-03] y
    (x - 0.5) * (x.log - 1) + (4.18938533204672725052e-01 + z * series)
  else x * (x.log - 1)

def logGammaPositive (x : Float) : Float :=
  if x == 1 || x == 2 then 0
  else if x < 2 then logGammaBelowTwo x
  else if x < 8 then logGammaBelowEight x
  else logGammaLarge x

/-- `log |Γ x|`. Infinite at zero and at the negative integers. -/
def logGamma (x : Float) : Float :=
  let a := x.abs
  if x.isNaN || a == infinity then x * x
  else if a < 8.4703294725430033907e-22 then -a.log
  else if isNegative x then
    let t := sinTurn a
    if t == 0 then infinity else (pi / (t.abs * a)).log - logGammaPositive a
  else logGammaPositive a

end FormulaMachine.Special
