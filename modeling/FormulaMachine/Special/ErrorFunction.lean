import FormulaMachine.Special.Elementary

/-!
# The error function

`erf x = 2/√π · ∫₀ˣ exp (-t²) dt` and its complement `erfc x = 1 - erf x`, by rational approximation
on four intervals of the magnitude: below 0.84375, to 1.25, to 1/0.35, and beyond, where the factor
`exp (-x²)` is split so that it loses no digits.
-/

namespace FormulaMachine.Special

open FormulaMachine.Binary64

/-- `erf x / x - 1` for a magnitude below 0.84375, with `z = x²`. -/
def erfNearZero (z : Float) : Float :=
  polynomial [1.28379167095512558561e-01, -3.25042107247001499370e-01, -2.84817495755985104766e-02,
      -5.77027029648944159157e-03, -2.37630166566501626084e-05] z /
    polynomial [1, 3.97917223959155352819e-01, 6.50222499887672944485e-02,
      5.08130628187576562776e-03, 1.32494738004321644526e-04, -3.96022827877536812320e-06] z

/-- `erfc x` for `0.84375 ≤ x < 1.25`. -/
def erfcNearOne (x : Float) : Float :=
  let s := x - 1
  let p := polynomial [-2.36211856075265944077e-03, 4.14856118683748331666e-01,
    -3.72207876035701323847e-01, 3.18346619901161753674e-01, -1.10894694282396677476e-01,
    3.54783043256182359371e-02, -2.16637559486879084300e-03] s
  let q := polynomial [1, 1.06420880400844228286e-01, 5.40397917702171048937e-01,
    7.18286544141962662868e-02, 1.26171219808761642112e-01, 1.36370839120290507362e-02,
    1.19844998467991074170e-02] s
  1 - 8.45062911510467529297e-01 - p / q

/-- The correction in the exponent of `erfc x`, with `s = 1/x²`, for `1.25 ≤ x < 1/0.35`. -/
def erfcMiddle (s : Float) : Float :=
  polynomial [-9.86494403484714822705e-03, -6.93858572707181764372e-01, -1.05586262253232909814e+01,
      -6.23753324503260060396e+01, -1.62396669462573470355e+02, -1.84605092906711035994e+02,
      -8.12874355063065934246e+01, -9.81432934416914548592e+00] s /
    polynomial [1, 1.96512716674392571292e+01, 1.37657754143519042600e+02,
      4.34565877475229228821e+02, 6.45387271733267880336e+02, 4.29008140027567833386e+02,
      1.08635005541779435134e+02, 6.57024977031928170135e+00, -6.04244152148580987438e-02] s

/-- The correction in the exponent of `erfc x`, with `s = 1/x²`, for `1/0.35 ≤ x`. -/
def erfcTail (s : Float) : Float :=
  polynomial [-9.86494292470009928597e-03, -7.99283237680523006574e-01, -1.77579549177547519889e+01,
      -1.60636384855821916062e+02, -6.37566443368389627722e+02, -1.02509513161107724954e+03,
      -4.83519191608651397019e+02] s /
    polynomial [1, 3.03380607434824582924e+01, 3.25792512996573918826e+02,
      1.53672958608443695994e+03, 3.19985821950859553908e+03, 2.55305040643316442583e+03,
      4.74528541206955367215e+02, -2.24409524465858183362e+01] s

/-- `x` with the lower half of its bits cleared, so that its square is exact. -/
def upperHalf (x : Float) : Float := Float.ofBits (x.toBits &&& 0xFFFFFFFF00000000)

/-- `erfc x` for `0.84375 ≤ x < 28`. -/
def erfcPositive (x : Float) : Float :=
  if x < 1.25 then erfcNearOne x
  else
    let s := 1 / (x * x)
    let correction := if x < 2.8571414947509766 then erfcMiddle s else erfcTail s
    let z := upperHalf x
    (-z * z - 0.5625).exp * ((z - x) * (z + x) + correction).exp / x

def erf (x : Float) : Float :=
  let a := x.abs
  if x.isNaN then x
  else if a < 0.84375 then
    if a < 3.7252902984619140625e-09 then 0.125 * (8 * x + 1.02703333676410069053e+00 * x)
    else x + x * erfNearZero (x * x)
  else
    let y := if a < 6 then 1 - erfcPositive a else 1
    if isNegative x then -y else y

def erfc (x : Float) : Float :=
  let a := x.abs
  if x.isNaN then x
  else if a < 0.84375 then
    if a < 1.3877787807814456755e-17 then 1 - x
    else
      let y := erfNearZero (x * x)
      if x < 0.25 then 1 - (x + x * y) else 0.5 - (x - 0.5 + x * y)
  else if a < 28 then
    if isNegative x then 2 - erfcPositive a else erfcPositive a
  else if isNegative x then 2 else 0

end FormulaMachine.Special
