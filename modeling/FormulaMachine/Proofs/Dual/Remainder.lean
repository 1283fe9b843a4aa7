import FormulaMachine.Proofs.Binary64.DoubleRounding

/-!
# The quotient behind the slope of a remainder

A remainder takes a multiple `k · y` away from `x`, and its slope should take `k` times the slope of
`y` away. The value is computed exactly and does not know `k`, so the slope forms a quotient of its
own: it divides in doubles and rounds that to an integer. The two quotients differ where the double
nearest to `x / y` lies on the other side of the place where the integer changes.

* `quotient`: the quotient of the slope.
* **`quotient_of_remainders`**: the quotient of the value, and when that of the slope is the same.
* **`fmod_of_tenth`**: a remainder of which it is not.
-/

namespace FormulaMachine.Dual

open Binary64

/-- The quotient that the slope of a remainder is formed with: the double nearest to `a / b`, rounded
to an integer. -/
def quotient (dir : Direction) (a b : Dual Float) : Float := roundTo dir (a.val / b.val)

section

variable {a b : Dual Float} {x y : ℚ}

/-- The quotient of the slope rounds the exact quotient twice. -/
theorem value?_quotient {dir : Direction} {round : ℚ → ℤ} (hdir : dir.RoundsAs round)
    (ha : value? a.val = some x) (hb : value? b.val = some y) (hy : y ≠ 0)
    (hlt : |x / y| < 2 ^ 53) :
    value? (quotient dir a b) = some (round (nearest (x / y)) : ℚ) := by
  have hlarge : |nearest (x / y)| < 2 ^ 1024 :=
    lt_of_le_of_lt (abs_nearest_le hlt) (pow_lt_pow_right₀ one_lt_two (by norm_num))
  exact value?_roundTo hdir (value?_div ha hb hy hlarge)

/-- The quotient of the slope is a given integer if rounding twice gives that integer. -/
theorem value?_quotient_eq_iff {dir : Direction} {round : ℚ → ℤ} (hdir : dir.RoundsAs round)
    (ha : value? a.val = some x) (hb : value? b.val = some y) (hy : y ≠ 0)
    (hlt : |x / y| < 2 ^ 53) (k : ℤ) :
    value? (quotient dir a b) = some (k : ℚ) ↔ round (nearest (x / y)) = k := by
  rw [value?_quotient hdir ha hb hy hlt, Option.some_inj, Int.cast_inj]

/-- What is left of `x` after `k` times `y`, measured by `y`. -/
theorem abs_sub_mul_eq (hy : y ≠ 0) (k : ℤ) : |x - k * y| = |x / y - k| * |y| := by
  rw [← abs_mul, sub_mul, div_mul_cancel₀ _ hy]

/-- Less than one beside an integer below `2 ^ 53`, a value is below it as well. -/
theorem abs_lt_of_abs_sub_lt {v : ℚ} {k : ℤ} (hk : |k| < 2 ^ 53) (hv : |v - k| < 1) :
    |v| < 2 ^ 53 := by
  have hk' : |(k : ℚ)| + 1 ≤ 2 ^ 53 := mod_cast Int.add_one_le_iff.2 hk
  have htriangle := abs_add_le (v - k) k
  rw [sub_add_cancel] at htriangle
  linarith

/-- The quotient of the slope of `fmod` is the exact one if rounding twice makes no difference. The
condition is measured by `y`: what is missing to the next multiple, against half a unit of the last
place. -/
theorem value?_quotient_towardZero_iff (ha : value? a.val = some x) (hb : value? b.val = some y)
    (hy : y ≠ 0) (hk : |truncate (x / y)| < 2 ^ 53) :
    value? (quotient .towardZero a b) = some (truncate (x / y) : ℚ) ↔
      ulp (x / y) * |y| ≤ 2 * (|y| - |x - truncate (x / y) * y|) := by
  have hlt := abs_lt_of_abs_sub_lt hk (abs_sub_truncate_lt_one (x / y))
  rw [value?_quotient_eq_iff roundsAs_truncate ha hb hy hlt,
    truncate_nearest_eq_iff hlt (untied_div ha hb), abs_sub_mul_eq hy,
    ← mul_le_mul_iff_of_pos_right (abs_pos.2 hy)]
  constructor <;> intro h <;> linarith

/-- The quotient of the slope of `remainder` is the exact one if rounding twice makes no difference,
again measured by `y`. -/
theorem value?_quotient_halfEven_iff (ha : value? a.val = some x) (hb : value? b.val = some y)
    (hy : y ≠ 0) (hk : |halfEven (x / y)| < 2 ^ 53) :
    value? (quotient .halfEven a b) = some (halfEven (x / y) : ℚ) ↔
      Even (halfEven (x / y)) ∨ 1 ≤ ulp (x / y) ∨
        ulp (x / y) * |y| ≤ |y| - 2 * |x - halfEven (x / y) * y| := by
  have hlt := abs_lt_of_abs_sub_lt hk (lt_of_le_of_lt (abs_sub_halfEven_le (x / y)) (by norm_num))
  rw [value?_quotient_eq_iff roundsAs_halfEven ha hb hy hlt,
    halfEven_nearest_eq_iff hlt (untied_div ha hb), abs_sub_mul_eq hy,
    ← mul_le_mul_iff_of_pos_right (abs_pos.2 hy) (b := ulp (x / y))]
  refine or_congr_right (or_congr_right ?_)
  constructor <;> intro h <;> linarith

/-- A remainder of two finite duals is `x - k * y` exactly for an integer `k`, and its slope takes the
slope of `y` times `quotient`. Below `2^53` the quotient is `k` as well for `fmod` if what is missing
to the next multiple of `y` is half a unit in the last place of `x / y` or more, and for `remainder` if
`k` is even, or the last place is that of the units, or what is left is that much nearer than half of
`y`. -/
theorem quotient_of_remainders (ha : value? a.val = some x) (hb : value? b.val = some y)
    (hy : y ≠ 0) :
    (∃ (k : ℤ) (z : ℚ), value? (a.fmod b).val = some z ∧ x - z = k * y ∧
      (a.fmod b).eps = a.eps - quotient .towardZero a b * b.eps ∧
      (|k| < 2 ^ 53 →
        (value? (quotient .towardZero a b) = some (k : ℚ) ↔
          ulp (x / y) * |y| ≤ 2 * (|y| - |z|)))) ∧
    (∃ (k : ℤ) (z : ℚ), value? (a.remainder b).val = some z ∧ x - z = k * y ∧
      (a.remainder b).eps = a.eps - quotient .halfEven a b * b.eps ∧
      (|k| < 2 ^ 53 →
        (value? (quotient .halfEven a b) = some (k : ℚ) ↔
          Even k ∨ 1 ≤ ulp (x / y) ∨ ulp (x / y) * |y| ≤ |y| - 2 * |z|))) := by
  constructor
  -- the integer is the exact quotient, rounded to zero for the one and to the nearest for the other
  · exact ⟨truncate (x / y), _, value?_truncatedRemainder ha hb hy, sub_sub_cancel _ _, rfl,
      value?_quotient_towardZero_iff ha hb hy⟩
  · exact ⟨halfEven (x / y), _, value?_nearestRemainder ha hb hy, sub_sub_cancel _ _, rfl,
      value?_quotient_halfEven_iff ha hb hy⟩

end

/-- Three goes twice into seven, with one left over. In doubles the quotient is rounded, and then its
fraction is cut off. -/
theorem quotient_of_remainders_of_seven :
    value? 7 = some 7 ∧ value? 3 = some 3 ∧
      ∃ (k : ℤ) (z : ℚ), value? ((⟨7, 0⟩ : Dual Float).fmod ⟨3, 1⟩).val = some z ∧
        7 - z = k * 3 ∧
        ((⟨7, 0⟩ : Dual Float).fmod ⟨3, 1⟩).eps = 0 - quotient .towardZero ⟨7, 0⟩ ⟨3, 1⟩ * 1 ∧
        (|k| < 2 ^ 53 →
          (value? (quotient .towardZero ⟨7, 0⟩ ⟨3, 1⟩) = some (k : ℚ) ↔
            ulp (7 / 3) * |3| ≤ 2 * (|3| - |z|))) := by
  have hseven : value? 7 = some 7 := by decide +kernel
  have hthree : value? 3 = some 3 := by decide +kernel
  have hquotients := @quotient_of_remainders ⟨7, 0⟩ ⟨3, 1⟩ 7 3 hseven hthree (by norm_num)
  exact ⟨hseven, hthree, hquotients.1⟩

/-- The double written `0.1` lies above a tenth, so it goes nine times into one. In doubles the
quotient is ten, and the slope is `-10` rather than `-9`. -/
theorem fmod_of_tenth :
    let a : Dual Float := ⟨1, 0⟩
    let b : Dual Float := ⟨0.1, 1⟩
    ∃ y z : ℚ, value? a.val = some 1 ∧ value? b.val = some y ∧ y ≠ 0 ∧
      value? (a.fmod b).val = some z ∧ 1 - z = 9 * y ∧ (a.fmod b).eps = -10 ∧
      ¬ SameNumber (a.fmod b).eps (a.eps - 9 * b.eps) := by
  intro a b
  -- the double written `0.1`, and what is left of one after nine of it
  refine ⟨3602879701896397 / 36028797018963968, 3602879701896395 / 36028797018963968, ?_, ?_, ?_,
    ?_, ?_, ?_, ?_⟩
  · decide +kernel
  · decide +kernel
  · norm_num
  · decide +kernel
  · norm_num
  · decide +kernel
  · decide +kernel

end FormulaMachine.Dual
