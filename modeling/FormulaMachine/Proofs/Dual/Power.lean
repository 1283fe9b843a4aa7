import FormulaMachine.Dual.Binary64
import FormulaMachine.Proofs.Dual.Field

/-!
# Powers with an integer exponent

A power with an integer exponent is a product, and below zero the reciprocal of one. On dual numbers
it is not multiplied out: the value is a power of the value, and the slope follows the power rule
`n · x ^ (n - 1)`. Exponents have 32 bits. One of them has no exponent that is one less, and there the
subtraction goes round to the greatest exponent.

* `Dual.product`, `Dual.productPow`: powers by multiplication.
* `Dual.powerRule`: value and slope by the power rule.
* **`product_eq`**, **`productPow_eq`**: the power rule follows from the product rule and the rule for
  reciprocals.
* **`powInt_eq_productPow_iff`**: when a power is what multiplication gives.
* **`powInt_of_least_exponent`**: a power that is not.
-/

namespace FormulaMachine.Dual

open Elementary

/-! ## Powers by multiplication -/

section

variable {ρ : Type} [Analytic ρ]

/-- The product of `n` factors `d`. -/
def product (d : Dual ρ) : ℕ → Dual ρ
  | 0 => constant (Analytic.ofInt 1)
  | n + 1 => d.product n * d

/-- The product of as many factors as the exponent says, or its reciprocal below zero. -/
def productPow (d : Dual ρ) (n : ℤ) : Dual ρ :=
  if n < 0 then (d.product n.natAbs).recip else d.product n.natAbs

end

/-! ## The power rule -/

/-- The power of the value with the exponent `n`, and the slope that the power rule gives where `m` is
one less than `n`. -/
def powerRule {ρ : Type} [Field ρ] (d : Dual ρ) (n m : ℤ) : Dual ρ :=
  ⟨d.val ^ n, n * d.val ^ m * d.eps⟩

variable {ρ : Type} [Field ρ] [LinearOrder ρ] [Elementary ρ]

/-- The rule for reciprocals is the power rule with the exponent minus one. -/
theorem recip_eq (d : Dual ρ) : d.recip = d.powerRule (-1) (-2) := by
  have hone : (Analytic.ofInt 1 : ρ) / d.val = d.val⁻¹ := by
    show ((1 : ℤ) : ρ) / d.val = _
    rw [Int.cast_one, one_div]
  have hsquare : -d.val⁻¹ * d.val⁻¹ = ((-1 : ℤ) : ρ) * d.val ^ (-2 : ℤ) := by
    rw [zpow_neg, zpow_ofNat, pow_two, mul_inv, Int.cast_neg, Int.cast_one, neg_mul, neg_one_mul]
  rw [recip, chain, hone, powerRule, zpow_neg_one]
  exact congrArg (fun slope => (⟨_, slope * d.eps⟩ : Dual ρ)) hsquare

/-- By the product rule, every further factor adds one to the exponent and one term to the slope. -/
theorem product_eq (d : Dual ρ) (n : ℕ) : d.product n = d.powerRule n (n - 1) := by
  induction n with
  | zero =>
    show (⟨((1 : ℤ) : ρ), 0⟩ : Dual ρ) = _
    simp [powerRule]
  | succ n ih =>
    -- without factors there is no slope, so that no negative exponent comes in
    have hslope : (n : ρ) * d.val ^ ((n : ℤ) - 1) * d.val = n * d.val ^ n := by
      cases n with
      | zero => simp
      | succ n =>
        have hpred : ((n + 1 : ℕ) : ℤ) - 1 = n := by omega
        rw [hpred, zpow_natCast, pow_succ, mul_assoc]
    have hsucc : ((n + 1 : ℕ) : ℤ) - 1 = n := by omega
    rw [product, ih, mul_def, powerRule, powerRule, hsucc, zpow_natCast, zpow_natCast, ← pow_succ]
    congr 1
    push_cast
    linear_combination d.eps * hslope

/-- The power rule for every integer exponent. -/
theorem productPow_eq (d : Dual ρ) {n : ℤ} (hn : n < 0 → d.val ≠ 0) :
    d.productPow n = d.powerRule n (n - 1) := by
  rw [productPow]
  obtain hneg | hnonneg := lt_or_ge n 0
  -- the reciprocal of a product of at least one factor
  · obtain ⟨k, rfl⟩ : ∃ k : ℕ, n = -(k + 1 : ℕ) := ⟨(-n - 1).toNat, by omega⟩
    have hval := hn hneg
    have hpred : ((k + 1 : ℕ) : ℤ) - 1 = k := by omega
    have hless : (-((k + 1 : ℕ) : ℤ) - 1) = -((k + 2 : ℕ) : ℤ) := by omega
    rw [if_pos hneg, Int.natAbs_neg, Int.natAbs_natCast, product_eq, recip_eq, powerRule, powerRule,
      powerRule, hpred, hless]
    simp only [zpow_neg, zpow_natCast, zpow_ofNat, pow_one]
    congr 1
    push_cast
    field_simp
    ring
  · obtain ⟨k, rfl⟩ := Int.eq_ofNat_of_zero_le hnonneg
    rw [if_neg (not_lt.2 hnonneg), Int.natAbs_natCast, product_eq]

/-! ## Exponents in 32 bits -/

/-- Of every exponent but the least one there is another that is one less. -/
theorem toInt_sub_one_eq_iff (n : Int32) : (n - 1).toInt = n.toInt - 1 ↔ n ≠ Int32.minValue := by
  have hlow := n.le_toInt
  have hhigh := n.toInt_lt
  have hone : (1 : Int32).toInt = 1 := rfl
  have hleast : n = Int32.minValue ↔ n.toInt = -2 ^ 31 := by
    rw [← Int32.toInt_inj, Int32.toInt_minValue]
  rw [Int32.toInt_sub, hone, ne_eq, hleast, Int.bmod_def]
  norm_num at hlow hhigh ⊢
  omega

/-- Below the least exponent comes the greatest one. -/
theorem toInt_minValue_sub_one : (Int32.minValue - 1).toInt = 2 ^ 31 - 1 := by decide

/-! ## When the power rule agrees with multiplication -/

omit [Elementary ρ] in
/-- Powers with exponents that are an even number apart are equal for one and minus one only. -/
theorem zpow_eq_zpow_iff_of_sub_eq [IsStrictOrderedRing ρ] {x : ρ} (hx : x ≠ 0) {i j : ℤ} {k : ℕ}
    (hk : k ≠ 0) (heven : Even k) (h : i - j = k) : x ^ i = x ^ j ↔ |x| = 1 := by
  rw [← div_eq_one_iff_eq (zpow_ne_zero j hx), ← zpow_sub₀ hx, h, zpow_natCast,
    pow_eq_one_iff_of_ne_zero hk, abs_eq zero_le_one, and_iff_left heven]

section

variable (hexact : ∀ (x : ρ) (n : Int32), Elementary.powInt x n = x ^ n.toInt)

include hexact in
/-- A power of a dual number follows the power rule, with the exponent below as 32 bits have it. For
the exponent zero the slope is zero, as the rule says, too. -/
theorem powInt_eq (d : Dual ρ) (n : Int32) :
    d.powInt n = d.powerRule n.toInt (n - 1).toInt := by
  have hslope : (if n = 0 then (0 : ρ) else n.toInt * Elementary.powInt d.val (n - 1)) =
      n.toInt * d.val ^ (n - 1).toInt := by
    split
    · next hzero => simp [hzero]
    · rw [hexact]
  show (⟨Elementary.powInt d.val n, _ * d.eps⟩ : Dual ρ) = _
  rw [hexact]
  exact congrArg (fun slope => (⟨_, slope * d.eps⟩ : Dual ρ)) hslope

variable [IsStrictOrderedRing ρ]

include hexact in
/-- With the least exponent the slope has the greatest power in place of a reciprocal. -/
theorem powInt_minValue_eq_iff {d : Dual ρ} (hval : d.val ≠ 0) :
    d.powInt Int32.minValue = d.productPow Int32.minValue.toInt ↔ d.eps = 0 ∨ |d.val| = 1 := by
  have hne : ((Int32.minValue.toInt : ℤ) : ρ) ≠ 0 := by
    rw [Int32.toInt_minValue]
    norm_num
  -- the two exponents lie `2 ^ 32` apart, which is even
  have hdistance : (Int32.minValue - 1).toInt - (Int32.minValue.toInt - 1) = (2 ^ 32 : ℕ) := by
    rw [toInt_minValue_sub_one, Int32.toInt_minValue]
    norm_num
  rw [powInt_eq hexact, productPow_eq d fun _ => hval, powerRule, powerRule, Dual.mk.injEq,
    and_iff_right rfl,
    mul_eq_mul_right_iff, mul_right_inj' hne,
    zpow_eq_zpow_iff_of_sub_eq hval (by norm_num) (by decide) hdistance, or_comm]

/-- Where powers of values are exact, the power of a dual number has the value that multiplication
gives. Its slope is the one that multiplication gives as well, for every exponent but the least: with
that one only if there is no slope or the value is one or minus one. It is the only exponent of which
there is none that is one less. -/
theorem powInt_eq_productPow_iff
    (hexact : ∀ (x : ρ) (n : Int32), Elementary.powInt x n = x ^ n.toInt) (d : Dual ρ) (n : Int32)
    (hn : n < 0 → d.val ≠ 0) :
    (d.powInt n).val = (d.productPow n.toInt).val ∧
      (d.powInt n = d.productPow n.toInt ↔
        n ≠ Int32.minValue ∨ d.eps = 0 ∨ |d.val| = 1) ∧
      ((n - 1).toInt = n.toInt - 1 ↔ n ≠ Int32.minValue) := by
  have hn' : n.toInt < 0 → d.val ≠ 0 := fun h => hn (Int32.lt_iff_toInt_lt.2 h)
  refine ⟨by rw [powInt_eq hexact, productPow_eq d hn', powerRule, powerRule], ?_,
    toInt_sub_one_eq_iff n⟩
  obtain rfl | hleast := eq_or_ne n Int32.minValue
  · rw [powInt_minValue_eq_iff hexact (hn (by decide)), or_iff_right (not_not.2 rfl)]
  · refine iff_of_true ?_ (.inl hleast)
    rw [powInt_eq hexact, productPow_eq d hn', (toInt_sub_one_eq_iff n).2 hleast]

end

/-- The reciprocal of the square of three with slope one: a ninth, and `-2/27` as the slope. -/
theorem powInt_eq_productPow_of_inverse_square :
    let d : Dual ℚ := ⟨3, 1⟩
    d.val ≠ 0 ∧ d.powInt (-2) = d.productPow (-2) ∧ (d.productPow (-2)) = ⟨1 / 9, -2 / 27⟩ := by
  intro d
  have hval : d.val ≠ 0 := by norm_num [d]
  obtain ⟨-, hpower, -⟩ := powInt_eq_productPow_iff (fun _ _ => rfl) d (-2) fun _ => hval
  refine ⟨hval, hpower.2 (.inl (by decide)), ?_⟩
  rw [productPow_eq d fun _ => hval, powerRule]
  norm_num [d]

/-- With the least exponent a value just below one has a large power, and by multiplication a slope
beyond `-2^31`. The power rule takes the greatest power instead, which is small, and so is the slope:
over the rationals, and with the same numbers as doubles. -/
theorem powInt_of_least_exponent :
    let d : Dual ℚ := ⟨9999999999 / 10000000000, 1⟩
    (d.productPow Int32.minValue.toInt).eps < -2147483648 ∧
      -2147483648 < (d.powInt Int32.minValue).eps ∧
      (Int32.minValue - 1).toInt ≠ Int32.minValue.toInt - 1 ∧
      -2147483648 < ((⟨0.9999999999, 1⟩ : Dual Float).powInt Int32.minValue).eps := by
  intro d
  have hpos : 0 < d.val := by norm_num [d]
  have hlt : d.val < 1 := by norm_num [d]
  have hslope (x : ℚ) : (Int32.minValue.toInt : ℚ) * x * d.eps = -2147483648 * x := by
    rw [Int32.toInt_minValue]
    norm_num [d]
  refine ⟨?_, ?_, by decide, by decide +kernel⟩
  -- multiplied out, the exponent is negative, and the power exceeds one
  · have hlarge : 1 < d.val ^ (Int32.minValue.toInt - 1) :=
      one_lt_zpow_of_neg₀ hpos hlt (by decide)
    rw [productPow_eq d fun _ => hpos.ne', powerRule, hslope]
    linarith
  -- by the rule it has gone round to a positive one
  · have hsmall : d.val ^ (Int32.minValue - 1).toInt < 1 := zpow_lt_one₀ hpos hlt (by decide)
    rw [powInt_eq (fun _ _ => rfl), powerRule, hslope]
    linarith

end FormulaMachine.Dual
