import FormulaMachine.Proofs.Binary64.Value

/-!
# The double nearest to a rational

A rational is rounded to a double by rounding the number of its units in the last place. The unit
is `2^-52` of the power of two below the value, but not less than the smallest double.

* `ulp`, `nearest`: the unit in the last place, and the value rounded to a multiple of it.
* **`intCast_le_nearest`**, **`nearest_le_intCast`**: rounding does not go past an integer.
* **`nearest_of_scaled`**: what is a double already is not moved.
-/

namespace FormulaMachine.Binary64

/-- The exponent of the unit in the last place of `x`. -/
def lastPlace (x : ℚ) : ℤ := max (Int.log 2 |x| - 52) (-1074)

/-- The unit in the last place of `x`. -/
def ulp (x : ℚ) : ℚ := 2 ^ lastPlace x

/-- The double nearest to `x`, a tie going to the even one, as long as it is not too large. -/
def nearest (x : ℚ) : ℚ := halfEven (x / ulp x) * ulp x

section

variable {x : ℚ}

theorem ulp_pos (x : ℚ) : 0 < ulp x := zpow_pos two_pos _

@[simp] theorem lastPlace_neg (x : ℚ) : lastPlace (-x) = lastPlace x := by
  rw [lastPlace, abs_neg, lastPlace]

@[simp] theorem ulp_neg (x : ℚ) : ulp (-x) = ulp x := by
  rw [ulp, lastPlace_neg, ulp]

@[simp] theorem ulp_abs (x : ℚ) : ulp |x| = ulp x := by
  rw [ulp, lastPlace, abs_abs, ulp, lastPlace]

@[simp] theorem nearest_zero : nearest 0 = 0 := by
  rw [nearest, zero_div, halfEven_zero, Int.cast_zero, zero_mul]

/-- Rounding to a double is odd, since the last place depends on the absolute value. -/
theorem nearest_neg (x : ℚ) : nearest (-x) = -nearest x := by
  rw [nearest, ulp_neg, neg_div, halfEven_neg, Int.cast_neg, neg_mul, nearest]

theorem nearest_nonneg (h : 0 ≤ x) : 0 ≤ nearest x :=
  mul_nonneg (mod_cast halfEven_nonneg (div_nonneg h (ulp_pos x).le)) (ulp_pos x).le

/-- No last place is below that of the smallest double. -/
theorem le_lastPlace (x : ℚ) : -1074 ≤ lastPlace x := le_max_right _ _

/-- What lies below `2^k` has its last place 53 places lower, or is subnormal. -/
theorem lastPlace_le (hx : x ≠ 0) {k : ℤ} (h : |x| < 2 ^ k) :
    lastPlace x ≤ max (k - 53) (-1074) := by
  have hlog : Int.log 2 |x| < k := (Int.lt_zpow_iff_log_lt one_lt_two (abs_pos.2 hx)).1 (mod_cast h)
  rw [lastPlace]
  omega

/-- What lies at `2^k` or above has its last place at least 52 places lower. -/
theorem le_lastPlace_of_le (hx : x ≠ 0) {k : ℤ} (h : 2 ^ k ≤ |x|) : k - 52 ≤ lastPlace x := by
  have hlog : k ≤ Int.log 2 |x| := (Int.zpow_le_iff_le_log one_lt_two (abs_pos.2 hx)).1 (mod_cast h)
  rw [lastPlace]
  omega

/-- Measured in units of its last place, a value has at most 53 binary digits before the point. -/
theorem div_ulp_lt (hx : 0 < x) : x / ulp x < 2 ^ 53 := by
  have hlog : x < 2 ^ (Int.log 2 x + 1) := mod_cast Int.lt_zpow_succ_log_self one_lt_two x
  -- the leading digit is at most 52 places above the last one
  have hplace : Int.log 2 x + 1 ≤ 53 + lastPlace x := by
    rw [lastPlace, abs_of_pos hx]
    omega
  rw [div_lt_iff₀ (ulp_pos x), ulp]
  calc x < 2 ^ (Int.log 2 x + 1) := hlog
    _ ≤ 2 ^ (53 + lastPlace x) := zpow_le_zpow_right₀ one_le_two hplace
    _ = 2 ^ 53 * 2 ^ lastPlace x := by rw [zpow_add₀ two_ne_zero]; norm_cast

/-- It has exactly 53 of them, unless the value is subnormal. -/
theorem le_div_ulp (hx : 0 < x) : lastPlace x = -1074 ∨ 2 ^ 52 ≤ x / ulp x := by
  have hlog : (2 : ℚ) ^ Int.log 2 x ≤ x := mod_cast Int.zpow_log_le_self one_lt_two hx
  obtain hplace | hplace := max_choice (Int.log 2 |x| - 52) (-1074)
  · right
    rw [abs_of_pos hx] at hplace
    rw [le_div_iff₀ (ulp_pos x), ulp, lastPlace, abs_of_pos hx, hplace]
    calc (2 : ℚ) ^ 52 * 2 ^ (Int.log 2 x - 52) = 2 ^ Int.log 2 x := by
          rw [← zpow_natCast, ← zpow_add₀ two_ne_zero]
          congr 1
          omega
      _ ≤ x := hlog
  · exact .inl hplace

/-- In particular for a value that is not below a half. -/
theorem le_abs_div_ulp (h : 1 / 2 ≤ |x|) : 2 ^ 52 ≤ |x| / ulp x := by
  have hpos : 0 < |x| := lt_of_lt_of_le (by norm_num) h
  have hle : (2 : ℚ) ^ (-1 : ℤ) ≤ |(|x|)| := by
    rw [abs_abs, zpow_neg_one, ← one_div]
    exact h
  have hplace := le_lastPlace_of_le hpos.ne' hle
  rw [← ulp_abs]
  exact (le_div_ulp hpos).resolve_left (by omega)

/-- After rounding there may be one digit more, but then the value is a power of two. -/
theorem halfEven_div_ulp_le (hx : 0 < x) : halfEven (x / ulp x) ≤ 2 ^ 53 := by
  have hle : x / ulp x ≤ (2 ^ 53 : ℤ) := mod_cast (div_ulp_lt hx).le
  simpa only [halfEven_intCast] using halfEven_mono hle

/-- Rounding does not take the leading digit away. -/
theorem le_halfEven_div_ulp (hx : 0 < x) :
    lastPlace x = -1074 ∨ 2 ^ 52 ≤ halfEven (x / ulp x) := by
  refine (le_div_ulp hx).imp_right fun hle => ?_
  have hle' : ((2 ^ 52 : ℤ) : ℚ) ≤ x / ulp x := mod_cast hle
  simpa only [halfEven_intCast] using halfEven_mono hle'

/-- Below `2^53` a unit is a whole number of last places. -/
theorem exists_mul_ulp_eq_one (h : |x| < 2 ^ 53) : ∃ k : ℕ, ((2 ^ k : ℕ) : ℚ) * ulp x = 1 := by
  have hplace : lastPlace x ≤ 0 := by
    obtain rfl | hx := eq_or_ne x 0
    · simp [lastPlace]
    · exact lastPlace_le hx (show |x| < 2 ^ (53 : ℤ) from mod_cast h)
  -- then the last place is a negative power of two, and its inverse is a natural number
  refine ⟨(-lastPlace x).toNat, ?_⟩
  push_cast
  rw [ulp, ← zpow_natCast, ← zpow_add₀ two_ne_zero, Int.toNat_of_nonneg (by omega), neg_add_cancel,
    zpow_zero]

/-- Below `2^53` the last place is at most that of the ones. -/
theorem ulp_le_one (h : |x| < 2 ^ 53) : ulp x ≤ 1 := by
  obtain ⟨k, hk⟩ := exists_mul_ulp_eq_one h
  rw [← hk]
  exact le_mul_of_one_le_left (ulp_pos x).le (mod_cast Nat.one_le_two_pow)

/-- A multiple of the last place that is not above a value is not above the double nearest to it. -/
theorem mul_ulp_le_nearest {n : ℤ} (h : n * ulp x ≤ x) : n * ulp x ≤ nearest x := by
  -- counted in last places, `n` is an integer, which rounding keeps
  have hmono := halfEven_mono ((le_div_iff₀ (ulp_pos x)).2 h)
  rw [halfEven_intCast] at hmono
  exact mul_le_mul_of_nonneg_right (mod_cast hmono) (ulp_pos x).le

/-- A multiple of the last place that is not below the value is not below the rounded one. -/
theorem nearest_le_mul_ulp {n : ℤ} (h : x ≤ n * ulp x) : nearest x ≤ n * ulp x := by
  have hmono := halfEven_mono ((div_le_iff₀ (ulp_pos x)).2 h)
  rw [halfEven_intCast] at hmono
  exact mul_le_mul_of_nonneg_right (mod_cast hmono) (ulp_pos x).le

/-- Below `2^53` an integer is a whole number of last places. -/
theorem exists_mul_ulp_eq (h : |x| < 2 ^ 53) (n : ℤ) : ∃ k : ℤ, k * ulp x = n := by
  obtain ⟨k, hk⟩ := exists_mul_ulp_eq_one h
  refine ⟨n * (2 ^ k : ℕ), ?_⟩
  rw [Int.cast_mul, mul_assoc, Int.cast_natCast, hk, mul_one]

/-- Below `2^53` the integers are multiples of the last place. -/
theorem intCast_le_nearest {n : ℤ} (hlt : |x| < 2 ^ 53) (h : n ≤ x) : n ≤ nearest x := by
  obtain ⟨k, hk⟩ := exists_mul_ulp_eq hlt n
  rw [← hk] at h ⊢
  exact mul_ulp_le_nearest h

/-- An integer that is not below the value is not below the rounded one. -/
theorem nearest_le_intCast {n : ℤ} (hlt : |x| < 2 ^ 53) (h : x ≤ n) : nearest x ≤ n := by
  obtain ⟨k, hk⟩ := exists_mul_ulp_eq hlt n
  rw [← hk] at h ⊢
  exact nearest_le_mul_ulp h

/-- Below `2^53` rounding does not go past it. -/
theorem abs_nearest_le (h : |x| < 2 ^ 53) : |nearest x| ≤ 2 ^ 53 := by
  obtain ⟨hlow, hhigh⟩ := abs_lt.1 h
  have hbelow : ((-2 ^ 53 : ℤ) : ℚ) ≤ nearest x := intCast_le_nearest h (mod_cast hlow.le)
  have habove : nearest x ≤ ((2 ^ 53 : ℤ) : ℚ) := nearest_le_intCast h (mod_cast hhigh.le)
  exact abs_le.2 ⟨mod_cast hbelow, mod_cast habove⟩

/-- What is an integer below `2^53` times a power of two, not less than the smallest one, is a
double already. -/
theorem nearest_of_scaled {n : ℤ} {e : ℤ} (hn : |n| < 2 ^ 53) (he : -1074 ≤ e) :
    nearest (n * 2 ^ e) = n * 2 ^ e := by
  obtain rfl | hn0 := eq_or_ne n 0
  · simp
  have hx : (n : ℚ) * 2 ^ e ≠ 0 := mul_ne_zero (mod_cast hn0) (zpow_pos two_pos e).ne'
  have hlt : |(n : ℚ) * 2 ^ e| < 2 ^ (53 + e) := by
    rw [abs_mul, abs_of_pos (zpow_pos (two_pos : (0 : ℚ) < 2) e), zpow_add₀ two_ne_zero]
    exact mul_lt_mul_of_pos_right (mod_cast hn) (zpow_pos two_pos e)
  -- a short enough significand has its last place at its exponent or further down
  have hplace : lastPlace (n * 2 ^ e) ≤ e := by
    have := lastPlace_le hx hlt
    omega
  obtain ⟨k, hk⟩ := Int.eq_ofNat_of_zero_le (sub_nonneg.2 hplace)
  -- measured in units of the last place the value is an integer
  have hscaled : (n : ℚ) * 2 ^ e / ulp (n * 2 ^ e) = (n * 2 ^ k : ℤ) := by
    rw [ulp, mul_div_assoc, ← zpow_sub₀ two_ne_zero, hk]
    push_cast
    rw [zpow_natCast]
  rw [nearest, hscaled, halfEven_intCast, ← hscaled, div_mul_cancel₀ _ (ulp_pos _).ne']

/-- The value of a double is rounded to itself. -/
theorem nearest_of_value? {a : Float} (ha : value? a = some x) : nearest x = x := by
  obtain ⟨s, -, rfl⟩ | ⟨s, m, e, h, hunpack, rfl⟩ := exists_of_value? ha
  · exact nearest_zero
  · have hcanonical := canonical_of_unpack hunpack
    -- a finite double is such a significand times such a power
    have hm : |s.apply m| < 2 ^ 53 := by
      rw [abs_apply, Nat.abs_cast]
      exact_mod_cast hcanonical.significand_lt
    exact nearest_of_scaled hm hcanonical.le_exponent

end

end FormulaMachine.Binary64
