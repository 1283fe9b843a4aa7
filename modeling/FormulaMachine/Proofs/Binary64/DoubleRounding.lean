import FormulaMachine.Proofs.Binary64.Quotient

/-!
# Rounding a quotient twice

The integer next to a quotient can be taken of the exact quotient or of the double nearest to it.
Both are the same unless the exact quotient is less than half a unit in its last place away from
where the integer changes. On the half unit itself there is no quotient of doubles: its significand
would need one digit more than the numerator has.

* **`untied_div`**: a quotient of doubles does not lie halfway between two doubles.
* **`truncate_nearest_eq_iff`**, **`halfEven_nearest_eq_iff`**: when rounding twice makes no
  difference.
-/

namespace FormulaMachine.Binary64

/-! ## No quotient lies halfway between two doubles -/

/-- A value that does not lie halfway between two doubles. -/
def Untied (x : ℚ) : Prop := ∀ n : ℤ, (n : ℚ) ≠ x / ulp x + 1 / 2

/-- With a value, its negation is not halfway between two doubles, either. -/
theorem Untied.neg {x : ℚ} (h : Untied x) : Untied (-x) := by
  intro n hn
  rw [ulp_neg, neg_div] at hn
  refine h (1 - n) ?_
  push_cast
  linarith

/-- An odd factor of a number is a factor of it without its powers of two. -/
theorem le_of_odd_of_mul_zpow {k p q : ℕ} {i j : ℤ} (hk : Odd k) (hq : 0 < q)
    (h : (k * p : ℚ) * 2 ^ i = q * 2 ^ j) : k ≤ q := by
  have hpow : (k * p : ℚ) * 2 ^ (i - min i j).toNat = q * 2 ^ (j - min i j).toNat := by
    have hunit : (2 : ℚ) ^ min i j ≠ 0 := (zpow_pos two_pos _).ne'
    rw [← zpow_natCast, ← zpow_natCast, Int.toNat_of_nonneg (by omega), Int.toNat_of_nonneg (by omega),
      zpow_sub₀ two_ne_zero, zpow_sub₀ two_ne_zero, ← mul_div_assoc, ← mul_div_assoc, h]
  have hnat : k * p * 2 ^ (i - min i j).toNat = q * 2 ^ (j - min i j).toNat := mod_cast hpow
  have hdvd : k ∣ q * 2 ^ (j - min i j).toNat :=
    ⟨p * 2 ^ (i - min i j).toNat, by rw [← hnat, mul_assoc]⟩
  have hcoprime : Nat.Coprime k (2 ^ (j - min i j).toNat) := (Nat.coprime_two_right.2 hk).pow_right _
  exact Nat.le_of_dvd hq (hcoprime.dvd_of_dvd_mul_right hdvd)

/-- Halfway between two doubles there is no quotient of doubles: the numerator would have to be a
multiple of an odd number with 54 digits. -/
theorem untied_div {a b : Float} {x y : ℚ} (ha : value? a = some x) (hb : value? b = some y)
    (hlarge : 1 / 2 ≤ |x / y|) : Untied (x / y) := by
  intro n h
  obtain ⟨m, e, hm, hx⟩ := exists_scaled_of_value? ha
  obtain ⟨m', e', -, hy⟩ := exists_scaled_of_value? hb
  have hne : x / y ≠ 0 := fun h0 => by norm_num [h0] at hlarge
  have hy0 : 0 < |y| := abs_pos.2 fun h0 => hne (by rw [h0, div_zero])
  have hodd : Odd (2 * n - 1).natAbs := Int.natAbs_odd.2 ⟨n - 1, by ring⟩
  have hscaled : ((2 * n - 1).natAbs : ℚ) * ulp (x / y) = 2 * |x / y| := by
    have hdouble : ((2 * n - 1 : ℤ) : ℚ) = 2 * (x / y / ulp (x / y)) := by
      push_cast
      linarith
    rw [Nat.cast_natAbs, Int.cast_abs, hdouble, abs_mul, abs_div, abs_of_pos (ulp_pos _), abs_two,
      mul_assoc, div_mul_cancel₀ _ (ulp_pos _).ne']
  -- halfway, twice the quotient is an odd number of units, of 54 digits at least
  have hmin : 2 ^ 53 ≤ (2 * n - 1).natAbs := by
    have hdigits := le_abs_div_ulp hlarge
    rw [le_div_iff₀ (ulp_pos _)] at hdigits
    have hle : (2 ^ 53 : ℚ) * ulp (x / y) ≤ (2 * n - 1).natAbs * ulp (x / y) := by linarith
    exact_mod_cast le_of_mul_le_mul_right hle (ulp_pos _)
  have hpos : 0 < m := by
    refine Nat.pos_of_ne_zero fun h0 => hne ?_
    rw [h0, Nat.cast_zero, zero_mul, abs_eq_zero] at hx
    rw [hx, zero_div]
  -- multiplied by the denominator it is twice the numerator, so it is a factor of the numerator's
  -- significand, which has 53
  have hle : (2 * n - 1).natAbs ≤ m := by
    refine le_of_odd_of_mul_zpow (p := m') (i := lastPlace (x / y) + e') (j := 1 + e) hodd hpos ?_
    rw [zpow_add₀ two_ne_zero, zpow_add₀ two_ne_zero, zpow_one]
    calc _ = (2 * n - 1).natAbs * ulp (x / y) * (m' * 2 ^ e') := by rw [ulp]; ring
      _ = 2 * |x| := by rw [hscaled, ← hy, abs_div, mul_assoc, div_mul_cancel₀ _ hy0.ne']
      _ = m * (2 * 2 ^ e) := by rw [hx]; ring
  omega

/-! ## When rounding twice makes no difference -/

section

variable {x : ℚ} {n : ℤ}

/-- A multiple of the last place is reached by the values that are less than half a unit below
it. -/
theorem nearest_lt_mul_ulp_iff (hne : (n : ℚ) ≠ x / ulp x + 1 / 2) :
    nearest x < n * ulp x ↔ x + ulp x / 2 ≤ n * ulp x := by
  rw [nearest, mul_lt_mul_iff_of_pos_right (ulp_pos x), Int.cast_lt, ← not_le, le_halfEven_iff,
    or_iff_left fun h => hne h.1, not_lt, ← mul_le_mul_iff_of_pos_right (ulp_pos x), add_mul,
    div_mul_cancel₀ _ (ulp_pos x).ne', one_div_mul_eq_div]

/-- From above, a multiple of the last place is reached by the values that are up to half a unit
above it. -/
theorem mul_ulp_lt_nearest_iff (hx : Untied x) :
    n * ulp x < nearest x ↔ n * ulp x + ulp x / 2 ≤ x := by
  have hneg := nearest_lt_mul_ulp_iff (hx.neg (-n))
  rw [nearest_neg, ulp_neg, Int.cast_neg, neg_mul, neg_lt_neg_iff] at hneg
  rw [hneg]
  constructor <;> intro h <;> linarith

/-- For values that are not negative. Rounding does not go below the integer that the value has
reached, so the floor can only change upwards, and it does if the next integer is less than half a
unit away. -/
theorem floor_nearest_eq_iff (h0 : 0 ≤ x) (hlt : x < 2 ^ 53) (hx : 1 / 2 ≤ x → Untied x) :
    ⌊nearest x⌋ = ⌊x⌋ ↔ ulp x ≤ 2 * (⌊x⌋ + 1 - x) := by
  have habs : |x| < 2 ^ 53 := by rwa [abs_of_nonneg h0]
  obtain ⟨k, hk⟩ := exists_mul_ulp_eq_one habs
  have hgrid (c : ℤ) : ((c * (2 ^ k : ℕ) : ℤ) : ℚ) * ulp x = c := by
    rw [Int.cast_mul, mul_assoc, Int.cast_natCast, hk, mul_one]
  have hbelow : (⌊x⌋ : ℚ) ≤ nearest x := intCast_le_nearest habs (Int.floor_le x)
  -- a tie at the next integer would be one in the last place
  have hne : (((⌊x⌋ + 1) * (2 ^ k : ℕ) : ℤ) : ℚ) ≠ x / ulp x + 1 / 2 := by
    intro h
    have htie : ((⌊x⌋ + 1 : ℤ) : ℚ) = x + ulp x / 2 := by
      rw [← hgrid, h, add_mul, div_mul_cancel₀ _ (ulp_pos x).ne', one_div_mul_eq_div]
    have hnonneg : (0 : ℚ) ≤ ⌊x⌋ := mod_cast Int.floor_nonneg.2 h0
    have hunit := ulp_le_one habs
    push_cast at htie
    exact hx (by linarith) _ h
  have habove := nearest_lt_mul_ulp_iff hne
  rw [hgrid, Int.cast_add, Int.cast_one] at habove
  rw [Int.floor_eq_iff, and_iff_right hbelow, habove]
  constructor <;> intro h <;> linarith

/-- Cutting off the digits of a quotient already rounded gives the same integer, unless the exact
one is less than half a unit below the next integer. -/
theorem truncate_nearest_eq_iff (hlt : |x| < 2 ^ 53) (hx : 1 / 2 ≤ |x| → Untied x) :
    truncate (nearest x) = truncate x ↔ ulp x ≤ 2 * (1 - |x - truncate x|) := by
  have hnonneg {v : ℚ} (h0 : 0 ≤ v) (hlt : v < 2 ^ 53) (hv : 1 / 2 ≤ v → Untied v) :
      truncate (nearest v) = truncate v ↔ ulp v ≤ 2 * (1 - |v - truncate v|) := by
    rw [truncate_of_nonneg h0, truncate_of_nonneg (nearest_nonneg h0), floor_nearest_eq_iff h0 hlt hv,
      Int.self_sub_floor, Int.abs_fract, Int.fract]
    constructor <;> intro h <;> linarith
  obtain h0 | h0 := le_total 0 x
  · rw [abs_of_nonneg h0] at hlt hx
    exact hnonneg h0 hlt hx
  · rw [abs_of_nonpos h0] at hlt hx
    have := hnonneg (neg_nonneg.2 h0) hlt fun h => (hx h).neg
    rwa [nearest_neg, truncate_neg, truncate_neg, neg_inj, ulp_neg, Int.cast_neg, ← neg_sub',
      abs_neg] at this

/-- Rounding a quotient already rounded to the nearest integer gives the same integer, unless that
is odd and the exact quotient is less than half a unit beside a half. -/
theorem halfEven_nearest_eq_iff (hlt : |x| < 2 ^ 53) (hx : 1 / 2 ≤ |x| → Untied x) :
    halfEven (nearest x) = halfEven x ↔
      Even (halfEven x) ∨ 1 ≤ ulp x ∨ ulp x ≤ 1 - 2 * |x - halfEven x| := by
  have habs := abs_sub_halfEven_le x
  obtain ⟨_ | k, hk⟩ := exists_mul_ulp_eq_one hlt
  · -- the last place is that of the units
    have hunit : ulp x = 1 := by simpa using hk
    have hnearest : nearest x = halfEven x := by rw [nearest, hunit, div_one, mul_one]
    rw [hnearest, halfEven_intCast]
    exact iff_of_true rfl (.inr (.inl hunit.ge))
  · -- halves are multiples of the last place
    have hunit : ulp x < 1 := by
      have htwo : (2 : ℚ) ≤ (2 ^ (k + 1) : ℕ) := mod_cast Nat.le_self_pow k.succ_ne_zero 2
      have hle := mul_le_mul_of_nonneg_right htwo (ulp_pos x).le
      linarith
    have hgrid (c : ℤ) : ((c * (2 ^ k : ℕ) : ℤ) : ℚ) * ulp x = c / 2 := by
      push_cast at hk ⊢
      linear_combination (c / 2 : ℚ) * hk
    -- the two halves beside the integer are multiples of the last place, and these rounding does
    -- not cross
    obtain ⟨p, hp⟩ : ∃ p : ℤ, p * ulp x = halfEven x - 1 / 2 :=
      ⟨(2 * halfEven x - 1) * (2 ^ k : ℕ), by rw [hgrid]; push_cast; ring⟩
    obtain ⟨q, hq⟩ : ∃ q : ℤ, q * ulp x = halfEven x + 1 / 2 :=
      ⟨(2 * halfEven x + 1) * (2 ^ k : ℕ), by rw [hgrid]; push_cast; ring⟩
    by_cases heven : Even (halfEven x)
    · obtain ⟨hlow, hhigh⟩ := abs_le.1 habs
      have hlow' := mul_ulp_le_nearest (x := x) (n := p) (by linarith)
      have hhigh' := nearest_le_mul_ulp (x := x) (n := q) (by linarith)
      refine iff_of_true (halfEven_eq_of_even heven (abs_le.2 ?_)) (.inl heven)
      constructor <;> linarith
    · have hx' := hx (half_le_abs_of_not_even heven)
      have hdistance : ulp x ≤ 1 - 2 * |x - halfEven x| ↔ |x - halfEven x| ≤ (1 - ulp x) / 2 := by
        constructor <;> intro h <;> linarith
      rw [or_iff_right heven, or_iff_right (not_le.2 hunit), halfEven_eq_iff_of_not_even heven, ← hp,
        ← hq, mul_ulp_lt_nearest_iff hx', nearest_lt_mul_ulp_iff (hx' q), hp, hq, hdistance, abs_le]
      constructor <;> rintro ⟨h, h'⟩ <;> constructor <;> linarith

end

end FormulaMachine.Binary64
