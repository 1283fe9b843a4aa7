import FormulaMachine.Proofs.Binary64.Rounded
import FormulaMachine.Binary64.Remainder

/-!
# Quotients of doubles and their remainders

Division gives the double nearest to the exact quotient. A remainder is exact: over the common unit
of its operands it is not larger than the one that is written without shifting.

* **`value?_div`**: the value of a quotient.
* **`value?_truncatedRemainder`**, **`value?_nearestRemainder`**: the values of both remainders.
-/

namespace FormulaMachine.Binary64

open Float.Model (UnpackedFloat Format totalExponent)
open Float.Model.UnpackedFloat

/-! ## Division -/

section

variable {a b : Float} {x y : ℚ}

/-- The significands are divided as integers, with enough digits to the left that what is cut off
lies below the last place; then the quotient is rounded once, and gets its sign. -/
theorem value?_pack_div (s₁ s₂ : Sign) {m₁ m₂ : ℕ} {e₁ e₂ : ℤ} (h₁ : 0 < m₁) (h₂ : 0 < m₂)
    (hlarge : nearest (m₁ * 2 ^ e₁ / (m₂ * 2 ^ e₂)) < 2 ^ 1024) :
    value? ⟨.pack (.div .binary64 (.finite s₁ m₁ e₁ h₁) (.finite s₂ m₂ e₂ h₂))⟩ =
      some (((s₁ / s₂).apply 1 : ℤ) * nearest (m₁ * 2 ^ e₁ / (m₂ * 2 ^ e₂))) := by
  have hm₁ : (0 : ℚ) < m₁ := mod_cast h₁
  have hm₂ : (0 : ℚ) < m₂ := mod_cast h₂
  have hx : (0 : ℚ) < m₁ * 2 ^ e₁ / (m₂ * 2 ^ e₂) := by positivity
  have hle : (2 : ℚ) ^ (m₁.log2 + e₁ - (m₂.log2 + 1 + e₂) : ℤ) ≤
      |(m₁ * 2 ^ e₁ / (m₂ * 2 ^ e₂) : ℚ)| := by
    have hnum : (2 : ℚ) ^ (m₁.log2 : ℤ) ≤ m₁ := mod_cast Nat.log2_self_le h₁.ne'
    have hden : (m₂ : ℚ) ≤ 2 ^ (m₂.log2 + 1 : ℤ) := mod_cast Nat.lt_log2_self.le
    rw [abs_of_pos hx, zpow_sub₀ two_ne_zero, zpow_add₀ two_ne_zero, zpow_add₀ two_ne_zero _ e₂]
    gcongr
  -- the exponent that the quotient is computed with is not above its last place
  have hplace := le_lastPlace_of_le hx.ne' hle
  have hge := le_lastPlace (m₁ * 2 ^ e₁ / (m₂ * 2 ^ e₂))
  rw [UnpackedFloat.div, divCore]
  have htarget : Format.binary64.targetExponent (totalExponent m₁ e₁ - totalExponent m₂ e₂) =
    max (m₁.log2 + 1 + e₁ - (m₂.log2 + 1 + e₂) - 53) (-1074) := rfl
  generalize Format.binary64.targetExponent (totalExponent m₁ e₁ - totalExponent m₂ e₂) = t at *
  have hscaled : (m₁ * 2 ^ e₁ / (m₂ * 2 ^ e₂) : ℚ) / 2 ^ min (e₁ - e₂) t =
      (m₁ <<< (e₁ - e₂ - min (e₁ - e₂) t).toNat : ℕ) / m₂ := by
    obtain ⟨k, hk⟩ := Int.eq_ofNat_of_zero_le (sub_nonneg.2 (min_le_left (e₁ - e₂) t))
    have hpow : (2 : ℚ) ^ e₁ = 2 ^ k * 2 ^ min (e₁ - e₂) t * 2 ^ e₂ := by
      rw [← zpow_natCast, ← zpow_add₀ two_ne_zero, ← zpow_add₀ two_ne_zero]
      congr 1
      omega
    rw [hk, Int.toNat_natCast, Nat.shiftLeft_eq, hpow]
    push_cast
    field_simp
  refine value?_pack_roundWithAccuracy (s₁ / s₂) hx ?_ (by omega) hlarge
  rw [hscaled]
  exact represents_fraction _ h₂

/-- An odd function takes the sign of its argument along. -/
theorem apply_mul_of_odd {β : Type} [Ring β] {f : ℚ → β} (hodd : ∀ x, f (-x) = -f x) (s : Sign)
    (x : ℚ) : f ((s.apply 1 : ℤ) * x) = (s.apply 1 : ℤ) * f x := by
  cases s with
  | positive => simp [Sign.apply]
  | negative => simp [Sign.apply, hodd]

/-- The quotient of two signed values is that of their magnitudes, with the sign of the quotient. -/
theorem div_eq_apply_mul (s t : Sign) (m n : ℕ) (e f : ℤ) :
    (s.apply m * 2 ^ e : ℚ) / (t.apply n * 2 ^ f) =
      ((s / t).apply 1 : ℤ) * (m * 2 ^ e / (n * 2 ^ f)) := by
  rw [apply_div]
  cases s <;> cases t <;> simp [Sign.apply, neg_div, div_neg]

/-- A quotient is the double nearest to the exact one. -/
theorem value?_div (ha : value? a = some x) (hb : value? b = some y) (hy : y ≠ 0)
    (hlarge : |nearest (x / y)| < 2 ^ 1024) : value? (a / b) = some (nearest (x / y)) := by
  obtain ⟨t, n, f, hn, hb', rfl⟩ := exists_of_value?_ne_zero hb hy
  show value? ⟨.pack (.div .binary64 (unpack a) (unpack b))⟩ = _
  rw [hb']
  obtain ⟨s, ha', rfl⟩ | ⟨s, m, e, hm, ha', rfl⟩ := exists_of_value? ha
  · rw [ha', zero_div, nearest_zero]
    exact value?_pack_zero _
  · rw [div_eq_apply_mul, apply_mul_of_odd nearest_neg] at hlarge ⊢
    rw [ha']
    refine value?_pack_div s t hm hn (lt_of_le_of_lt (le_abs_self _) ?_)
    rwa [abs_mul, ← Int.cast_abs, abs_apply, abs_one, Int.cast_one, one_mul] at hlarge

/-! ## Remainders -/

section

variable {rest : ℕ → ℕ → ℤ} {round : ℚ → ℤ}

/-- What is left is not larger than what it is left of, nor than the divisor, if that holds of what is
left of every quotient. -/
theorem natAbs_rest_le (hself : ∀ v, |v - round v| ≤ |v|) (hone : ∀ v, |v - round v| ≤ 1)
    (hrest : ∀ m n : ℕ, 0 < n → rest m n = m - round (m / n) * n) (m : ℕ) {n : ℕ} (hn : 0 < n) :
    (rest m n).natAbs ≤ m ∧ (rest m n).natAbs ≤ n := by
  have hpos : (0 : ℚ) < n := mod_cast hn
  -- what is left of the quotient, times the divisor
  have habs : ((rest m n).natAbs : ℚ) = |(m : ℚ) / n - round (m / n)| * n := by
    rw [Nat.cast_natAbs, Int.cast_abs, hrest m n hn, ← abs_of_pos hpos, ← abs_mul, abs_of_pos hpos,
      sub_mul, div_mul_cancel₀ _ hpos.ne']
    push_cast
    rfl
  constructor
  · have hle := mul_le_mul_of_nonneg_right (hself (m / n)) hpos.le
    rw [← habs, abs_of_nonneg (by positivity), div_mul_cancel₀ _ hpos.ne'] at hle
    exact_mod_cast hle
  · have hle := mul_le_mul_of_nonneg_right (hone (m / n)) hpos.le
    rw [← habs, one_mul] at hle
    exact_mod_cast hle

theorem zpow_eq_pow_mul {e u : ℤ} {i : ℕ} (h : e - u = i) : (2 : ℚ) ^ e = 2 ^ i * 2 ^ u := by
  rw [← zpow_natCast, ← zpow_add₀ two_ne_zero, ← h, sub_add_cancel]

/-- A remainder is exact: what is left has no digits below those of `a` and `b`, and is not larger
than either of them. -/
theorem value?_remainderBy (hodd : ∀ v, round (-v) = -round v)
    (hself : ∀ v, |v - round v| ≤ |v|) (hone : ∀ v, |v - round v| ≤ 1)
    (hrest : ∀ m n : ℕ, 0 < n → rest m n = m - round (m / n) * n)
    (ha : value? a = some x) (hb : value? b = some y) (hy : y ≠ 0) :
    value? (remainderBy rest a b) = some (x - round (x / y) * y) := by
  obtain ⟨t, n, f, hn, hb', rfl⟩ := exists_of_value?_ne_zero hb hy
  rw [remainderBy, hb']
  obtain ⟨s, ha', rfl⟩ | ⟨s, m, e, hm, ha', rfl⟩ := exists_of_value? ha
  · have hzero : round 0 = 0 := by
      have := hodd 0
      rw [neg_zero] at this
      omega
    rw [ha', ha, zero_div, hzero, Int.cast_zero, zero_mul, sub_self]
  · rw [ha']
    dsimp only
    obtain ⟨hmlt, hme, -⟩ := canonical_of_unpack ha'
    obtain ⟨hnlt, hne, hnf, -⟩ := canonical_of_unpack hb'
    obtain ⟨i, hi⟩ := Int.eq_ofNat_of_zero_le (sub_nonneg.2 (min_le_left e f))
    obtain ⟨j, hj⟩ := Int.eq_ofNat_of_zero_le (sub_nonneg.2 (min_le_right e f))
    have hB : 0 < n * 2 ^ j := Nat.mul_pos hn (by positivity)
    rw [hi, hj, Int.toNat_natCast, Int.toNat_natCast]
    -- one of the operands is not shifted, and what is left is not larger than that one
    have hlt : (rest (m * 2 ^ i) (n * 2 ^ j)).natAbs < 2 ^ 53 := by
      obtain ⟨hleA, hleB⟩ := natAbs_rest_le hself hone hrest (m * 2 ^ i) hB
      obtain rfl | rfl : i = 0 ∨ j = 0 := by omega
      · exact lt_of_le_of_lt (hleA.trans_eq (by rw [pow_zero, mul_one])) hmlt
      · exact lt_of_le_of_lt (hleB.trans_eq (by rw [pow_zero, mul_one])) hnlt
    -- over the common unit the quotient is one of integers
    have hquotient : (m * 2 ^ e / (n * 2 ^ f) : ℚ) = (m * 2 ^ i : ℕ) / (n * 2 ^ j : ℕ) := by
      have hunit : (2 : ℚ) ^ min e f ≠ 0 := (zpow_pos two_pos _).ne'
      rw [zpow_eq_pow_mul hi, zpow_eq_pow_mul hj, ← mul_assoc, ← mul_assoc,
        mul_div_mul_right _ _ hunit]
      push_cast
      rfl
    have hsign : ((t.apply 1 : ℤ) : ℚ) * (t.apply 1 : ℤ) = 1 := mod_cast apply_mul_self t
    rw [value?_ofScaled_of_lt _ hlt (le_min hme hne) ((min_le_right e f).trans hnf), apply_natAbs,
      div_eq_apply_mul, hquotient, apply_mul_of_odd hodd, apply_div, apply_eq_mul s (rest _ _),
      hrest _ _ hB, apply_eq_mul s m, apply_eq_mul t n,
      zpow_eq_pow_mul hi, zpow_eq_pow_mul hj]
    push_cast
    congr 1
    linear_combination ((s.apply 1 : ℤ) : ℚ) * round (m * 2 ^ i / (n * 2 ^ j)) * n * 2 ^ j *
      2 ^ min e f * hsign

end

/-- The remainder that takes away as often as the quotient without its fraction says. -/
theorem value?_truncatedRemainder (ha : value? a = some x) (hb : value? b = some y) (hy : y ≠ 0) :
    value? (truncatedRemainder a b) = some (x - truncate (x / y) * y) := by
  refine value?_remainderBy truncate_neg abs_sub_truncate_le_self
    (fun v => (abs_sub_truncate_lt_one v).le) ?_ ha hb hy
  intro m n _
  have hmod : ((n * (m / n) + m % n : ℕ) : ℤ) = m := congrArg _ (Nat.div_add_mod m n)
  rw [truncate_of_nonneg (by positivity), Rat.floor_natCast_div_natCast]
  push_cast at hmod ⊢
  linear_combination hmod

/-- The remainder that takes away as often as the integer nearest to the quotient says, the even one
halfway between two. -/
theorem value?_nearestRemainder (ha : value? a = some x) (hb : value? b = some y) (hy : y ≠ 0) :
    value? (nearestRemainder a b) = some (x - halfEven (x / y) * y) := by
  refine value?_remainderBy halfEven_neg abs_sub_halfEven_le_self
    (fun v => (abs_sub_halfEven_le v).trans (by norm_num)) ?_ ha hb hy
  intro m n hn
  rw [quotient_halfEven _ hn]

end

end FormulaMachine.Binary64
