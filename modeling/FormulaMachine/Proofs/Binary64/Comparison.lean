import FormulaMachine.Proofs.Binary64.Value

/-!
# Comparing doubles by their values

Core compares the signs of two doubles first, then their exponents, then their significands. This is
the order of their values, since a larger exponent comes with a significand that has its leading bit.

* **`compare_of_value?`**: doubles with values are compared like these.
* **`lt_iff_of_value?`**, **`le_iff_of_value?`**: what the two tests say.
-/

namespace FormulaMachine.Binary64

open Float.Model (UnpackedFloat)

section

variable {m n : ℕ} {e f : ℤ}

/-- Of two doubles the one with the larger exponent is the larger one. -/
theorem scaled_lt_of_exponent_lt (hm : Canonical m e) (hn : Canonical n f) (h : e < f) :
    (m : ℚ) * 2 ^ e < n * 2 ^ f := by
  have hlow := hm.le_exponent
  have hleading : 2 ^ 52 ≤ n := hn.leading.resolve_left (by omega)
  calc (m : ℚ) * 2 ^ e < 2 ^ 53 * 2 ^ e :=
        mul_lt_mul_of_pos_right (mod_cast hm.significand_lt) (zpow_pos two_pos e)
    _ = 2 ^ 52 * 2 ^ (e + 1) := by rw [zpow_add_one₀ two_ne_zero]; ring
    _ ≤ 2 ^ 52 * 2 ^ f :=
        mul_le_mul_of_nonneg_left (zpow_le_zpow_right₀ one_le_two h) (by positivity)
    _ ≤ n * 2 ^ f := mul_le_mul_of_nonneg_right (mod_cast hleading) (zpow_pos two_pos f).le

/-- Exponents first, then significands, is the order of the values: with equal exponents the
significands decide, and otherwise the larger exponent does. -/
theorem compare_scaled (hm : Canonical m e) (hn : Canonical n f) :
    (compare e f).then (compare m n) = compare ((m : ℚ) * 2 ^ e) (n * 2 ^ f) := by
  -- with different exponents the significands are not looked at
  obtain h | rfl | h := lt_trichotomy e f
  · rw [compare_lt_iff_lt.2 h, compare_lt_iff_lt.2 (scaled_lt_of_exponent_lt hm hn h)]
    rfl
  · have hunit : (0 : ℚ) < 2 ^ e := zpow_pos two_pos e
    rw [compare_eq_iff_eq.2 rfl, Ordering.then]
    obtain h | rfl | h := lt_trichotomy m n
    · rw [compare_lt_iff_lt.2 h,
        compare_lt_iff_lt.2 (mul_lt_mul_of_pos_right (Nat.cast_lt.2 h) hunit)]
    · rw [compare_eq_iff_eq.2 rfl, compare_eq_iff_eq.2 rfl]
    · rw [compare_gt_iff_gt.2 h,
        compare_gt_iff_gt.2 (mul_lt_mul_of_pos_right (Nat.cast_lt.2 h) hunit)]
  · rw [compare_gt_iff_gt.2 h, compare_gt_iff_gt.2 (scaled_lt_of_exponent_lt hn hm h)]
    rfl

end

/-- Negation turns the order round. -/
theorem compare_neg_neg (v w : ℚ) : compare (-v) (-w) = (compare v w).swap := by
  obtain h | rfl | h := lt_trichotomy v w
  · rw [compare_lt_iff_lt.2 h, compare_gt_iff_gt.2 (neg_lt_neg h)]
    rfl
  · rw [compare_eq_iff_eq.2 rfl, compare_eq_iff_eq.2 rfl]
    rfl
  · rw [compare_gt_iff_gt.2 h, compare_lt_iff_lt.2 (neg_lt_neg h)]
    rfl

section

variable {x y : Float} {v w : ℚ}

/-- Doubles with values are compared as these are. By the signs, since only doubles of one sign are
compared by exponent and significand. -/
theorem compare_of_value? (hx : value? x = some v) (hy : value? y = some w) :
    (unpack x).compare (unpack y) = some (compare v w) := by
  obtain ⟨s, hx', rfl⟩ | ⟨s, m, e, hm, hx', rfl⟩ := exists_of_value? hx <;>
    obtain ⟨t, hy', rfl⟩ | ⟨t, n, f, hn, hy', rfl⟩ := exists_of_value? hy <;> rw [hx', hy']
  · rw [compare_eq_iff_eq.2 rfl]
    rfl
  · have hw := scaled_pos hn f
    cases t with
    | negative => rw [negative_apply_mul, compare_gt_iff_gt.2 (neg_lt_zero.2 hw)]; rfl
    | positive => rw [positive_apply_mul, compare_lt_iff_lt.2 hw]; rfl
  · have hv := scaled_pos hm e
    cases s with
    | negative => rw [negative_apply_mul, compare_lt_iff_lt.2 (neg_lt_zero.2 hv)]; rfl
    | positive => rw [positive_apply_mul, compare_gt_iff_gt.2 hv]; rfl
  · have hv := scaled_pos hm e
    have hw := scaled_pos hn f
    -- neither is zero: with one sign the magnitudes decide, with two the signs do
    have hscaled := compare_scaled (canonical_of_unpack hx') (canonical_of_unpack hy')
    cases s <;> cases t
    · rw [negative_apply_mul, negative_apply_mul, compare_neg_neg, ← hscaled]
      rfl
    · rw [negative_apply_mul, positive_apply_mul, compare_lt_iff_lt.2 ((neg_lt_zero.2 hv).trans hw)]
      rfl
    · rw [positive_apply_mul, negative_apply_mul, compare_gt_iff_gt.2 ((neg_lt_zero.2 hw).trans hv)]
      rfl
    · rw [positive_apply_mul, positive_apply_mul, ← hscaled]
      rfl

theorem lt_iff_of_value? (hx : value? x = some v) (hy : value? y = some w) : x < y ↔ v < w := by
  rw [lt_iff, compare_of_value? hx hy, Option.some_inj, compare_lt_iff_lt]

theorem le_iff_of_value? (hx : value? x = some v) (hy : value? y = some w) : x ≤ y ↔ v ≤ w := by
  rw [le_iff, compare_of_value? hx hy, Option.some_inj, Option.some_inj, compare_lt_iff_lt,
    compare_eq_iff_eq, le_iff_lt_or_eq]

end

end FormulaMachine.Binary64
