import FormulaMachine.Proofs.Binary64.Rounded

/-!
# Sums and differences of doubles

A sum is formed exactly, over the smaller one of the two exponents, and rounded once. A difference is
the sum with the second operand negated.

* **`value?_add`**, **`value?_sub`**: the double nearest to the exact sum or difference.
-/

namespace FormulaMachine.Binary64

open Float.Model (UnpackedFloat Format)
open Float.Model.UnpackedFloat

/-- A signed significand is rounded as its magnitude is, and gets its sign back. -/
theorem value?_pack_normalize (k e : ℤ) (s : Sign) (hlarge : |nearest (k * 2 ^ e)| < 2 ^ 1024) :
    value? ⟨.pack (UnpackedFloat.normalize .binary64 k e s)⟩ = some (nearest (k * 2 ^ e)) := by
  have hround (t : Sign) {m : ℕ} (hm : m ≠ 0) (hm' : nearest (m * 2 ^ e) < 2 ^ 1024) :
      value? ⟨.pack (.round .binary64 t m e)⟩ = some ((t.apply 1 : ℤ) * nearest (m * 2 ^ e)) := by
    rw [← value?_ofScaled t m e hm', ofScaled, if_neg hm]
  obtain hneg | rfl | hpos := lt_trichotomy k 0
  -- a negative sum is rounded as its magnitude, which rounding to even allows
  · obtain ⟨m, rfl⟩ : ∃ m : ℕ, k = -m := ⟨(-k).toNat, by omega⟩
    have hm : m ≠ 0 := by omega
    have hvalue : ((-m : ℤ) : ℚ) * 2 ^ e = -(m * 2 ^ e) := by push_cast; ring
    rw [hvalue, nearest_neg, abs_neg] at hlarge
    rw [UnpackedFloat.normalize, Int.compare_eq_lt.2 hneg]
    show value? ⟨.pack (.round .binary64 .negative (- -(m : ℤ)).toNat e)⟩ = _
    rw [neg_neg, Int.toNat_natCast, hround _ hm (lt_of_le_of_lt (le_abs_self _) hlarge), hvalue,
      nearest_neg]
    simp [Sign.apply]
  · rw [Int.cast_zero, zero_mul, nearest_zero]
    exact value?_pack_zero s
  · obtain ⟨m, rfl⟩ := Int.eq_ofNat_of_zero_le hpos.le
    have hm : m ≠ 0 := by omega
    rw [Int.cast_natCast] at hlarge ⊢
    rw [UnpackedFloat.normalize, Int.compare_eq_gt.2 hpos]
    show value? ⟨.pack (.round .binary64 .positive (m : ℤ).toNat e)⟩ = _
    rw [Int.toNat_natCast, hround _ hm (lt_of_le_of_lt (le_abs_self _) hlarge)]
    simp [Sign.apply]

/-- Shifted to the left, a significand stands for the same value with a smaller exponent. -/
theorem apply_decreaseExponent (s : Sign) (m : ℕ) {e t : ℤ} (h : t ≤ e) :
    (s.apply (decreaseExponent m e t).1 : ℚ) * 2 ^ t = s.apply m * 2 ^ e := by
  obtain ⟨k, hk⟩ := Int.eq_ofNat_of_zero_le (sub_nonneg.2 h)
  have hpow : (2 : ℚ) ^ e = 2 ^ k * 2 ^ t := by
    rw [← zpow_natCast, ← zpow_add₀ two_ne_zero, ← hk, sub_add_cancel]
  rw [decreaseExponent, hk, Int.toNat_natCast, Nat.shiftLeft_eq, apply_eq_mul, apply_eq_mul s m, hpow]
  push_cast
  ring

section

variable {a b : Float} {x y : ℚ}

/-- A sum is the double nearest to the exact one. -/
theorem value?_add (ha : value? a = some x) (hb : value? b = some y)
    (hlarge : |nearest (x + y)| < 2 ^ 1024) : value? (a + b) = some (nearest (x + y)) := by
  obtain ⟨s, ha', hx⟩ | ⟨s, m, e, hm, ha', hx⟩ := exists_of_value? ha
  · rw [hx, Rat.zero_add, nearest_of_value? hb]
    by_cases hzero : IsZero b
    · obtain ⟨t, ht⟩ := hzero
      obtain ⟨u, hu⟩ := isZero_add ⟨s, ha'⟩ ⟨t, ht⟩
      rw [value?_zero hu, ← hb, value?_zero ht]
    · rw [zero_add ⟨s, ha'⟩ hzero, hb]
  · have hnonzero : ¬ IsZero a := fun ⟨u, hu⟩ => by
      rw [ha'] at hu
      cases hu
    obtain ⟨t, hb', hy⟩ | ⟨t, n, f, hn, hb', hy⟩ := exists_of_value? hb
    · rw [hy, Rat.add_zero, nearest_of_value? ha, add_zero hnonzero ⟨t, hb'⟩, ha]
    -- over the smaller exponent both significands are integers, and so is their sum
    · have hsum : x + y = (s.apply (decreaseExponent m e (min e f)).1 +
          t.apply (decreaseExponent n f (min e f)).1 : ℤ) * 2 ^ min e f := by
        rw [hx, hy, Int.cast_add, add_mul, apply_decreaseExponent s m (min_le_left e f),
          apply_decreaseExponent t n (min_le_right e f)]
      show value? ⟨.pack (.add .binary64 (unpack a) (unpack b))⟩ = _
      rw [ha', hb']
      rw [hsum] at hlarge ⊢
      exact value?_pack_normalize _ _ .positive hlarge

/-! ## Differences -/

/-- Negating a double changes its sign and nothing else, so it is unpacked to the negated parts. -/
theorem unpack_neg (hb : value? b = some y) : unpack (-b) = (unpack b).neg := by
  show unpack ⟨.pack (unpack b).neg⟩ = _
  obtain ⟨t, hb', -⟩ | ⟨t, n, f, hn, hb', -⟩ := exists_of_value? hb
  · rw [hb']
    exact UnpackedFloat.unpack_packedZero
  · rw [hb']
    exact unpack_pack_finite (-t) hn (canonical_of_unpack hb')

/-- The value of the negated double is the negated value. -/
theorem value?_neg (hb : value? b = some y) : value? (-b) = some (-y) := by
  rw [value?, unpack_neg hb]
  obtain ⟨t, hb', rfl⟩ | ⟨t, n, f, hn, hb', rfl⟩ := exists_of_value? hb
  · rw [hb', neg_zero]
    rfl
  · rw [hb']
    show some (((-t).apply n : ℚ) * 2 ^ f) = _
    rw [apply_neg, apply_eq_mul, apply_eq_mul t n]
    push_cast
    rw [mul_neg, neg_mul]

/-- On unpacked doubles, whatever they are. -/
theorem sub_eq_add (u v : UnpackedFloat) : u.sub .binary64 v = u.add .binary64 v.neg := by
  cases u with
  | finite s m e hm =>
    cases v with
    | finite t n f hn =>
      have hsign (k : ℕ) : (-t).apply k = -t.apply k := by
        cases t with
        | negative => exact (neg_neg (k : ℤ)).symm
        | positive => rfl
      simp only [UnpackedFloat.neg, UnpackedFloat.sub, UnpackedFloat.add, hsign, Int.sub_eq_add_neg]
    | zero | infinity | notANumber => rfl
  | zero | infinity | notANumber => cases v <;> rfl

/-- A difference is the double nearest to the exact one. -/
theorem value?_sub (ha : value? a = some x) (hb : value? b = some y)
    (hlarge : |nearest (x - y)| < 2 ^ 1024) : value? (a - b) = some (nearest (x - y)) := by
  have hdifference : a - b = a + -b := by
    show (⟨.pack (.sub .binary64 (unpack a) (unpack b))⟩ : Float) =
      ⟨.pack (.add .binary64 (unpack a) (unpack (-b)))⟩
    rw [unpack_neg hb, sub_eq_add]
  rw [sub_eq_add_neg x y] at hlarge ⊢
  rw [hdifference]
  exact value?_add ha (value?_neg hb) hlarge

end

end FormulaMachine.Binary64
