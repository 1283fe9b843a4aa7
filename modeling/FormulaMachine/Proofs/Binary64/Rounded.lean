import FormulaMachine.Proofs.Binary64.Nearest

/-!
# How significands are rounded

Core keeps a significand with the two bits that decide how it is rounded, and shifts all three to
the right until the significand fits. Read as a statement on the exact value, the bits tell the
fraction from nothing and from a half, and the result is the value rounded once.

* `Represents`: a significand and its bits stand for a value.
* **`value?_pack_roundWithAccuracy`**: rounding gives the double nearest to the value.
* **`value?_ofScaled_of_lt`**: an integer below `2^53` times a power of two is not moved.
* **`value?_roundTo`**: rounding a double to an integer is exact.
-/

namespace FormulaMachine.Binary64

open Float.Model (UnpackedFloat Format totalExponent)
open Float.Model.UnpackedFloat

/-! ## The bits behind a significand -/

/-- The significand is the integer part of `x`, the round bit tells whether the fraction reaches a
half, and the sticky bit whether it is neither nothing nor a half. -/
structure Represents (em : ExtendedMantissa) (x : ℚ) : Prop where
  floor : ⌊x⌋ = em.mantissa
  round : em.roundBit = true ↔ 1 / 2 ≤ Int.fract x
  sticky : em.stickyBit = true ↔ Int.fract x ≠ 0 ∧ Int.fract x ≠ 1 / 2

namespace Represents

variable {em : ExtendedMantissa} {x : ℚ}

/-- What core rounds a significand to is the value to the nearest, a half going to the even one. The
round bit decides, and where it is set the sticky bit tells a half from more. -/
theorem roundedMantissa (h : Represents em x) : (em.roundedMantissa : ℤ) = halfEven x := by
  obtain ⟨m, round, sticky⟩ := em
  obtain ⟨hfloor, hround, hsticky⟩ := h
  simp only at hfloor hround hsticky
  cases round with
  | false =>
    -- less than a half is dropped
    have hbelow : Int.fract x < 1 / 2 := not_le.1 fun h => nomatch hround.2 h
    have hdown : ¬ (1 / 2 < Int.fract x ∨ Int.fract x = 1 / 2 ∧ ¬ Even ⌊x⌋) := by
      rintro (h | ⟨h, -⟩) <;> linarith
    rw [halfEven, if_neg hdown, hfloor]
    cases sticky <;> rfl
  | true =>
    have hreached : 1 / 2 ≤ Int.fract x := hround.1 rfl
    cases sticky with
    | false =>
      -- just a half goes to the even one
      have htie : Int.fract x = 1 / 2 := by
        by_contra h
        exact nomatch hsticky.2 ⟨by linarith, h⟩
      show ((m + m % 2 : ℕ) : ℤ) = _
      simp only [halfEven, htie, hfloor, lt_irrefl, true_and, false_or, Int.even_coe_nat,
        Nat.not_even_iff]
      split <;> omega
    | true =>
      -- more than a half goes up
      have hup : 1 / 2 < Int.fract x := lt_of_le_of_ne hreached (hsticky.1 rfl).2.symm
      rw [halfEven, if_pos (.inl hup), hfloor]
      rfl

/-- Shifting by one bit halves the value. -/
theorem shiftRightOne (h : Represents em x) : Represents em.shiftRightOne (x / 2) := by
  obtain ⟨m, round, sticky⟩ := em
  obtain ⟨hfloor, hround, hsticky⟩ := h
  simp only at hfloor hround hsticky
  have hnonneg := Int.fract_nonneg x
  have hlt := Int.fract_lt_one x
  -- the bit shifted out is the new round bit, and the old ones are sticky from now on
  have hround' : (m % 2 != 0) = true ↔ 1 / 2 ≤ Int.fract (x / 2) := by
    rw [fract_half hfloor, bne_iff_ne]
    obtain hm | hm := Nat.mod_two_eq_zero_or_one m <;> rw [hm] <;> push_cast
    · exact iff_of_false (by simp) (by linarith)
    · exact iff_of_true (by simp) (by linarith)
  have hsticky' : (round || sticky) = true ↔ Int.fract x ≠ 0 := by
    rw [Bool.or_eq_true, hround, hsticky]
    constructor
    · rintro (h | ⟨h, -⟩)
      · linarith
      · exact h
    · intro h
      obtain hhalf | hhalf := le_or_gt (1 / 2) (Int.fract x)
      · exact .inl hhalf
      · exact .inr ⟨h, hhalf.ne⟩
  refine ⟨floor_half hfloor, hround', hsticky'.trans ?_⟩
  rw [fract_half hfloor, ne_eq, ne_eq, ne_eq, ← not_or, not_iff_not]
  obtain hm | hm := Nat.mod_two_eq_zero_or_one m <;> rw [hm] <;> push_cast
  · exact ⟨fun h => .inl (by linarith), fun h => h.elim (by intro; linarith) (by intro; linarith)⟩
  · exact ⟨fun h => .inr (by linarith), fun h => h.elim (by intro; linarith) (by intro; linarith)⟩

/-- Shifting by `k` bits divides it by `2^k`. -/
theorem shiftRight (h : Represents em x) (k : ℕ) : Represents (em >>> k) (x / 2 ^ k) := by
  induction k with
  | zero =>
    rw [pow_zero, div_one]
    exact h
  | succ k ih =>
    rw [pow_succ, ← div_div]
    exact ih.shiftRightOne

end Represents

/-- A significand with nothing behind it stands for itself. -/
theorem represents_exact (m : ℕ) : Represents (.ofMantissaAndAccuracy m .exact) m :=
  ⟨Int.floor_natCast m, by simp [ExtendedMantissa.ofMantissaAndAccuracy],
    by simp [ExtendedMantissa.ofMantissaAndAccuracy]⟩

/-- The two bits of a quotient, told by its remainder. -/
theorem ofMantissaAndAccuracy_fraction (q r : ℕ) {d : ℕ} (hd : 0 < d) :
    ExtendedMantissa.ofMantissaAndAccuracy q (accuracyOfFraction r d) =
      ⟨q, decide (d ≤ 2 * r), decide (r ≠ 0 ∧ 2 * r ≠ d)⟩ := by
  rw [accuracyOfFraction]
  split
  · rename_i hr
    simp [ExtendedMantissa.ofMantissaAndAccuracy, hr, hd.ne']
  · rename_i hr
    -- below a half, at a half, or above it
    obtain h | h | h := lt_trichotomy (2 * r) d
    · rw [Nat.compare_eq_lt.2 h]
      simp [ExtendedMantissa.ofMantissaAndAccuracy, hr, h, h.ne]
    · rw [Nat.compare_eq_eq.2 h]
      simp [ExtendedMantissa.ofMantissaAndAccuracy, h]
    · rw [Nat.compare_eq_gt.2 h]
      simp [ExtendedMantissa.ofMantissaAndAccuracy, hr, h.le, h.ne']

/-- An integer quotient with these bits stands for the quotient. -/
theorem represents_fraction (n : ℕ) {d : ℕ} (hd : 0 < d) :
    Represents (.ofMantissaAndAccuracy (n / d) (accuracyOfFraction (n % d) d)) (n / d) := by
  rw [ofMantissaAndAccuracy_fraction _ _ hd]
  refine ⟨Rat.floor_natCast_div_natCast n d, decide_eq_true_iff.trans ?_, decide_eq_true_iff.trans ?_⟩
  · rw [le_iff_lt_or_eq (a := (1 / 2 : ℚ)), half_lt_fract_iff hd, eq_comm, fract_eq_half_iff hd]
    omega
  · rw [ne_eq, ne_eq, ne_eq, ne_eq, fract_eq_zero_iff hd, fract_eq_half_iff hd]

/-! ## Shifting to the last place -/

section

variable {m : ℕ} {e : ℤ} {acc : Accuracy} {x : ℚ}

/-- The exponent that core shifts to: 53 bits, or that of the smallest double. -/
theorem targetExponent_binary64 (m : ℕ) (e : ℤ) :
    Format.binary64.targetExponent (totalExponent m e) = max (m.log2 + 1 + e - 53) (-1074) :=
  rfl

/-- The exponent that a significand asks for is the last place of the value, unless the significand
is too short already. -/
theorem max_targetExponent (hx : 0 < x) (hfloor : ⌊x / 2 ^ e⌋ = m) (he : e ≤ lastPlace x) :
    max e (Format.binary64.targetExponent (totalExponent m e)) = lastPlace x := by
  rw [targetExponent_binary64]
  have hpos : (0 : ℚ) < 2 ^ e := zpow_pos two_pos e
  have habs : |x| = x := abs_of_pos hx
  have hge := le_lastPlace x
  obtain ⟨hlow, hhigh⟩ := Int.floor_eq_iff.1 hfloor
  rw [Int.cast_natCast, le_div_iff₀ hpos] at hlow
  rw [Int.cast_natCast, div_lt_iff₀ hpos] at hhigh
  obtain rfl | hm := Nat.eq_zero_or_pos m
  · have hlt : |x| < 2 ^ e := by
      rw [habs]
      simpa using hhigh
    have hle := lastPlace_le hx.ne' hlt
    have hlog : Nat.log2 0 = 0 := rfl
    omega
  -- the leading bit of the significand is that of the value
  · have hle : (2 : ℚ) ^ (m.log2 + e : ℤ) ≤ |x| := by
      rw [habs, zpow_add₀ two_ne_zero, zpow_natCast]
      refine le_trans (mul_le_mul_of_nonneg_right ?_ hpos.le) hlow
      exact_mod_cast Nat.log2_self_le hm.ne'
    have hlt : |x| < (2 : ℚ) ^ (m.log2 + 1 + e : ℤ) := by
      rw [habs, zpow_add₀ two_ne_zero]
      refine lt_of_lt_of_le hhigh (mul_le_mul_of_nonneg_right ?_ hpos.le)
      exact_mod_cast Nat.lt_log2_self
    have habove := lastPlace_le hx.ne' hlt
    have hbelow := le_lastPlace_of_le hx.ne' hle
    omega

/-- Shifting to that exponent leaves the value in units of its last place. -/
theorem shiftToTargetExponent_of_represents (hx : 0 < x)
    (hrep : Represents (.ofMantissaAndAccuracy m acc) (x / 2 ^ e)) (he : e ≤ lastPlace x) :
    (shiftToTargetExponent .binary64 m e acc).2 = lastPlace x ∧
      Represents (shiftToTargetExponent .binary64 m e acc).1 (x / ulp x) := by
  have hfloor : ⌊x / 2 ^ e⌋ = m := by
    rw [hrep.floor]
    cases acc with
    | exact => rfl
    | inexact order => cases order <;> rfl
  have hmax := max_targetExponent hx hfloor he
  generalize htarget : Format.binary64.targetExponent (totalExponent m e) = target at hmax
  -- the shift ends at the last place of the value
  have hplace : e + (target - e).toNat = lastPlace x := by omega
  rw [shiftToTargetExponent, htarget]
  refine ⟨hplace, ?_⟩
  have hscale : x / ulp x = x / 2 ^ e / 2 ^ (target - e).toNat := by
    rw [ulp, ← hplace, zpow_add₀ two_ne_zero, zpow_natCast, div_div]
  rw [hscale]
  exact hrep.shiftRight _

/-- Rounding up to `2^53` makes a significand too long by one bit, which a second shift takes
away. -/
theorem shiftToTargetExponent_exact {n : ℕ} {t : ℤ} (hn : n ≤ 2 ^ 53) (ht : -1074 ≤ t) :
    ((shiftToTargetExponent .binary64 n t .exact).1.mantissa,
      (shiftToTargetExponent .binary64 n t .exact).2) =
      if n = 2 ^ 53 then (2 ^ 52, t + 1) else (n, t) := by
  rw [shiftToTargetExponent, targetExponent_binary64]
  split
  · rename_i htop
    -- one digit too many: the power of two moves to the next exponent
    subst htop
    have hlog : Nat.log2 (2 ^ 53) = 53 := Nat.log2_two_pow
    have hshift : (max ((53 : ℕ) + 1 + t - 53) (-1074) - t).toNat = 1 := by omega
    rw [hlog, shiftToExponent, hshift]
    rfl
  · have hlog : n.log2 < 53 := by
      obtain rfl | hpos := Nat.eq_zero_or_pos n
      · decide
      · exact (Nat.log2_lt hpos.ne').2 (by omega)
    have hshift : (max ((n.log2 : ℤ) + 1 + t - 53) (-1074) - t).toNat = 0 := by omega
    rw [shiftToExponent, hshift, Nat.cast_zero, Int.add_zero]
    rfl

/-- A significand that may be zero, with its sign. -/
theorem value?_pack_ite (s : Sign) (hcanonical : m ≠ 0 → Canonical m e) :
    value? ⟨.pack (if h : m = 0 then .zero s else .finite s m e (Nat.pos_of_ne_zero h))⟩ =
      some (s.apply m * (2 : ℚ) ^ e) := by
  split
  · rename_i hm
    rw [value?_pack_zero, hm, Nat.cast_zero, apply_zero, Int.cast_zero, zero_mul]
  · exact value?_pack_finite s _ (hcanonical ‹_›)

/-- The last shift keeps the value, and what it leaves is the significand of a double. -/
theorem canonical_of_last_shift {n k : ℕ} {t u : ℤ} (hn : n ≤ 2 ^ 53) (ht : -1074 ≤ t)
    (hleading : t = -1074 ∨ 2 ^ 52 ≤ n) (hlarge : (n : ℚ) * 2 ^ t < 2 ^ 1024)
    (hshift : (k, u) = if n = 2 ^ 53 then (2 ^ 52, t + 1) else (n, t)) :
    (k : ℚ) * 2 ^ u = n * 2 ^ t ∧ (k ≠ 0 → Canonical k u) := by
  -- what is too large for the format is excluded, and that bounds the exponent
  have hbound (j : ℕ) (hj : 2 ^ j ≤ n) : j + t < 1024 := by
    have hlt : (2 : ℚ) ^ (j + t : ℤ) < 2 ^ (1024 : ℤ) :=
      calc (2 : ℚ) ^ (j + t : ℤ) = 2 ^ j * 2 ^ t := by rw [zpow_add₀ two_ne_zero, zpow_natCast]
        _ ≤ n * 2 ^ t := mul_le_mul_of_nonneg_right (mod_cast hj) (zpow_pos two_pos t).le
        _ < 2 ^ (1024 : ℤ) := by rw [zpow_ofNat]; exact hlarge
    exact (zpow_lt_zpow_iff_right₀ one_lt_two).1 hlt
  split at hshift <;> cases hshift
  · rename_i htop
    have htop' := hbound 53 htop.ge
    refine ⟨?_, fun _ => ⟨by norm_num, by omega, by omega, .inr le_rfl⟩⟩
    rw [htop, zpow_add₀ two_ne_zero]
    push_cast
    ring
  · refine ⟨rfl, fun _ => ⟨by omega, ht, ?_, by omega⟩⟩
    obtain h | h := hleading
    · omega
    · have := hbound 52 h
      omega

/-- A value that is rounded from enough of its digits becomes the nearest double. -/
theorem value?_pack_roundWithAccuracy (s : Sign) (hx : 0 < x)
    (hrep : Represents (.ofMantissaAndAccuracy m acc) (x / 2 ^ e)) (he : e ≤ lastPlace x)
    (hlarge : nearest x < 2 ^ 1024) :
    value? ⟨.pack (roundWithAccuracy .binary64 s m e acc)⟩ =
      some ((s.apply 1 : ℤ) * nearest x) := by
  obtain ⟨hplace, hrep'⟩ := shiftToTargetExponent_of_represents hx hrep he
  have hround := hrep'.roundedMantissa
  have hge := le_lastPlace x
  have hle := halfEven_div_ulp_le hx
  have hleading := le_halfEven_div_ulp hx
  rw [roundWithAccuracy]
  generalize shiftToTargetExponent .binary64 m e acc = shifted at *
  obtain ⟨em, t⟩ := shifted
  dsimp only at hplace hround ⊢
  generalize em.roundedMantissa = n at *
  rw [← hround] at hle hleading
  rw [← hplace] at hleading hge
  have hn : n ≤ 2 ^ 53 := mod_cast hle
  have hvalue : nearest x = n * 2 ^ t := by
    rw [nearest, ← hround, ulp, ← hplace, Int.cast_natCast]
  -- after rounding, a significand of `2^53` is shifted once more
  have hshift := shiftToTargetExponent_exact hn hge
  generalize shiftToTargetExponent .binary64 n t .exact = last at *
  obtain ⟨⟨k, _, _⟩, u⟩ := last
  obtain ⟨hsame, hcanonical⟩ :=
    canonical_of_last_shift hn hge (mod_cast hleading) (hvalue ▸ hlarge) hshift
  rw [value?_pack_ite s hcanonical, hvalue, ← hsame, apply_eq_mul s k, Int.cast_mul,
    Int.cast_natCast, mul_assoc]

/-- A significand and an exponent become the nearest double, unless that is too large. -/
theorem value?_ofScaled (s : Sign) (m : ℕ) (e : ℤ) (hlarge : nearest (m * 2 ^ e) < 2 ^ 1024) :
    value? (ofScaled s m e) = some ((s.apply 1 : ℤ) * nearest (m * 2 ^ e)) := by
  rw [ofScaled]
  split
  · rename_i hm
    rw [value?_pack_zero, hm, Nat.cast_zero, zero_mul, nearest_zero, mul_zero]
  · rename_i hm
    have hpos := scaled_pos (Nat.pos_of_ne_zero hm) e
    have hle : (2 : ℚ) ^ (m.log2 + e : ℤ) ≤ |(m : ℚ) * 2 ^ e| := by
      rw [abs_of_pos hpos, zpow_add₀ two_ne_zero, zpow_natCast]
      exact mul_le_mul_of_nonneg_right (mod_cast Nat.log2_self_le hm) (zpow_pos two_pos e).le
    have hplace := le_lastPlace_of_le hpos.ne' hle
    have hge := le_lastPlace (m * 2 ^ e)
    have htarget := targetExponent_binary64 m e
    rw [UnpackedFloat.round, decreaseExponent]
    generalize Format.binary64.targetExponent (totalExponent m e) = target at *
    -- the exponent is not above the last place, and all digits are there
    have hexact : (m : ℚ) * 2 ^ e / 2 ^ (e - (e - target).toNat) =
        (m <<< (e - target).toNat : ℕ) := by
      rw [Nat.shiftLeft_eq, mul_div_assoc, ← zpow_sub₀ two_ne_zero, sub_sub_cancel, zpow_natCast]
      norm_cast
    refine value?_pack_roundWithAccuracy s hpos ?_ (by omega) hlarge
    rw [hexact]
    exact represents_exact _

/-- An integer below `2^53` times a power of two is stored without rounding. -/
theorem value?_ofScaled_of_lt (s : Sign) (hm : m < 2 ^ 53) (hge : -1074 ≤ e) (hle : e ≤ 971) :
    value? (ofScaled s m e) = some (s.apply m * (2 : ℚ) ^ e) := by
  have hexact : nearest (m * 2 ^ e) = m * 2 ^ e := by
    have hm' : |(m : ℤ)| < 2 ^ 53 := by
      rw [abs_of_nonneg (Int.natCast_nonneg m)]
      exact_mod_cast hm
    simpa using nearest_of_scaled hm' hge
  have hlarge : (m : ℚ) * 2 ^ e < 2 ^ 1024 :=
    calc (m : ℚ) * 2 ^ e < 2 ^ 53 * 2 ^ e := mul_lt_mul_of_pos_right (mod_cast hm) (zpow_pos two_pos e)
      _ ≤ 2 ^ 53 * 2 ^ (971 : ℤ) :=
        mul_le_mul_of_nonneg_left (zpow_le_zpow_right₀ one_le_two hle) (by positivity)
      _ = 2 ^ 1024 := by rw [zpow_ofNat, ← pow_add]
  rw [value?_ofScaled s m e (by rw [hexact]; exact hlarge), hexact, apply_eq_mul s m,
    Int.cast_mul, Int.cast_natCast, mul_assoc]

/-- Rounding a double to an integer is exact. -/
theorem value?_roundTo {dir : Direction} {round : ℚ → ℤ} (hdir : dir.RoundsAs round) {a : Float}
    (ha : value? a = some x) : value? (roundTo dir a) = some (round x : ℚ) := by
  obtain ⟨s, hs, rfl⟩ | ⟨s, m, e, h, hunpack, rfl⟩ := exists_of_value? ha
  · have hzero : round 0 = 0 := mod_cast hdir.intCast 0
    rw [roundTo, hs, ha, hzero, Int.cast_zero]
  · rw [roundTo, hunpack]
    dsimp only
    have hm := (canonical_of_unpack hunpack).significand_lt
    split
    · -- the double is an integer already
      rename_i he
      obtain ⟨k, rfl⟩ := Int.eq_ofNat_of_zero_le he
      have hint : (s.apply m : ℚ) * 2 ^ (k : ℤ) = (s.apply m * 2 ^ k : ℤ) := by push_cast; rfl
      rw [ha, hint, hdir.intCast]
    · rename_i he
      obtain ⟨k, hk⟩ := Int.eq_ofNat_of_zero_le (by omega : 0 ≤ -e)
      have hk0 : 0 < k := by omega
      -- what is left of the significand is at most one more than its half, and so short enough
      have hquotient : dir.quotient s m (2 ^ k) < 2 ^ 53 := by
        have hle := quotient_le dir s m (2 ^ k)
        have hdiv : m / 2 ^ k ≤ m / 2 := Nat.div_le_div_left (Nat.le_self_pow hk0.ne' 2) two_pos
        omega
      have hvalue : (s.apply (dir.quotient s m (2 ^ k)) : ℤ) = round (s.apply m * 2 ^ e) := by
        have he' : (2 : ℚ) ^ e = 1 / (2 ^ k : ℕ) := by
          rw [← neg_neg e, hk, zpow_neg, zpow_natCast, one_div]
          push_cast
          rfl
        have hround := hdir.quotient s m (by positivity : 0 < 2 ^ k)
        rw [he', mul_one_div]
        cases s with
        | positive => exact hround
        | negative =>
          show -_ = round (((-m : ℤ) : ℚ) / _)
          rw [hround, Int.cast_neg, neg_div, hdir.neg, Int.cast_natCast]
      rw [hk, Int.toNat_natCast, value?_ofScaled_of_lt s hquotient (by norm_num) (by norm_num), hvalue,
        zpow_zero, mul_one]

end

end FormulaMachine.Binary64
