import FormulaMachine.Proofs.Binary64.HalfEven
import FormulaMachine.Proofs.Binary64.Zeros

/-!
# The value of a double

A finite double stands for the rational `±m · 2^e`. Its bits tell `m` and `e` in one way only: the
significand has all of its 53 bits, unless the exponent is the smallest there is.

* `value?`: the value of a double, none for infinities and NaN.
* `Canonical`: the significands and exponents that doubles have.
* **`canonical_of_unpack`**, **`unpack_pack_finite`**: a finite double is in that form, and what is
  in that form is a double.
-/

namespace FormulaMachine.Binary64

open Float.Model (UnpackedFloat Format)
open Float.Model.UnpackedFloat (unpackExponent unpackMantissa packComponents)

/-- The value of a finite double. -/
def value? (x : Float) : Option ℚ :=
  match unpack x with
  | .zero _ => some 0
  | .finite s m e _ => some (s.apply m * (2 : ℚ) ^ e)
  | .infinity _ | .notANumber => none

/-! ## Significands and exponents -/

/-- The significands and exponents of finite doubles: the leading bit of 53 is set, unless the
exponent cannot be smaller. -/
structure Canonical (m : ℕ) (e : ℤ) : Prop where
  significand_lt : m < 2 ^ 53
  le_exponent : -1074 ≤ e
  exponent_le : e ≤ 971
  leading : e = -1074 ∨ 2 ^ 52 ≤ m

theorem exponentBias_binary64 : Format.binary64.exponentBias = 1023 := rfl

/-- The leading one in front of a stored fraction has the weight `2^52`. -/
theorem toNat_leadingOne (fraction : BitVec 52) :
    (1#1 ++ fraction).toNat = 2 ^ 52 + fraction.toNat := by
  rw [BitVec.toNat_append, ← Nat.shiftLeft_add_eq_or_of_lt fraction.isLt]
  rfl

/-- What a finite double is unpacked to. A stored exponent of zero stands for the smallest exponent
and no leading one; all others but the largest put one in front of the fraction. -/
theorem canonical_of_unpack {x : Float} {s : Sign} {m : ℕ} {e : ℤ} {h : 0 < m}
    (hx : unpack x = .finite s m e h) : Canonical m e := by
  have hbits : unpack x = UnpackedFloat.unpack .binary64 x.toModel.toBits.toBitVec := rfl
  rw [hbits, UnpackedFloat.unpack] at hx
  have hfraction : (@unpackMantissa .binary64 _).toNat < 2 ^ 52 :=
    (@unpackMantissa .binary64 x.toModel.toBits.toBitVec).isLt
  have hbiased : (@unpackExponent .binary64 _).toNat < 2 ^ 11 :=
    (@unpackExponent .binary64 x.toModel.toBits.toBitVec).isLt
  simp only [exponentBias_binary64] at hx
  split at hx
  · split at hx <;> cases hx
  -- the largest stored exponent is that of infinities and NaN
  · rename_i hinfinite
    have hfinite : (@unpackExponent .binary64 _).toNat ≠ 2047 := fun heq =>
      hinfinite (BitVec.eq_of_toNat_eq heq)
    split at hx
    -- no leading one: the stored fraction is the significand, and a double that is not zero has
    -- some
    · rename_i hsubnormal
      split at hx
      · cases hx
      · cases hx
        rw [hsubnormal]
        exact ⟨by omega, by decide, by decide, .inl (by decide)⟩
    -- a leading one in front of the fraction
    · rename_i hnormal
      have hpos : (@unpackExponent .binary64 _).toNat ≠ 0 := fun heq =>
        hnormal (BitVec.eq_of_toNat_eq heq)
      cases hx
      rw [toNat_leadingOne]
      exact ⟨by omega, by omega, by omega, .inr (by omega)⟩

/-- A significand with its leading bit is stored without it, one without it with exponent zero. -/
theorem pack_finite (s : Sign) {m : ℕ} {e : ℤ} (h : 0 < m) (hcanonical : Canonical m e) :
    UnpackedFloat.pack .binary64 (.finite s m e h) =
      packComponents .binary64 s
        (if 2 ^ 52 ≤ m then BitVec.ofNat 11 (e + 1075).toNat else 0) (BitVec.ofNat 52 m) := by
  obtain ⟨hlt, hge, hle, -⟩ := hcanonical
  -- the leading bit is there exactly for normal doubles, which have an exponent field that is not
  -- zero
  have hlog : m.log2 + 1 = 53 ↔ 2 ^ 52 ≤ m := by
    rw [← Nat.le_log2 h.ne']
    have : m.log2 < 53 := (Nat.log2_lt h.ne').2 hlt
    omega
  have hbiased : (e + 1075).toNat = (e + 1023 + 52).toNat := by congr 1; ring
  have hsmall : ¬ 2 ^ 11 ≤ (e + 1023 + 52).toNat + 1 := by omega
  rw [hbiased]
  by_cases hm : 2 ^ 52 ≤ m
  · rw [if_pos hm]
    exact (if_neg hsmall).trans (if_pos (hlog.2 hm))
  · rw [if_neg hm]
    exact (if_neg hsmall).trans (if_neg (hlog.not.2 hm))

/-- What is in this form is packed without loss. The leading bit decides which of the two ways of
storing it is taken, and unpacking finds the same. -/
theorem unpack_pack_finite (s : Sign) {m : ℕ} {e : ℤ} (h : 0 < m) (hcanonical : Canonical m e) :
    unpack ⟨.pack (.finite s m e h)⟩ = .finite s m e h := by
  show UnpackedFloat.unpack .binary64 (UnpackedFloat.pack .binary64 (.finite s m e h)) = _
  rw [pack_finite s h hcanonical]
  obtain ⟨hlt, hge, hle, hleading⟩ := hcanonical
  simp only [UnpackedFloat.unpack, UnpackedFloat.unpackMantissa_packComponents,
    UnpackedFloat.unpackExponent_packComponents, UnpackedFloat.unpackSign_packComponents,
    UnpackedFloat.Sign.ofBitVec_toBitVec, exponentBias_binary64]
  have hfraction : (BitVec.ofNat 52 m).toNat = m % 2 ^ 52 := BitVec.toNat_ofNat m 52
  by_cases hm : 2 ^ 52 ≤ m
  -- with its leading bit, the exponent is stored with its bias and is neither extreme
  · have hbiased : (BitVec.ofNat 11 (e + 1075).toNat).toNat = (e + 1075).toNat := by
      rw [BitVec.toNat_ofNat]
      omega
    have hfinite : BitVec.ofNat 11 (e + 1075).toNat ≠ -1#11 := fun heq => by
      have : (e + 1075).toNat = 2047 := hbiased ▸ congrArg BitVec.toNat heq
      omega
    have hnormal : BitVec.ofNat 11 (e + 1075).toNat ≠ 0#11 := fun heq => by
      have : (e + 1075).toNat = 0 := hbiased ▸ congrArg BitVec.toNat heq
      omega
    rw [if_pos hm, if_neg hfinite, if_neg hnormal]
    have hsignificand : (1#1 ++ BitVec.ofNat 52 m).toNat = m := by
      rw [toNat_leadingOne, hfraction]
      omega
    congr 1
    rw [hbiased]
    omega
  -- without it, the significand is stored as it is and the exponent is the smallest
  · have hm' : (BitVec.ofNat 52 m).toNat = m := by
      rw [hfraction]
      omega
    have hnonzero : BitVec.ofNat 52 m ≠ 0#52 := fun heq => by
      have : m = 0 := hm' ▸ congrArg BitVec.toNat heq
      omega
    obtain rfl : e = -1074 := hleading.resolve_right hm
    rw [if_neg hm, if_neg (by decide), if_pos (by decide), dif_neg hnonzero]
    congr 1

/-! ## Signs -/

@[simp] theorem apply_zero (s : Sign) : s.apply 0 = 0 := by
  cases s <;> rfl

theorem apply_eq_mul (s : Sign) (n : ℤ) : s.apply n = s.apply 1 * n := by
  cases s <;> simp [UnpackedFloat.Sign.apply]

/-- The other sign is the same of the negation. -/
theorem apply_neg (s : Sign) (n : ℤ) : (-s).apply n = s.apply (-n) := by
  cases s with
  | positive => rfl
  | negative => exact (neg_neg n).symm

/-- Signs are divided like the numbers one and minus one. -/
theorem apply_div (s t : Sign) : (s / t).apply 1 = s.apply 1 * t.apply 1 := by
  cases s <;> cases t <;> rfl

theorem apply_mul_self (s : Sign) : s.apply 1 * s.apply 1 = 1 := by
  cases s <;> rfl

/-- The sign of an integer with that of its absolute value. -/
theorem apply_natAbs (s : Sign) (r : ℤ) : (if r < 0 then -s else s).apply r.natAbs = s.apply r := by
  split
  · rw [apply_neg, Int.ofNat_natAbs_of_nonpos (by omega), neg_neg]
  · rw [Int.natAbs_of_nonneg (by omega)]

@[simp] theorem abs_apply (s : Sign) (n : ℤ) : |s.apply n| = |n| := by
  cases s <;> simp [UnpackedFloat.Sign.apply]

/-! ## Values -/

theorem scaled_pos {m : ℕ} (h : 0 < m) (e : ℤ) : (0 : ℚ) < m * 2 ^ e :=
  mul_pos (mod_cast h) (zpow_pos two_pos e)

theorem positive_apply_mul (m : ℕ) (e : ℤ) :
    (UnpackedFloat.Sign.positive.apply m : ℚ) * 2 ^ e = m * 2 ^ e := rfl

theorem negative_apply_mul (m : ℕ) (e : ℤ) :
    (UnpackedFloat.Sign.negative.apply m : ℚ) * 2 ^ e = -(m * 2 ^ e) := by
  simp [UnpackedFloat.Sign.apply]

section

variable {x : Float} {v : ℚ} {s : Sign} {m : ℕ} {e : ℤ}

theorem value?_zero (hx : unpack x = .zero s) : value? x = some 0 := by
  rw [value?, hx]

theorem value?_finite {h : 0 < m} (hx : unpack x = .finite s m e h) :
    value? x = some (s.apply m * (2 : ℚ) ^ e) := by
  rw [value?, hx]

/-- The doubles with a value are the finite ones. -/
theorem exists_value?_iff : (∃ v, value? x = some v) ↔ x.isFinite = true := by
  show _ ↔ (unpack x).isFinite = true
  rw [value?]
  cases unpack x <;> simp [UnpackedFloat.isFinite]

/-- What has a value is not NaN. -/
theorem isNaN_eq_false_of_value? (hx : value? x = some v) : x.isNaN = false :=
  Bool.eq_false_iff.2 fun h => by
    rw [value?, isNaN_iff.1 h] at hx
    cases hx

/-- A double with a value is a zero or `±m · 2^e`. -/
theorem exists_of_value? (hx : value? x = some v) :
    (∃ s, unpack x = .zero s ∧ v = 0) ∨
      ∃ s m e h, unpack x = .finite s m e h ∧ v = s.apply m * 2 ^ e := by
  rw [value?] at hx
  split at hx
  · exact .inl ⟨_, ‹_›, (Option.some.inj hx).symm⟩
  · exact .inr ⟨_, _, _, _, ‹_›, (Option.some.inj hx).symm⟩
  · cases hx
  · cases hx

/-- Where the value is not zero, the second. -/
theorem exists_of_value?_ne_zero (hx : value? x = some v) (hv : v ≠ 0) :
    ∃ s m e h, unpack x = .finite s m e h ∧ v = s.apply m * 2 ^ e := by
  obtain ⟨s, -, hzero⟩ | hfinite := exists_of_value? hx
  · exact absurd hzero hv
  · exact hfinite

/-- A packed zero has the value zero. -/
theorem value?_pack_zero (s : Sign) : value? ⟨.pack (.zero s)⟩ = some 0 :=
  value?_zero UnpackedFloat.unpack_packedZero

/-- A packed significand and exponent have the value they stand for. -/
theorem value?_pack_finite (s : Sign) {m : ℕ} {e : ℤ} (h : 0 < m) (hcanonical : Canonical m e) :
    value? ⟨.pack (.finite s m e h)⟩ = some (s.apply m * (2 : ℚ) ^ e) :=
  value?_finite (unpack_pack_finite s h hcanonical)

/-- The value of a double is an integer below `2^53` times a power of two. -/
theorem exists_scaled_of_value? (hx : value? x = some v) :
    ∃ (m : ℕ) (e : ℤ), m < 2 ^ 53 ∧ |v| = m * 2 ^ e := by
  obtain ⟨s, -, rfl⟩ | ⟨s, m, e, h, hunpack, rfl⟩ := exists_of_value? hx
  · exact ⟨0, 0, by norm_num, by simp⟩
  · refine ⟨m, e, (canonical_of_unpack hunpack).significand_lt, ?_⟩
    rw [abs_mul, abs_of_pos (zpow_pos (two_pos : (0 : ℚ) < 2) e), ← Int.cast_abs, abs_apply,
      Nat.abs_cast, Int.cast_natCast]

end

end FormulaMachine.Binary64
