import FormulaMachine.Proofs.Binary64.Order

/-!
# Zeros and NaN in the arithmetic of doubles

What slopes need of arithmetic: a NaN is never lost again, a zero stays a zero in sums, and in
products and quotients unless the other operand is not a number that can be multiplied or divided by.
A zero that is added to anything else makes no difference.

* `IsZero`: one of the two zeros.
* **`isNaN_mul_of_isZero`**, **`isNaN_div_of_isZero`**: a product with a zero, and a zero divided, are
  a zero or else NaN.
* **`SameNumber`**: equal as numbers, kept by every operation.
-/

namespace FormulaMachine.Binary64

open Float.Model (UnpackedFloat)

/-! ## Packing -/

theorem isNaN_pack_notANumber : (⟨.pack .notANumber⟩ : Float).isNaN = true :=
  isNaN_iff.2 (@UnpackedFloat.unpack_packedNaN .binary64)

/-- A double is packed from what it is unpacked to. -/
theorem pack_unpack (x : Float) : (⟨.pack (unpack x)⟩ : Float) = x := by
  refine Float.toBits_inj.1 (UInt64.toBitVec_inj.1 ?_)
  exact UnpackedFloat.pack_unpack_of_valid x.toModel.valid

/-- One of the two zeros. -/
def IsZero (x : Float) : Prop := ∃ s, unpack x = .zero s

theorem isZero_pack_zero (s : UnpackedFloat.Sign) : IsZero ⟨.pack (.zero s)⟩ :=
  ⟨s, UnpackedFloat.unpack_packedZero⟩

/-- The zeros are the doubles that compare equal to zero. -/
theorem isZero_iff {x : Float} : IsZero x ↔ (x == 0) = true := by
  show _ ↔ UnpackedFloat.beq (unpack x) (.zero .positive) = true
  rw [IsZero, UnpackedFloat.beq_iff_ne_notANumber_and_eq]
  -- of the unpacked forms only a zero compares equal to zero
  cases unpack x with
  | zero s => cases s <;> simp
  | notANumber | infinity | finite => simp

instance (x : Float) : Decidable (IsZero x) := decidable_of_iff _ isZero_iff.symm

/-- NaN is no zero. -/
theorem not_isZero_of_isNaN {x : Float} (h : x.isNaN = true) : ¬ IsZero x := by
  rintro ⟨s, hs⟩
  rw [isNaN_iff, hs] at h
  cases h

/-! ## NaN is never lost -/

section

variable {x y : Float}

theorem isNaN_neg (h : x.isNaN = true) : (-x).isNaN = true := by
  show (⟨.pack (unpack x).neg⟩ : Float).isNaN = true
  rw [isNaN_iff.1 h]
  exact isNaN_pack_notANumber

/-- A sum with NaN is NaN, on either side. -/
theorem isNaN_add (h : x.isNaN = true ∨ y.isNaN = true) : (x + y).isNaN = true := by
  show (⟨.pack (.add .binary64 (unpack x) (unpack y))⟩ : Float).isNaN = true
  rw [isNaN_iff, isNaN_iff] at h
  obtain h | h := h
  · rw [h]
    exact isNaN_pack_notANumber
  · rw [h]
    cases unpack x <;> exact isNaN_pack_notANumber

/-- A difference with NaN is NaN, on either side. -/
theorem isNaN_sub (h : x.isNaN = true ∨ y.isNaN = true) : (x - y).isNaN = true := by
  show (⟨.pack (.sub .binary64 (unpack x) (unpack y))⟩ : Float).isNaN = true
  rw [isNaN_iff, isNaN_iff] at h
  obtain h | h := h
  · rw [h]
    exact isNaN_pack_notANumber
  · rw [h]
    cases unpack x <;> exact isNaN_pack_notANumber

/-- A product with NaN is NaN, even if the other factor is a zero. -/
theorem isNaN_mul (h : x.isNaN = true ∨ y.isNaN = true) : (x * y).isNaN = true := by
  show (⟨.pack (.mul .binary64 (unpack x) (unpack y))⟩ : Float).isNaN = true
  rw [isNaN_iff, isNaN_iff] at h
  obtain h | h := h
  · rw [h]
    exact isNaN_pack_notANumber
  · rw [h]
    cases unpack x <;> exact isNaN_pack_notANumber

/-- A NaN divided is NaN. -/
theorem isNaN_div (h : x.isNaN = true) : (x / y).isNaN = true := by
  show (⟨.pack (.div .binary64 (unpack x) (unpack y))⟩ : Float).isNaN = true
  rw [isNaN_iff.1 h]
  exact isNaN_pack_notANumber

end

/-! ## Zeros -/

section

variable {x y v : Float}

theorem isZero_neg (h : IsZero x) : IsZero (-x) := by
  obtain ⟨s, hs⟩ := h
  show IsZero ⟨.pack (unpack x).neg⟩
  rw [hs]
  exact isZero_pack_zero _

/-- Two zeros add up to a zero, whatever their signs are. -/
theorem isZero_add (hx : IsZero x) (hy : IsZero y) : IsZero (x + y) := by
  obtain ⟨s, hs⟩ := hx
  obtain ⟨t, ht⟩ := hy
  show IsZero ⟨.pack (.add .binary64 (unpack x) (unpack y))⟩
  rw [hs, ht, UnpackedFloat.add]
  split <;> exact isZero_pack_zero _

/-- The difference of two zeros is a zero. -/
theorem isZero_sub (hx : IsZero x) (hy : IsZero y) : IsZero (x - y) := by
  obtain ⟨s, hs⟩ := hx
  obtain ⟨t, ht⟩ := hy
  show IsZero ⟨.pack (.sub .binary64 (unpack x) (unpack y))⟩
  rw [hs, ht, UnpackedFloat.sub]
  split <;> exact isZero_pack_zero _

/-- A zero makes no difference to a sum with anything else. -/
theorem zero_add (hx : IsZero x) (hy : ¬ IsZero y) : x + y = y := by
  obtain ⟨s, hs⟩ := hx
  show (⟨.pack (.add .binary64 (unpack x) (unpack y))⟩ : Float) = y
  -- whatever else the other summand is, it is the sum
  have hsum : UnpackedFloat.add .binary64 (unpack x) (unpack y) = unpack y := by
    rw [hs]
    cases hy' : unpack y with
    | zero t => exact absurd ⟨t, hy'⟩ hy
    | notANumber | infinity | finite => rfl
  rw [hsum, pack_unpack]

/-- A zero on the right leaves every other double as it is. -/
theorem add_zero (hx : ¬ IsZero x) (hy : IsZero y) : x + y = x := by
  obtain ⟨s, hs⟩ := hy
  show (⟨.pack (.add .binary64 (unpack x) (unpack y))⟩ : Float) = x
  have hsum : UnpackedFloat.add .binary64 (unpack x) (unpack y) = unpack x := by
    rw [hs]
    cases hx' : unpack x with
    | zero t => exact absurd ⟨t, hx'⟩ hx
    | notANumber | infinity | finite => rfl
  rw [hsum, pack_unpack]

/-- A zero taken away makes no difference to anything else. -/
theorem sub_zero (hx : ¬ IsZero x) (hy : IsZero y) : x - y = x := by
  obtain ⟨s, hs⟩ := hy
  show (⟨.pack (.sub .binary64 (unpack x) (unpack y))⟩ : Float) = x
  have hdifference : UnpackedFloat.sub .binary64 (unpack x) (unpack y) = unpack x := by
    rw [hs]
    cases hx' : unpack x with
    | zero t => exact absurd ⟨t, hx'⟩ hx
    | notANumber | infinity | finite => rfl
  rw [hdifference, pack_unpack]

/-- What is taken away from a zero changes its sign. -/
theorem zero_sub (hx : IsZero x) (hy : ¬ IsZero y) : x - y = -y := by
  obtain ⟨s, hs⟩ := hx
  show (⟨.pack (.sub .binary64 (unpack x) (unpack y))⟩ : Float) = ⟨.pack (unpack y).neg⟩
  rw [hs]
  cases hy' : unpack y with
  | zero t => exact absurd ⟨t, hy'⟩ hy
  | notANumber | infinity | finite => rfl

/-- A product with a zero is a zero, unless the other factor is infinite or NaN. -/
theorem isZero_mul (hx : IsZero x) (hv : v.isFinite = true) : IsZero (v * x) ∧ IsZero (x * v) := by
  obtain ⟨s, hs⟩ := hx
  have hfinite : (unpack v).isFinite = true := hv
  show IsZero ⟨.pack (.mul .binary64 (unpack v) (unpack x))⟩ ∧
    IsZero ⟨.pack (.mul .binary64 (unpack x) (unpack v))⟩
  rw [hs]
  -- zeros and finite factors give a zero, the others are excluded
  cases hv' : unpack v with
  | zero | finite => exact ⟨isZero_pack_zero _, isZero_pack_zero _⟩
  | notANumber | infinity =>
    rw [hv'] at hfinite
    cases hfinite

/-- A zero times an infinity or NaN is NaN. -/
theorem isNaN_mul_of_isZero (hx : IsZero x) (hv : v.isFinite = false) :
    (v * x).isNaN = true ∧ (x * v).isNaN = true := by
  obtain ⟨s, hs⟩ := hx
  have hfinite : (unpack v).isFinite = false := hv
  show (⟨.pack (.mul .binary64 (unpack v) (unpack x))⟩ : Float).isNaN = true ∧
    (⟨.pack (.mul .binary64 (unpack x) (unpack v))⟩ : Float).isNaN = true
  rw [hs]
  cases hv' : unpack v with
  | notANumber | infinity => exact ⟨isNaN_pack_notANumber, isNaN_pack_notANumber⟩
  | zero | finite =>
    rw [hv'] at hfinite
    cases hfinite

/-- A zero divided is a zero, unless it is divided by a zero or NaN. -/
theorem isZero_div (hx : IsZero x) (hv : ¬ IsZero v) (hnan : v.isNaN = false) :
    IsZero (x / v) := by
  obtain ⟨s, hs⟩ := hx
  show IsZero ⟨.pack (.div .binary64 (unpack x) (unpack v))⟩
  rw [hs]
  cases hv' : unpack v with
  | finite | infinity => exact isZero_pack_zero _
  | zero t => exact absurd ⟨t, hv'⟩ hv
  | notANumber =>
    rw [isNaN_iff.2 hv'] at hnan
    cases hnan

/-- A zero divided by a zero or by NaN is NaN. -/
theorem isNaN_div_of_isZero (hx : IsZero x) (hv : IsZero v ∨ v.isNaN = true) :
    (x / v).isNaN = true := by
  obtain ⟨s, hs⟩ := hx
  show (⟨.pack (.div .binary64 (unpack x) (unpack v))⟩ : Float).isNaN = true
  rw [hs]
  obtain ⟨t, ht⟩ | hnan := hv
  · rw [ht]
    exact isNaN_pack_notANumber
  · rw [isNaN_iff.1 hnan]
    exact isNaN_pack_notANumber

end

/-! ## Equal as numbers -/

/-- Equal as numbers, where a NaN is taken to equal itself. -/
def SameNumber (x y : Float) : Prop := (x == y) = true ∨ x.isNaN = true ∧ y.isNaN = true

instance (x y : Float) : Decidable (SameNumber x y) := inferInstanceAs (Decidable (_ ∨ _))

/-- The same number is the same double, or the other zero. -/
theorem sameNumber_iff {x y : Float} : SameNumber x y ↔ x = y ∨ IsZero x ∧ IsZero y := by
  rw [SameNumber, isZero_iff, isZero_iff]
  constructor
  · rintro (h | ⟨hx, hy⟩)
    -- what compares equal is the same double, or one zero and the other
    · obtain ⟨-, -, rfl | ⟨rfl, rfl⟩ | ⟨rfl, rfl⟩⟩ := Float.beq_iff_ne_nan_and_eq.1 h
      · exact .inl rfl
      · exact .inr ⟨rfl, rfl⟩
      · exact .inr ⟨rfl, rfl⟩
    · exact .inl (eq_of_isNaN hx hy)
  · rintro (rfl | ⟨hx, hy⟩)
    · rcases Bool.eq_false_or_eq_true (x == x) with hsame | hnan
      · exact .inl hsame
      · rw [Float.beq_self_eq_false_iff] at hnan
        exact .inr ⟨by simp [hnan], by simp [hnan]⟩
    · exact .inl (PartialEquivBEq.trans hx (PartialEquivBEq.symm hy))

namespace SameNumber

variable {x y x' y' v : Float}

theorem refl (x : Float) : SameNumber x x := sameNumber_iff.2 (.inl rfl)

/-- The two zeros are one number. -/
theorem of_isZero (hx : IsZero x) (hy : IsZero y) : SameNumber x y :=
  sameNumber_iff.2 (.inr ⟨hx, hy⟩)

theorem of_isNaN (hx : x.isNaN = true) (hy : y.isNaN = true) : SameNumber x y := .inr ⟨hx, hy⟩

/-- A zero is the same number as a zero only. -/
theorem isZero_iff (h : SameNumber x y) : IsZero x ↔ IsZero y := by
  obtain rfl | ⟨hx, hy⟩ := sameNumber_iff.1 h
  · exact Iff.rfl
  · exact iff_of_true hx hy

/-- The same numbers have the same negations. -/
theorem neg (h : SameNumber x y) : SameNumber (-x) (-y) := by
  obtain rfl | ⟨hx, hy⟩ := sameNumber_iff.1 h
  · exact refl _
  · exact of_isZero (isZero_neg hx) (isZero_neg hy)

/-- The same numbers have the same sums. -/
theorem add (hx : SameNumber x x') (hy : SameNumber y y') : SameNumber (x + y) (x' + y') := by
  -- a zero makes a difference to a zero only, and then to its sign
  obtain rfl | ⟨hx, hx'⟩ := sameNumber_iff.1 hx <;> obtain rfl | ⟨hy, hy'⟩ := sameNumber_iff.1 hy
  · exact refl _
  · by_cases hzero : IsZero x
    · exact of_isZero (isZero_add hzero hy) (isZero_add hzero hy')
    · rw [add_zero hzero hy, add_zero hzero hy']
      exact refl _
  · by_cases hzero : IsZero y
    · exact of_isZero (isZero_add hx hzero) (isZero_add hx' hzero)
    · rw [zero_add hx hzero, zero_add hx' hzero]
      exact refl _
  · exact of_isZero (isZero_add hx hy) (isZero_add hx' hy')

/-- The same numbers have the same differences. -/
theorem sub (hx : SameNumber x x') (hy : SameNumber y y') : SameNumber (x - y) (x' - y') := by
  -- as for sums: unless the other operand is a zero too, a zero makes no difference
  obtain rfl | ⟨hx, hx'⟩ := sameNumber_iff.1 hx <;> obtain rfl | ⟨hy, hy'⟩ := sameNumber_iff.1 hy
  · exact refl _
  · by_cases hzero : IsZero x
    · exact of_isZero (isZero_sub hzero hy) (isZero_sub hzero hy')
    · rw [sub_zero hzero hy, sub_zero hzero hy']
      exact refl _
  · by_cases hzero : IsZero y
    · exact of_isZero (isZero_sub hx hzero) (isZero_sub hx' hzero)
    · rw [zero_sub hx hzero, zero_sub hx' hzero]
      exact refl _
  · exact of_isZero (isZero_sub hx hy) (isZero_sub hx' hy')

/-- The same numbers have the same products with any factor: two zeros give two zeros, or NaN with a
factor that is not finite. -/
theorem mul (v : Float) (h : SameNumber x y) :
    SameNumber (v * x) (v * y) ∧ SameNumber (x * v) (y * v) := by
  obtain rfl | ⟨hx, hy⟩ := sameNumber_iff.1 h
  · exact ⟨refl _, refl _⟩
  · rcases Bool.eq_false_or_eq_true v.isFinite with hv | hv
    · obtain ⟨hvx, hxv⟩ := isZero_mul hx hv
      obtain ⟨hvy, hyv⟩ := isZero_mul hy hv
      exact ⟨of_isZero hvx hvy, of_isZero hxv hyv⟩
    · obtain ⟨hvx, hxv⟩ := isNaN_mul_of_isZero hx hv
      obtain ⟨hvy, hyv⟩ := isNaN_mul_of_isZero hy hv
      exact ⟨of_isNaN hvx hvy, of_isNaN hxv hyv⟩

/-- The same numbers divided by anything are the same; what is divided by makes no difference here.
-/
theorem div (h : SameNumber x y) (v : Float) : SameNumber (x / v) (y / v) := by
  obtain rfl | ⟨hx, hy⟩ := sameNumber_iff.1 h
  · exact refl _
  -- two zeros divided by the same thing are both zeros or both NaN
  · by_cases hv : IsZero v ∨ v.isNaN = true
    · exact of_isNaN (isNaN_div_of_isZero hx hv) (isNaN_div_of_isZero hy hv)
    · rw [not_or, Bool.not_eq_true] at hv
      exact of_isZero (isZero_div hx hv.1 hv.2) (isZero_div hy hv.1 hv.2)

end SameNumber

end FormulaMachine.Binary64
