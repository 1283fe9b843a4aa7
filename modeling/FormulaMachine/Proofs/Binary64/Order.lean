import FormulaMachine.Dual.Binary64
import Mathlib

/-!
# The order of doubles

Core defines comparison on unpacked doubles. Here is what the choice of a larger or smaller double
needs of it: the order is total on all doubles but NaN, which lies beside it, and a length is never
the negative zero.

* **`lt_iff_not_le`**: of two numbers, one is below the other or not above it.
* **`larger_eq`**, **`smaller_eq`**: either test of two doubles makes the same choice.
* **`hypotenuse_eq_zero`**: a hypotenuse that equals zero is the positive zero.
-/

namespace FormulaMachine.Binary64

open Float.Model (UnpackedFloat)

/-! ## Comparison on unpacked doubles -/

/-- One double is below another if comparison says so. -/
theorem lt_iff {x y : Float} : x < y ↔ (unpack x).compare (unpack y) = some .lt := by
  show (decide (x.toModel < y.toModel)) = true ↔ _
  rw [decide_eq_true_iff]
  show UnpackedFloat.lt _ _ = true ↔ _
  rw [UnpackedFloat.lt, beq_iff_eq]
  rfl

/-- It is not above if comparison says below or equal. -/
theorem le_iff {x y : Float} :
    x ≤ y ↔
      (unpack x).compare (unpack y) = some .lt ∨ (unpack x).compare (unpack y) = some .eq := by
  show (decide (x.toModel ≤ y.toModel)) = true ↔ _
  rw [decide_eq_true_iff]
  show (Option.any _ ((unpack x).compare (unpack y))) = true ↔ _
  rcases (unpack x).compare (unpack y) with _ | _ | _ | _ <;> simp [Ordering.isLE]

theorem isNaN_iff {x : Float} : x.isNaN = true ↔ unpack x = .notANumber :=
  UnpackedFloat.isNaN_iff

/-- Comparing the other way round turns the answer round. -/
theorem compare_swap (u v : UnpackedFloat) : v.compare u = (u.compare v).map Ordering.swap := by
  rcases u with ⟨_ | _⟩ | _ | _ | ⟨_ | _, m, e, _⟩ <;>
    rcases v with ⟨_ | _⟩ | _ | _ | ⟨_ | _, n, f, _⟩ <;>
    first
    | rfl
    | simp only [UnpackedFloat.compare, Option.map_some, Ordering.swap_then,
        Int.compare_swap, Nat.compare_swap]

/-- Only a NaN is not comparable. -/
theorem compare_eq_none_iff (u v : UnpackedFloat) :
    u.compare v = none ↔ u = .notANumber ∨ v = .notANumber := by
  rcases u with ⟨_ | _⟩ | _ | _ | ⟨_ | _, m, e, _⟩ <;>
    rcases v with ⟨_ | _⟩ | _ | _ | ⟨_ | _, n, f, _⟩ <;> simp [UnpackedFloat.compare]

/-! ## The order and NaN -/

/-- Two doubles are comparable if neither is NaN. -/
theorem compare_ne_none_iff {x y : Float} :
    (unpack x).compare (unpack y) ≠ none ↔ ¬ x.isNaN = true ∧ ¬ y.isNaN = true := by
  rw [ne_eq, compare_eq_none_iff, not_or, ← isNaN_iff, ← isNaN_iff]

/-- What is below something is a number, and so is that. -/
theorem not_isNaN_of_lt {x y : Float} (h : x < y) : ¬ x.isNaN = true ∧ ¬ y.isNaN = true := by
  refine compare_ne_none_iff.1 fun hnone => ?_
  rw [lt_iff, hnone] at h
  cases h

/-- Neither of two doubles is NaN if one is not above the other. -/
theorem not_isNaN_of_le {x y : Float} (h : x ≤ y) : ¬ x.isNaN = true ∧ ¬ y.isNaN = true := by
  refine compare_ne_none_iff.1 fun hnone => ?_
  rw [le_iff, hnone] at h
  cases h <;> contradiction

/-- The order is total on numbers. -/
theorem lt_iff_not_le {x y : Float} (hx : ¬ x.isNaN = true) (hy : ¬ y.isNaN = true) :
    x < y ↔ ¬ y ≤ x := by
  have hsome := compare_ne_none_iff.2 ⟨hx, hy⟩
  rw [lt_iff, le_iff, compare_swap (unpack x) (unpack y)]
  rcases hcompare : (unpack x).compare (unpack y) with _ | _ | _ | _
  · exact absurd hcompare hsome
  all_goals simp

/-- There is one NaN, since its bits are not told apart. -/
theorem eq_of_isNaN {x y : Float} (hx : x.isNaN = true) (hy : y.isNaN = true) : x = y := by
  rw [Float.isNaN_eq_decide_eq_nan, decide_eq_true_iff] at hx hy
  rw [hx, hy]

/-! ## Larger, smaller, and the difference -/

/-- A choice by the test "below" is the choice by the test "not above". Where a NaN is on either
side, the two tests fail for different reasons and the choice is the same. -/
theorem choice_eq (x y : Float) {below above : Prop} [Decidable below] [Decidable above]
    (hbelow : below → ¬ y.isNaN = true) (habove : above → ¬ x.isNaN = true)
    (htotal : ¬ x.isNaN = true → ¬ y.isNaN = true → (below ↔ ¬ above)) :
    (if x.isNaN then y else if below then y else x) =
      if y.isNaN || decide above then x else y := by
  by_cases hx : x.isNaN = true <;> by_cases hy : y.isNaN = true
  -- two NaNs are the same value
  · rw [if_pos hx, hy, Bool.true_or, if_pos rfl]
    exact (eq_of_isNaN hx hy).symm
  -- with one NaN no test succeeds
  · have hnot : ¬ above := fun h => habove h hx
    rw [if_pos hx, Bool.eq_false_iff.2 hy, decide_eq_false hnot]
    rfl
  · have hnot : ¬ below := fun h => hbelow h hy
    rw [if_neg hx, if_neg hnot, hy, Bool.true_or, if_pos rfl]
  · rw [if_neg hx, Bool.eq_false_iff.2 hy, Bool.false_or]
    by_cases h : above
    · rw [if_neg (fun hlt => (htotal hx hy).1 hlt h), if_pos (decide_eq_true h)]
    · rw [if_pos ((htotal hx hy).2 h), if_neg (by rwa [decide_eq_true_iff])]

/-- The choice of the larger double, told by the test that the rule for slopes makes. -/
theorem larger_eq (x y : Float) :
    larger x y = if y.isNaN || decide (y ≤ x) then x else y :=
  choice_eq x y (fun h => (not_isNaN_of_lt h).2) (fun h => (not_isNaN_of_le h).2) lt_iff_not_le

/-- The choice of the smaller double, told by the test that the rule for slopes makes. -/
theorem smaller_eq (x y : Float) :
    smaller x y = if y.isNaN || decide (x ≤ y) then x else y :=
  choice_eq x y (fun h => (not_isNaN_of_lt h).1) (fun h => (not_isNaN_of_le h).1)
    fun hx hy => lt_iff_not_le hy hx

theorem positiveDifference_of_lt {x y : Float} (h : y < x) : positiveDifference x y = x - y := by
  obtain ⟨hy, hx⟩ := not_isNaN_of_lt h
  rw [positiveDifference, if_neg hx, if_neg hy, if_pos h]

/-! ## Lengths -/

/-- The sign bit is not set. -/
def HasPositiveSign (x : Float) : Prop :=
  @UnpackedFloat.unpackSign .binary64 x.toModel.toBits.toBitVec = 0#1

/-- No sign, or a positive one. -/
def NotNegative : UnpackedFloat → Prop
  | .notANumber => True
  | .infinity s | .zero s | .finite s .. => s = .positive

/-- What has no negative sign is packed without the sign bit, in each of the forms that packing has.
-/
theorem hasPositiveSign_pack {u : UnpackedFloat} (h : NotNegative u) :
    HasPositiveSign ⟨.pack u⟩ := by
  show UnpackedFloat.unpackSign (u.pack .binary64) = UnpackedFloat.Sign.positive.toBitVec
  cases u with
  | notANumber => exact UnpackedFloat.unpackSign_packComponents ..
  | infinity s =>
    rw [show s = .positive from h]
    exact UnpackedFloat.unpackSign_packComponents ..
  | zero s =>
    rw [show s = .positive from h]
    exact UnpackedFloat.unpackSign_packComponents ..
  | finite s m e hm =>
    rw [show s = .positive from h, UnpackedFloat.pack]
    -- too large for the format, normal, or subnormal
    split
    · exact UnpackedFloat.unpackSign_packComponents ..
    · split <;> exact UnpackedFloat.unpackSign_packComponents ..

theorem not_hasPositiveSign_neg_zero : ¬ HasPositiveSign (-0) := by
  show ¬ (1#1 = 0#1)
  decide

/-- A magnitude has no sign. -/
theorem hasPositiveSign_abs (x : Float) : HasPositiveSign x.abs := by
  refine hasPositiveSign_pack ?_
  cases x.toModel.unpack with
  | notANumber => exact trivial
  | infinity | zero | finite => rfl

/-- Rounding keeps the sign. -/
theorem notNegative_roundWithAccuracy (m : Nat) (e : Int) (a : UnpackedFloat.Accuracy) :
    NotNegative (.roundWithAccuracy .binary64 .positive m e a) := by
  simp only [UnpackedFloat.roundWithAccuracy]
  split <;> rfl

/-- Every branch gives a magnitude or a square root. -/
theorem hasPositiveSign_hypotenuse (x y : Float) : HasPositiveSign (Special.hypotenuse x y) := by
  rw [Special.hypotenuse.eq_def]
  split
  · exact hasPositiveSign_pack rfl
  · exact hasPositiveSign_pack rfl
  · exact hasPositiveSign_pack trivial
  · exact hasPositiveSign_pack trivial
  · exact hasPositiveSign_abs y
  · exact hasPositiveSign_abs x
  · exact hasPositiveSign_pack (notNegative_roundWithAccuracy ..)

/-- A hypotenuse that equals zero is the positive zero. -/
theorem hypotenuse_eq_zero {x y : Float} (h : (Special.hypotenuse x y == 0) = true) :
    Special.hypotenuse x y = 0 := by
  -- equal to zero: either zero, of which the negative one has a sign bit
  obtain ⟨-, -, hzero | ⟨hzero, -⟩ | ⟨hnegative, -⟩⟩ := Float.beq_iff_ne_nan_and_eq.1 h
  · exact hzero
  · exact hzero
  -- the negative zero is excluded, since a hypotenuse has no sign bit
  · have hsign := hasPositiveSign_hypotenuse x y
    rw [hnegative] at hsign
    exact absurd hsign not_hasPositiveSign_neg_zero

end FormulaMachine.Binary64
