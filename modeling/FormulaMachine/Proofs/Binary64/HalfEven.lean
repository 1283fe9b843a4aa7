import FormulaMachine.Binary64.Rounding
import Mathlib

/-!
# Rounding rationals to integers

Doubles are rounded on exact values, so what rounding does is told over the rationals: to the
nearest integer with a half going to the even one, and towards zero.

* `halfEven`, `truncate`: the two roundings.
* **`le_halfEven_iff`**: which integers are not above the rounded value.
* **`roundsAs_halfEven`**, **`roundsAs_truncate`**: quotients of natural numbers are rounded so.
-/

namespace FormulaMachine.Binary64

/-! ## To the nearest integer -/

/-- The integer nearest to `x`, a half going to the even one. -/
def halfEven (x : ℚ) : ℤ :=
  if 1 / 2 < Int.fract x ∨ Int.fract x = 1 / 2 ∧ ¬ Even ⌊x⌋ then ⌊x⌋ + 1 else ⌊x⌋

/-- An integer is not above the rounded value if it is less than a half above the value, or just a
half and even. -/
theorem le_halfEven_iff {n : ℤ} {x : ℚ} :
    n ≤ halfEven x ↔ (n : ℚ) < x + 1 / 2 ∨ (n : ℚ) = x + 1 / 2 ∧ Even n := by
  have hfloor : (⌊x⌋ : ℚ) + Int.fract x = x := Int.floor_add_fract x
  have hnonneg := Int.fract_nonneg x
  have hlt := Int.fract_lt_one x
  obtain hle | hnext | hfar : n ≤ ⌊x⌋ ∨ n = ⌊x⌋ + 1 ∨ ⌊x⌋ + 2 ≤ n := by omega
  -- an integer up to the floor is below both, one from two above it on is above both
  · have hcast : (n : ℚ) ≤ ⌊x⌋ := mod_cast hle
    have hleft : n ≤ halfEven x := by
      rw [halfEven]
      split <;> omega
    exact iff_of_true hleft (.inl (by linarith))
  · -- the one integer for which the fraction decides
    have hcast : (n : ℚ) = ⌊x⌋ + 1 := by rw [hnext]; push_cast; rfl
    have heven : Even n ↔ ¬ Even ⌊x⌋ := by rw [hnext, Int.even_add_one]
    have hleft : n ≤ halfEven x ↔ 1 / 2 < Int.fract x ∨ Int.fract x = 1 / 2 ∧ ¬ Even ⌊x⌋ := by
      rw [halfEven]
      split <;> simp_all
    rw [hleft, heven]
    refine or_congr ⟨fun h => by linarith, fun h => by linarith⟩ (and_congr_left fun _ => ?_)
    exact ⟨fun h => by linarith, fun h => by linarith⟩
  · have hcast : (⌊x⌋ : ℚ) + 2 ≤ n := mod_cast hfar
    refine iff_of_false ?_ ?_
    · rw [halfEven]
      split <;> omega
    · rintro (h | ⟨h, -⟩) <;> linarith

/-- The same from above, since the rounded value is an integer. -/
theorem halfEven_le_iff {n : ℤ} {x : ℚ} :
    halfEven x ≤ n ↔ x < (n : ℚ) + 1 / 2 ∨ x = (n : ℚ) + 1 / 2 ∧ Even n := by
  -- not to be above `n` is not to reach the next integer, whose parity is the other one
  have hnot : halfEven x ≤ n ↔ ¬ n + 1 ≤ halfEven x := by omega
  rw [hnot, le_halfEven_iff, Int.even_add_one]
  push_cast
  constructor
  · intro h
    push Not at h
    obtain hlt | heq := h.1.lt_or_eq
    · exact .inl (by linarith)
    · exact .inr ⟨by linarith, h.2 (by linarith)⟩
  · rintro (hlt | ⟨heq, heven⟩) (h | ⟨h, hodd⟩)
    · linarith
    · linarith
    · linarith
    · exact hodd heven

/-- Rounding keeps the order: it is told by comparisons with integers. -/
theorem halfEven_mono : Monotone halfEven := by
  intro x y hxy
  rw [le_halfEven_iff]
  -- the rounded value of `x` is not above that of `y` for either reason
  obtain h | ⟨h, heven⟩ := le_halfEven_iff.1 (le_refl (halfEven x))
  · exact .inl (by linarith)
  · obtain hlt | heq := hxy.lt_or_eq
    · exact .inl (by linarith)
    · exact .inr ⟨heq ▸ h, heven⟩

@[simp] theorem halfEven_intCast (n : ℤ) : halfEven n = n :=
  le_antisymm (halfEven_le_iff.2 (.inl (by linarith))) (le_halfEven_iff.2 (.inl (by linarith)))

@[simp] theorem halfEven_zero : halfEven 0 = 0 := mod_cast halfEven_intCast 0

/-- Rounding is odd, since the comparisons from below and from above mirror each other. -/
theorem halfEven_neg (x : ℚ) : halfEven (-x) = -halfEven x := by
  refine eq_of_forall_le_iff fun n => ?_
  have hneg : n ≤ -halfEven x ↔ halfEven x ≤ -n := by omega
  rw [hneg, le_halfEven_iff, halfEven_le_iff, even_neg]
  push_cast
  refine or_congr ⟨fun h => by linarith, fun h => by linarith⟩ (and_congr_left fun _ => ?_)
  exact ⟨fun h => by linarith, fun h => by linarith⟩

theorem halfEven_nonneg {x : ℚ} (h : 0 ≤ x) : 0 ≤ halfEven x :=
  halfEven_zero ▸ halfEven_mono h

/-- Nothing is moved by more than a half. -/
theorem abs_sub_halfEven_le (x : ℚ) : |x - halfEven x| ≤ 1 / 2 := by
  rw [abs_le]
  constructor
  · obtain h | ⟨h, -⟩ := le_halfEven_iff.1 (le_refl (halfEven x)) <;> linarith
  · obtain h | ⟨h, -⟩ := halfEven_le_iff.1 (le_refl (halfEven x)) <;> linarith

/-- Half a unit beside an even integer everything is rounded to that one. -/
theorem halfEven_eq_of_even {n : ℤ} {x : ℚ} (hn : Even n) (h : |x - n| ≤ 1 / 2) :
    halfEven x = n := by
  obtain ⟨hlow, hhigh⟩ := abs_le.1 h
  refine le_antisymm (halfEven_le_iff.2 ?_) (le_halfEven_iff.2 ?_)
  · obtain hlt | heq := hhigh.lt_or_eq
    · exact .inl (by linarith)
    · exact .inr ⟨by linarith, hn⟩
  · obtain hlt | heq := hlow.lt_or_eq
    · exact .inl (by linarith)
    · exact .inr ⟨by linarith, hn⟩

/-- The halves beside an odd integer are rounded away from it. -/
theorem halfEven_eq_iff_of_not_even {n : ℤ} {x : ℚ} (hn : ¬ Even n) :
    halfEven x = n ↔ n - 1 / 2 < x ∧ x < n + 1 / 2 := by
  rw [le_antisymm_iff, halfEven_le_iff, le_halfEven_iff, or_iff_left (fun h => hn h.2),
    or_iff_left (fun h => hn h.2), sub_lt_iff_lt_add, and_comm]

/-- An odd integer is not the rounded value of anything below a half. -/
theorem half_le_abs_of_not_even {x : ℚ} (h : ¬ Even (halfEven x)) : 1 / 2 ≤ |x| := by
  by_contra hlt
  refine h ?_
  rw [halfEven_eq_of_even Even.zero (by rw [Int.cast_zero, sub_zero]; linarith)]
  exact Even.zero

/-! ## Towards zero -/

/-- The integer part of `x`. -/
def truncate (x : ℚ) : ℤ := if 0 ≤ x then ⌊x⌋ else ⌈x⌉

theorem truncate_of_nonneg {x : ℚ} (h : 0 ≤ x) : truncate x = ⌊x⌋ := if_pos h

@[simp] theorem truncate_zero : truncate 0 = 0 := by simp [truncate]

@[simp] theorem truncate_intCast (n : ℤ) : truncate n = n := by simp [truncate]

/-- The integer part is odd: below zero it is the ceiling. -/
theorem truncate_neg (x : ℚ) : truncate (-x) = -truncate x := by
  obtain h | rfl | h := lt_trichotomy x 0
  · rw [truncate, truncate, if_pos (by linarith), if_neg (by linarith), Int.floor_neg]
  · simp
  · rw [truncate, truncate, if_neg (by linarith), if_pos (by linarith), Int.ceil_neg]

/-! ## How far a value is moved -/

/-- How far an odd rounding moves a value is told above zero. -/
theorem abs_sub_of_odd {round : ℚ → ℤ} (hodd : ∀ x, round (-x) = -round x) (x : ℚ) :
    |x - round x| = |(|x| - round |x|)| := by
  obtain h | h := le_total 0 x
  · rw [abs_of_nonneg h]
  · rw [abs_of_nonpos h, hodd, Int.cast_neg, ← abs_neg, neg_sub', sub_neg_eq_add]

/-- The integer part is less than one away. -/
theorem abs_sub_truncate_lt_one (x : ℚ) : |x - truncate x| < 1 := by
  rw [abs_sub_of_odd truncate_neg, truncate_of_nonneg (abs_nonneg x), Int.self_sub_floor,
    Int.abs_fract]
  exact Int.fract_lt_one _

/-- The integer part is nearer than zero is. -/
theorem abs_sub_truncate_le_self (x : ℚ) : |x - truncate x| ≤ |x| := by
  have hfloor : (0 : ℚ) ≤ ⌊|x|⌋ := mod_cast Int.floor_nonneg.2 (abs_nonneg x)
  rw [abs_sub_of_odd truncate_neg, truncate_of_nonneg (abs_nonneg x), Int.self_sub_floor,
    Int.abs_fract]
  linarith [Int.floor_add_fract |x|]

/-- The nearest integer leaves no more than the value. -/
theorem abs_sub_halfEven_le_self (x : ℚ) : |x - halfEven x| ≤ |x| := by
  -- up to a half a value goes to zero, and from there on half is the most it is moved
  obtain h | h := le_or_gt |x| (1 / 2)
  · have hzero : halfEven x = 0 :=
      halfEven_eq_of_even Even.zero (by rwa [Int.cast_zero, sub_zero])
    rw [hzero, Int.cast_zero, sub_zero]
  · exact (abs_sub_halfEven_le x).trans h.le

/-! ## Half of a value -/

section

variable {x : ℚ} {m : ℕ}

/-- Half of a value has half of its integer part, rounded down. -/
theorem floor_half (h : ⌊x⌋ = m) : ⌊x / 2⌋ = (m / 2 : ℕ) := by
  have hdiv := Int.floor_div_natCast x 2
  rw [h] at hdiv
  exact_mod_cast hdiv

/-- The fraction of half of a value: half of what the integer part leaves over and of the fraction.
-/
theorem fract_half (h : ⌊x⌋ = m) : Int.fract (x / 2) = ((m % 2 : ℕ) + Int.fract x) / 2 := by
  have hx := Int.floor_add_fract x
  have hx' := Int.floor_add_fract (x / 2)
  have hm : ((2 * (m / 2) + m % 2 : ℕ) : ℚ) = m := congrArg _ (Nat.div_add_mod m 2)
  push_cast at hm
  rw [h, Int.cast_natCast] at hx
  rw [floor_half h, Int.cast_natCast] at hx'
  linarith

end

/-! ## Quotients of natural numbers -/

section

variable {n d : ℕ}

/-- A quotient of natural numbers is an integer if no remainder is left. -/
theorem fract_eq_zero_iff (hd : 0 < d) : Int.fract ((n : ℚ) / d) = 0 ↔ n % d = 0 := by
  have hpos : (d : ℚ) ≠ 0 := mod_cast hd.ne'
  rw [Int.fract_div_natCast_eq_div_natCast_mod, div_eq_zero_iff, or_iff_left hpos, Nat.cast_eq_zero]

/-- It lies above a half if twice the remainder is more than the divisor. -/
theorem half_lt_fract_iff (hd : 0 < d) : 1 / 2 < Int.fract ((n : ℚ) / d) ↔ d < 2 * (n % d) := by
  have hpos : (0 : ℚ) < d := mod_cast hd
  rw [Int.fract_div_natCast_eq_div_natCast_mod, div_lt_div_iff₀ two_pos hpos, one_mul, mul_comm]
  exact_mod_cast Iff.rfl

/-- It lies at a half if twice the remainder is the divisor. -/
theorem fract_eq_half_iff (hd : 0 < d) : Int.fract ((n : ℚ) / d) = 1 / 2 ↔ 2 * (n % d) = d := by
  have hpos : (d : ℚ) ≠ 0 := mod_cast hd.ne'
  rw [Int.fract_div_natCast_eq_div_natCast_mod, div_eq_div_iff hpos two_ne_zero, one_mul, mul_comm]
  exact_mod_cast Iff.rfl

/-- Whatever the direction is, the quotient is at most one above the integer quotient. -/
theorem quotient_le (dir : Direction) (s : Sign) (n d : ℕ) : dir.quotient s n d ≤ n / d + 1 := by
  rw [Direction.quotient]
  split <;> omega

/-- The quotient of natural numbers to the nearest: the remainder decides whether it is raised, and
at a half the last bit of the quotient does. -/
theorem quotient_halfEven (s : Sign) (hd : 0 < d) :
    (Direction.halfEven.quotient s n d : ℤ) = halfEven (n / d) := by
  have hodd : ¬ Even (n / d : ℕ) ↔ n / d % 2 = 1 := by rw [Nat.not_even_iff]
  simp only [halfEven, Rat.floor_natCast_div_natCast, ← Int.natCast_ediv, half_lt_fract_iff hd,
    fract_eq_half_iff hd, Int.even_coe_nat, hodd]
  -- the quotient is raised in the same cases in which the rational is rounded up
  by_cases hup : d < 2 * (n % d) ∨ 2 * (n % d) = d ∧ n / d % 2 = 1
  · have hrest : n % d ≠ 0 := by omega
    rw [if_pos hup, Direction.quotient, if_pos ⟨hrest, by simpa [Direction.raises] using hup⟩]
    rfl
  · have hstays : ¬ Direction.halfEven.raises s (n / d) (n % d) d = true := by
      simpa [Direction.raises] using hup
    rw [if_neg hup, Direction.quotient, if_neg fun h => hstays h.2]

end

/-- On both sides of zero `dir` rounds as `round` does. -/
structure Direction.RoundsAs (dir : Direction) (round : ℚ → ℤ) : Prop where
  intCast : ∀ n : ℤ, round n = n
  neg : ∀ x, round (-x) = -round x
  quotient : ∀ s n {d}, 0 < d → (dir.quotient s n d : ℤ) = round (n / d)

/-- Towards zero, quotients lose their fraction. -/
theorem roundsAs_truncate : Direction.towardZero.RoundsAs truncate where
  intCast := truncate_intCast
  neg := truncate_neg
  quotient s n d _ := by
    rw [truncate_of_nonneg (by positivity), Rat.floor_natCast_div_natCast]
    simp [Direction.quotient, Direction.raises]

/-- To the nearest, quotients are rounded with a half going to the even one. -/
theorem roundsAs_halfEven : Direction.halfEven.RoundsAs halfEven where
  intCast := halfEven_intCast
  neg := halfEven_neg
  quotient s _ _ hd := quotient_halfEven s hd

end FormulaMachine.Binary64
