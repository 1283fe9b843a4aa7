import FormulaMachine.Proofs.Binary64.Comparison
import FormulaMachine.Proofs.Binary64.Sum
import FormulaMachine.Special.Digamma

/-!
# How long the digamma function takes

Neither the reflection nor the shifts count anything. The function calls itself for as long as its
argument is negative, and the loop goes on for as long as its argument is below ten. That both come to
an end is due to the values of the doubles: one minus a negative double is not rounded to below one,
and a sum is not rounded to below an integer that it has reached.

* `Shifts`, `Computes`: a run of the loop and of the function, of whatever length, with what there is
  to count.
* **`shifts_shiftToTen`**: the loop ends within the steps that are left if these make up for what the
  argument lacks of ten.
* **`one_le_reflected`**: the function calls itself with an argument of at least one.
* **`digamma_ends`**: what every call comes to.
-/

namespace FormulaMachine.Special

open Binary64

/-! ## Runs -/

/-- `Shifts x sum n y total`: started with `x` and `sum`, the loop makes `n` shifts and ends with `y`
and `total`. -/
inductive Shifts : Float → Float → ℕ → Float → Float → Prop where
  | stop {x sum : Float} (h : ¬ x < 10) : Shifts x sum 0 x sum
  | shift {x sum y total : Float} {n : ℕ} (h : x < 10)
      (rest : Shifts (x + 1) (sum - 1 / x) n y total) : Shifts x sum (n + 1) y total

/-- `Computes x calls n y`: called with `x`, the function calls itself with the arguments `calls`, each
call inside of the one before, makes `n` shifts in all of them together, and returns `y`. -/
inductive Computes : Float → List Float → ℕ → Float → Prop where
  | noValue {x : Float} (h : hasNoValue x = true) : Computes x [] 0 nan
  | reflect {x y : Float} {calls : List Float} {n : ℕ} (h : hasNoValue x = false) (hneg : x < 0)
      (inner : Computes (1 - x) calls n y) :
      Computes x ((1 - x) :: calls) n (y - pi / (pi * x).tan)
  | series {x y total : Float} {n : ℕ} (h : hasNoValue x = false) (hneg : ¬ x < 0)
      (loop : Shifts x 0 n y total) : Computes x [] n (asymptotic y total)

/-- The loop has one run only. -/
theorem Shifts.unique {x sum y total y' total' : Float} {n n' : ℕ} (h : Shifts x sum n y total)
    (h' : Shifts x sum n' y' total') : n' = n ∧ y' = y ∧ total' = total := by
  induction h generalizing n' with
  | stop hstop =>
    cases h' with
    | stop => exact ⟨rfl, rfl, rfl⟩
    | shift hshift => exact absurd hshift hstop
  | shift hshift _ ih =>
    cases h' with
    | stop hstop => exact absurd hshift hstop
    | shift _ rest' =>
      obtain ⟨rfl, rfl, rfl⟩ := ih rest'
      exact ⟨rfl, rfl, rfl⟩

/-- The function has one run only, as each case excludes the others. -/
theorem Computes.unique {x y y' : Float} {calls calls' : List Float} {n n' : ℕ}
    (h : Computes x calls n y) (h' : Computes x calls' n' y') : calls' = calls ∧ n' = n ∧ y' = y := by
  -- the three cases are told apart by two tests of the argument
  induction h generalizing calls' n' y' with
  | noValue hnone =>
    cases h' with
    | noValue => exact ⟨rfl, rfl, rfl⟩
    | reflect hsome | series hsome =>
      rw [hnone] at hsome
      cases hsome
  | reflect hsome hneg _ ih =>
    cases h' with
    | noValue hnone =>
      rw [hsome] at hnone
      cases hnone
    | reflect _ _ inner' =>
      obtain ⟨rfl, rfl, rfl⟩ := ih inner'
      exact ⟨rfl, rfl, rfl⟩
    | series _ hneg' => exact absurd hneg hneg'
  | series hsome hneg loop =>
    cases h' with
    | noValue hnone =>
      rw [hsome] at hnone
      cases hnone
    | reflect _ hneg' => exact absurd hneg' hneg
    | series _ _ loop' =>
      obtain ⟨rfl, rfl, rfl⟩ := loop.unique loop'
      exact ⟨rfl, rfl, rfl⟩

/-! ## The loop -/

theorem value?_zero_literal : value? 0 = some 0 := by decide +kernel

theorem value?_one : value? 1 = some 1 := by decide +kernel

theorem value?_ten : value? 10 = some 10 := by decide +kernel

section

variable {x : Float} {v : ℚ}

/-- A shift goes past every integer that is up to one above the argument. -/
theorem exists_value?_add_one (hx : value? x = some v) (hv : 0 ≤ v) (hlt : v < 10) :
    ∃ w, value? (x + 1) = some w ∧ ∀ c : ℤ, c ≤ v + 1 → c ≤ w := by
  have hsmall : |v + 1| < 2 ^ 53 := by
    rw [abs_of_nonneg (by linarith)]
    linarith
  have hlarge : |nearest (v + 1)| < 2 ^ 1024 :=
    lt_of_le_of_lt (abs_nearest_le hsmall) (pow_lt_pow_right₀ one_lt_two (by norm_num))
  exact ⟨_, value?_add hx value?_one hlarge, fun c hc => intCast_le_nearest hsmall hc⟩

/-- Induction on the steps that are left. Together with the argument they stay above ten, so that with
none left the argument has got there. -/
theorem shifts_shiftToTen {steps : ℕ} {sum : Float} (hx : value? x = some v) (hv : 0 ≤ v)
    (hsteps : 10 ≤ v + steps) :
    ∃ n ≤ steps, Shifts x sum n (shiftToTen steps x sum).1 (shiftToTen steps x sum).2 := by
  have hbelow : x < 10 ↔ v < 10 := lt_iff_of_value? hx value?_ten
  induction steps generalizing x v sum with
  | zero =>
    rw [Nat.cast_zero, Rat.add_zero] at hsteps
    exact ⟨0, le_rfl, .stop fun h => absurd (hbelow.1 h) (not_lt.2 hsteps)⟩
  | succ steps ih =>
    rw [shiftToTen]
    by_cases h : x < 10
    · obtain ⟨w, hw, hpast⟩ := exists_value?_add_one hx hv (hbelow.1 h)
      have hzero : ((0 : ℤ) : ℚ) ≤ w := hpast 0 (by push_cast; linarith)
      -- the shift goes past the integer that leaves one step less to make up for
      have hnext : ((10 - steps : ℤ) : ℚ) ≤ w := hpast _ (by push_cast at hsteps ⊢; linarith)
      push_cast at hzero hnext
      obtain ⟨n, hn, hrest⟩ := ih hw hzero (by linarith) (lt_iff_of_value? hw value?_ten)
      rw [if_pos h]
      exact ⟨n + 1, Nat.succ_le_succ hn, .shift h hrest⟩
    · rw [if_neg h]
      exact ⟨0, Nat.zero_le _, .stop h⟩

/-! ## The reflection -/

/-- One minus a negative double that has digits behind the point is at least one, and positive in
particular. -/
theorem one_le_reflected (hx : value? x = some v) (hneg : v < 0) (hlow : -2 ^ 52 < v) :
    ∃ w, value? (1 - x) = some w ∧ 1 ≤ w := by
  have hsmall : |1 - v| < 2 ^ 53 := by
    rw [abs_of_nonneg (by linarith)]
    linarith
  have hlarge : |nearest (1 - v)| < 2 ^ 1024 :=
    lt_of_le_of_lt (abs_nearest_le hsmall) (pow_lt_pow_right₀ one_lt_two (by norm_num))
  have hone : ((1 : ℤ) : ℚ) ≤ nearest (1 - v) :=
    intCast_le_nearest hsmall (by push_cast; linarith)
  exact ⟨_, value?_sub value?_one hx hlarge, by exact_mod_cast hone⟩

/-- A negative double is a pole if it has no digits behind the point. -/
theorem hasNoValue_of_integral {m : ℕ} {e : ℤ} {hm : 0 < m}
    (hx : unpack x = .finite .negative m e hm) (he : 0 ≤ e) : hasNoValue x = true := by
  have hvalue := value?_finite hx
  -- rounded down it is itself, which is what the test for a pole asks
  have hround : roundTo .down x = x := by
    rw [roundTo, hx]
    exact if_pos he
  have hself : (x == x) = true := by
    by_contra h
    have hnan := isNaN_eq_false_of_value? hvalue
    rw [Bool.not_eq_true, Float.beq_self_eq_false_iff] at h
    rw [h] at hnan
    cases hnan
  have hle : x ≤ 0 := by
    rw [le_iff_of_value? hvalue value?_zero_literal, negative_apply_mul]
    exact neg_nonpos.2 (scaled_pos hm e).le
  rw [hasNoValue, hround, hself, decide_eq_true hle]
  exact Bool.or_true _

/-- No positive number is a pole. -/
theorem hasNoValue_of_pos (hx : value? x = some v) (hv : 0 < v) : hasNoValue x = false := by
  have hle : ¬ x ≤ 0 := by
    rw [le_iff_of_value? hx value?_zero_literal]
    exact not_le.2 hv
  rw [hasNoValue, isNaN_eq_false_of_value? hx, decide_eq_false hle]
  rfl

/-- What has a value is infinite, or positive, or negative and so small that there are digits behind
the point. -/
theorem cases_of_hasValue (h : hasNoValue x = false) :
    x = infinity ∨ ∃ v, value? x = some v ∧ v ≠ 0 ∧ (v < 0 → -2 ^ 52 < v) := by
  have hpacked := pack_unpack x
  cases hx : unpack x with
  | notANumber =>
    rw [hasNoValue, isNaN_iff.2 hx] at h
    cases h
  | infinity s =>
    rw [hx] at hpacked
    cases s with
    | positive => exact .inl hpacked.symm
    | negative =>
      rw [← hpacked] at h
      exact absurd h (by decide +kernel)
  | zero s =>
    rw [hx] at hpacked
    rw [← hpacked] at h
    cases s <;> exact absurd h (by decide +kernel)
  | finite s m e hm =>
    have hpos := scaled_pos hm e
    refine .inr ⟨_, value?_finite hx, ?_⟩
    cases s with
    | positive =>
      rw [positive_apply_mul]
      exact ⟨hpos.ne', fun hneg => absurd hneg hpos.not_gt⟩
    | negative =>
      rw [negative_apply_mul, neg_lt_neg_iff]
      -- with a larger exponent it would be a pole
      have he : e ≤ -1 := by
        by_contra hlarge
        rw [hasNoValue_of_integral hx (by omega)] at h
        cases h
      refine ⟨neg_ne_zero.2 hpos.ne', fun _ => ?_⟩
      calc (m : ℚ) * 2 ^ e < 2 ^ 53 * 2 ^ e :=
            mul_lt_mul_of_pos_right (mod_cast (canonical_of_unpack hx).significand_lt)
              (zpow_pos two_pos e)
        _ ≤ 2 ^ 53 * 2 ^ (-1 : ℤ) :=
            mul_le_mul_of_nonneg_left (zpow_le_zpow_right₀ one_le_two he) (by positivity)
        _ = 2 ^ 52 := by norm_num

end

/-! ## The function -/

/-- An argument that is not negative goes into the loop at once. -/
theorem exists_computes_positive {x : Float} (h : hasNoValue x = false) (hneg : ¬ x < 0) :
    ∃ n ≤ 10, Computes x [] n (digammaPositive x) := by
  obtain rfl | ⟨v, hx, hzero, -⟩ := cases_of_hasValue h
  · -- ten is not above infinity, and there is nothing to shift
    have hstop : ¬ infinity < 10 := by decide +kernel
    have hend : shiftToTen 10 infinity 0 = (infinity, 0) := if_neg hstop
    rw [digammaPositive, hend]
    exact ⟨0, Nat.zero_le _, .series h hneg (.stop hstop)⟩
  · have hv : 0 ≤ v := not_lt.1 fun hlt => hneg ((lt_iff_of_value? hx value?_zero_literal).2 hlt)
    obtain ⟨n, hn, hshifts⟩ :
        ∃ n ≤ 10, Shifts x 0 n (shiftToTen 10 x 0).1 (shiftToTen 10 x 0).2 :=
      shifts_shiftToTen hx hv (by push_cast; linarith)
    exact ⟨n, hn, .series h hneg hshifts⟩

/-- A negative argument leads to one call, which is not reflected again. -/
theorem exists_computes_negative {x : Float} (h : hasNoValue x = false) (hneg : x < 0) :
    1 ≤ 1 - x ∧
      ∃ n ≤ 10, Computes x [1 - x] n (digammaPositive (1 - x) - pi / (pi * x).tan) := by
  obtain rfl | ⟨v, hx, -, hlow⟩ := cases_of_hasValue h
  · exact absurd hneg (by decide +kernel)
  · have hv : v < 0 := (lt_iff_of_value? hx value?_zero_literal).1 hneg
    obtain ⟨w, hw, hone⟩ := one_le_reflected hx hv (hlow hv)
    -- the reflected argument is at least one, so it is not reflected again
    have hinner : ¬ 1 - x < 0 := by
      rw [lt_iff_of_value? hw value?_zero_literal]
      linarith
    obtain ⟨n, hn, hcomputes⟩ :=
      exists_computes_positive (hasNoValue_of_pos hw (by linarith)) hinner
    exact ⟨(le_iff_of_value? value?_one hw).2 hone, n, hn, .reflect h hneg hcomputes⟩

/-- Every call has a run, and no other one: it ends with the value of the function, after calling
itself at most once, with an argument of at least one, and after ten shifts at most. -/
theorem digamma_ends (x : Float) :
    ∃ (calls : List Float) (n : ℕ), Computes x calls n (digamma x) ∧
      calls.length ≤ 1 ∧ (∀ y ∈ calls, 1 ≤ y) ∧ n ≤ 10 ∧
      ∀ (calls' : List Float) (n' : ℕ) (y : Float), Computes x calls' n' y →
        calls' = calls ∧ n' = n ∧ y = digamma x := by
  -- that there is no other run follows from the first part
  suffices hends : ∃ (calls : List Float) (n : ℕ), Computes x calls n (digamma x) ∧
      calls.length ≤ 1 ∧ (∀ y ∈ calls, 1 ≤ y) ∧ n ≤ 10 by
    obtain ⟨calls, n, hcomputes, hlength, hcalls, hn⟩ := hends
    exact ⟨calls, n, hcomputes, hlength, hcalls, hn, fun _ _ _ h => hcomputes.unique h⟩
  rw [digamma]
  split
  · next hnone => exact ⟨[], 0, .noValue hnone, Nat.zero_le _, by simp, Nat.zero_le _⟩
  · next hsome =>
    rw [Bool.not_eq_true] at hsome
    split
    · next hneg =>
      obtain ⟨hone, n, hn, hcomputes⟩ := exists_computes_negative hsome hneg
      exact ⟨[1 - x], n, hcomputes, le_rfl, by simpa using hone, hn⟩
    · next hneg =>
      obtain ⟨n, hn, hcomputes⟩ := exists_computes_positive hsome hneg
      exact ⟨[], n, hcomputes, Nat.zero_le _, by simp, hn⟩

/-- At a half below zero the function is reflected, to one and a half. -/
theorem digamma_ends_of_reflected :
    (-0.5 : Float) < 0 ∧ ∃ n ≤ 10, Computes (-0.5) [1.5] n (digamma (-0.5)) := by
  have hneg : (-0.5 : Float) < 0 := by decide +kernel
  obtain ⟨calls, n, hcomputes, -, -, hn, hunique⟩ := digamma_ends (-0.5)
  obtain ⟨-, m, -, hreflect⟩ := exists_computes_negative (by decide +kernel) hneg
  have hcalls : [(1 : Float) - -0.5] = calls := (hunique _ _ _ hreflect).1
  rw [show (1 : Float) - -0.5 = 1.5 by decide +kernel] at hcalls
  exact ⟨hneg, n, hn, hcalls ▸ hcomputes⟩

end FormulaMachine.Special
