import FormulaMachine.Proofs.Dual.Field
import FormulaMachine.Proofs.Machine.Homomorphism
import FormulaMachine.Proofs.Machine.StandardTable

/-!
# Slopes are linear in the seeds

A derivative rule multiplies the slopes that come in by factors and adds them up. The factors, and
the value that goes with the slope, are read off the values alone; so are all the tests by which a
rule chooses its branch, except that the power leaves out a term which is zero anyway.

So a run need not carry a number as its slope. It can carry an element of any module, `Jet`, and
what it does along each linear form on the module is a run on dual numbers. All that runs with the
same values and different seeds have to do with each other follows from this.

* `Dual.Linear`, `Dual.Linear₂`: rules with factors; `linear_abs`, `linear₂_pow` and their like:
  each rule is one.
* **`Jet.homomorphism_along`**: a linear form keeps every operation.
* **`Machine.exec_linear`**: the run from combined seeds ends with combined slopes, so the slope in
  any direction is a sum over slopes for single variables.
-/

namespace FormulaMachine

open Elementary

variable {ρ : Type} [Field ρ]

namespace Dual

/-- The value of `g` depends on the value of its argument only, and so does the factor by which it
multiplies the slope. -/
def Linear (g : Dual ρ → Dual ρ) : Prop :=
  ∀ x, g x = ⟨(g ⟨x.val, 0⟩).val, (g ⟨x.val, 1⟩).eps * x.eps⟩

/-- The same for two arguments, whose slopes are added up with a factor each. -/
def Linear₂ (g : Dual ρ → Dual ρ → Dual ρ) : Prop :=
  ∀ x y, g x y = ⟨(g ⟨x.val, 0⟩ ⟨y.val, 0⟩).val,
    (g ⟨x.val, 1⟩ ⟨y.val, 0⟩).eps * x.eps + (g ⟨x.val, 0⟩ ⟨y.val, 1⟩).eps * y.eps⟩

/-- A term that is left out where the slope in it is zero. -/
theorem ite_add_mul [DecidableEq ρ] (sum factor slope : ρ) :
    (if slope = 0 then sum else sum + factor * slope) = sum + factor * slope := by
  split
  · next hzero => rw [hzero, mul_zero, add_zero]
  · rfl

/-- Dual numbers of one value, their slopes combined with the weights `a` and `b`. -/
def blend (a b : ρ) (x y : Dual ρ) : Dual ρ := ⟨x.val, a * x.eps + b * y.eps⟩

end Dual

/-! ## Slopes in a module -/

/-- A value with a slope in a module: with several slopes at once, or one for every variable. -/
structure Jet (ρ M : Type) where
  val : ρ
  slope : M

namespace Jet

variable {M : Type} [AddCommGroup M] [Module ρ M]

/-- A rule with its factors applied to slopes in the module. -/
def lift (g : Dual ρ → Dual ρ) (x : Jet ρ M) : Jet ρ M :=
  ⟨(g ⟨x.val, 0⟩).val, (g ⟨x.val, 1⟩).eps • x.slope⟩

/-- A rule for two arguments, with a factor for each slope. -/
def lift₂ (g : Dual ρ → Dual ρ → Dual ρ) (x y : Jet ρ M) : Jet ρ M :=
  ⟨(g ⟨x.val, 0⟩ ⟨y.val, 0⟩).val,
    (g ⟨x.val, 1⟩ ⟨y.val, 0⟩).eps • x.slope + (g ⟨x.val, 0⟩ ⟨y.val, 1⟩).eps • y.slope⟩

/-- The dual number that a linear form makes of it. -/
def along (φ : M →ₗ[ρ] ρ) (x : Jet ρ M) : Dual ρ := ⟨x.val, φ x.slope⟩

/-- Along a linear form a lifted rule is the rule, since the form keeps the factor. -/
theorem along_lift {g : Dual ρ → Dual ρ} (h : Dual.Linear g) (φ : M →ₗ[ρ] ρ) (x : Jet ρ M) :
    (lift g x).along φ = g (x.along φ) := by
  rw [h (x.along φ)]
  simp [lift, along]

/-- The same for two arguments, since the form keeps sums as well. -/
theorem along_lift₂ {g : Dual ρ → Dual ρ → Dual ρ} (h : Dual.Linear₂ g) (φ : M →ₗ[ρ] ρ)
    (x y : Jet ρ M) : (lift₂ g x y).along φ = g (x.along φ) (y.along φ) := by
  rw [h (x.along φ) (y.along φ)]
  simp [lift₂, along]

/-- Both slopes of dual numbers of one value. -/
def pair (x y : Dual ρ) : Jet ρ (ρ × ρ) := ⟨x.val, x.eps, y.eps⟩

/-- Each of two lists of the same values comes back from the pairs. -/
theorem map_zipWith_pair {us vs : List (Dual ρ)} (h : us.map Dual.val = vs.map Dual.val) :
    (List.zipWith pair us vs).map (along (.fst ρ ρ ρ)) = us ∧
      (List.zipWith pair us vs).map (along (.snd ρ ρ ρ)) = vs := by
  induction us generalizing vs with
  | nil =>
    cases vs with
    | nil => exact ⟨rfl, rfl⟩
    | cons y vs => cases h
  | cons x us ih =>
    cases vs with
    | nil => cases h
    | cons y vs =>
      -- lists of the same values have the same length, and the first values agree
      obtain ⟨hval, hrest⟩ := List.cons.inj h
      obtain ⟨hfst, hsnd⟩ := ih hrest
      exact ⟨congrArg (x :: ·) hfst, congrArg₂ List.cons (congrArg (Dual.mk · y.eps) hval) hsnd⟩

end Jet

namespace Machine

variable {M : Type} [AddCommGroup M] [Module ρ M]

/-- Machines of the same values, their slopes combined slot by slot and stack entry by stack
entry. -/
def blend (a b : ρ) (m₁ m₂ : Machine (Dual ρ)) : Machine (Dual ρ) :=
  ⟨List.zipWith (Dual.blend a b) m₁.stack m₂.stack,
    List.zipWith (Dual.blend a b) m₁.slots m₂.slots⟩

/-- Machines of the same values as one with both slopes. -/
def pair (m₁ m₂ : Machine (Dual ρ)) : Machine (Jet ρ (ρ × ρ)) :=
  ⟨List.zipWith Jet.pair m₁.stack m₂.stack, List.zipWith Jet.pair m₁.slots m₂.slots⟩

/-- Each of two machines of the same values comes back from the pair. -/
theorem map_pair {m₁ m₂ : Machine (Dual ρ)} (h : m₁.map Dual.val = m₂.map Dual.val) :
    (pair m₁ m₂).map (Jet.along (.fst ρ ρ ρ)) = m₁ ∧
      (pair m₁ m₂).map (Jet.along (.snd ρ ρ ρ)) = m₂ := by
  obtain ⟨hstack, hslots⟩ := Machine.mk.inj h
  obtain ⟨hstack₁, hstack₂⟩ := Jet.map_zipWith_pair hstack
  obtain ⟨hslots₁, hslots₂⟩ := Jet.map_zipWith_pair hslots
  exact ⟨congrArg₂ Machine.mk hstack₁ hslots₁, congrArg₂ Machine.mk hstack₂ hslots₂⟩

/-- The form that combines the two slopes makes the blend of the pair. -/
theorem map_pair_blend (a b : ρ) (m₁ m₂ : Machine (Dual ρ)) :
    (pair m₁ m₂).map (Jet.along (a • .fst ρ ρ ρ + b • .snd ρ ρ ρ)) = blend a b m₁ m₂ := by
  simp only [map, pair, blend, List.map_zipWith]
  rfl

/-- Blending what two forms make is what their combination makes. -/
theorem blend_map (a b : ρ) (m : Machine (Jet ρ (ρ × ρ))) :
    blend a b (m.map (Jet.along (.fst ρ ρ ρ))) (m.map (Jet.along (.snd ρ ρ ρ))) =
      m.map (Jet.along (a • .fst ρ ρ ρ + b • .snd ρ ρ ρ)) := by
  simp only [map, blend, List.zipWith_map, List.zipWith_self]
  rfl

/-- Along a form the values stay. -/
theorem vals_map_along (φ : M →ₗ[ρ] ρ) (m : Machine (Jet ρ M)) :
    (m.map (Jet.along φ)).map Dual.val = m.map Jet.val := by
  simp only [map, List.map_map]
  rfl

/-- The slope in the direction `u`, from the slopes for `n` single variables. -/
def directional (n : Nat) (u slope : Nat → ρ) : ρ := ∑ i ∈ Finset.range n, u i * slope i

/-- The machine of these values with slope `u i` in the slot `i`. -/
def seeded (m : Machine ρ) (u : Nat → ρ) : Machine (Dual ρ) :=
  ⟨m.stack.map (⟨·, 0⟩), m.slots.mapIdx fun i value => ⟨value, u i⟩⟩

/-- The machine of these values with a slope for every variable. -/
def free (m : Machine ρ) : Machine (Jet ρ (Nat → ρ)) :=
  ⟨m.stack.map (⟨·, 0⟩), m.slots.mapIdx fun i value => ⟨value, Pi.single i 1⟩⟩

/-- A form that is `u i` at the slope of slot `i` seeds that slot with `u i`. -/
theorem map_free {m : Machine ρ} {φ : (Nat → ρ) →ₗ[ρ] ρ} {u : Nat → ρ}
    (h : ∀ i < m.slots.length, φ (Pi.single i 1) = u i) :
    m.free.map (Jet.along φ) = m.seeded u := by
  refine congrArg₂ Machine.mk ?_ ?_
  · rw [free, List.map_map]
    exact List.map_congr_left fun value _ => congrArg (Dual.mk value) (map_zero φ)
  · refine List.ext_getElem (by simp [free]) fun i hi _ => ?_
    have hlt : i < m.slots.length := by simpa [free] using hi
    simp [free, Jet.along, h i hlt]

end Machine

/-! ## The rules -/

variable [LinearOrder ρ] [Elementary ρ]

namespace Dual

theorem linear_neg : Linear fun x : Dual ρ => -x := by
  intro x
  simp [neg_def]

/-- The chain rule multiplies by the derivative at the value. -/
theorem linear_smooth (f : Smooth) : Linear (Dual.smooth f : Dual ρ → Dual ρ) := by
  intro x
  simp [Dual.smooth, chain]

/-- What rounds to an integer has slope zero. -/
theorem linear_integral (dir : Binary64.Direction) :
    Linear (Dual.integral dir : Dual ρ → Dual ρ) := by
  intro x
  simp [Dual.integral, constant, Scalar.zero]

/-- The sign of the value is the factor, and zero at zero. -/
theorem linear_abs : Linear (Dual.abs : Dual ρ → Dual ρ) := by
  intro x
  simp only [Dual.abs]
  split <;> simp

theorem linear₂_add : Linear₂ fun x y : Dual ρ => x + y := by
  intro x y
  simp [add_def]

theorem linear₂_sub : Linear₂ fun x y : Dual ρ => x - y := by
  intro x y
  simp [sub_def, sub_eq_add_neg]

/-- The product rule: each factor is the value of the other operand. -/
theorem linear₂_mul : Linear₂ fun x y : Dual ρ => x * y := by
  intro x y
  simp only [mul_def, mul_one, mul_zero, one_mul, zero_mul, add_zero, zero_add]
  congr 1
  ring

/-- The quotient rule, as it is written with the square of the divisor. -/
theorem linear₂_div : Linear₂ fun x y : Dual ρ => x / y := by
  intro x y
  simp only [div_def, one_mul, mul_one, mul_zero, zero_mul, zero_sub, sub_zero]
  congr 1
  ring

/-- The power leaves the exponent out of the sum where its slope is zero, and such a term is zero.
-/
theorem linear₂_pow : Linear₂ (Dual.pow : Dual ρ → Dual ρ → Dual ρ) := by
  intro x y
  simp only [Dual.pow, Analytic.eq, Scalar.zero, decide_eq_true_eq, ite_add_mul]
  simp only [mul_zero, mul_one, add_zero, zero_add, if_true]

/-- The factors are the two coordinates over the square of the distance. -/
theorem linear₂_atan2 : Linear₂ (Dual.atan2 : Dual ρ → Dual ρ → Dual ρ) := by
  intro y x
  simp only [Dual.atan2, mul_one, mul_zero, sub_zero, zero_sub]
  congr 1
  ring

/-- At the origin both factors are zero; elsewhere they are the coordinates over the distance. -/
theorem linear₂_hypot : Linear₂ (Dual.hypot : Dual ρ → Dual ρ → Dual ρ) := by
  intro x y
  simp only [Dual.hypot]
  split
  · simp [constant, Scalar.zero]
  · simp only [mul_one, mul_zero, add_zero, zero_add]
    congr 1
    ring

/-- The slope of the dividend less the quotient times that of the divisor. The quotient is one of
values. -/
theorem linear₂_fmod : Linear₂ (Dual.fmod : Dual ρ → Dual ρ → Dual ρ) := by
  intro x y
  simp [Dual.fmod, sub_eq_add_neg]

theorem linear₂_remainder : Linear₂ (Dual.remainder : Dual ρ → Dual ρ → Dual ρ) := by
  intro x y
  simp [Dual.remainder, sub_eq_add_neg]

/-- The test is on values: above it stands the difference, below it zero. -/
theorem linear₂_positiveDifference :
    Linear₂ (Dual.positiveDifference : Dual ρ → Dual ρ → Dual ρ) := by
  intro x y
  simp only [Dual.positiveDifference]
  split
  · exact linear₂_sub x y
  · simp [constant, Scalar.zero]

/-- One of the two operands is taken over, by a test on values. -/
theorem linear₂_max : Linear₂ (Dual.max : Dual ρ → Dual ρ → Dual ρ) := by
  intro x y
  simp only [Dual.max]
  split <;> simp

/-- The smaller operand is one of the two, chosen by their values. -/
theorem linear₂_min : Linear₂ (Dual.min : Dual ρ → Dual ρ → Dual ρ) := by
  intro x y
  simp only [Dual.min]
  split <;> simp

end Dual

namespace Jet

variable {M : Type} [AddCommGroup M] [Module ρ M]

instance : Scalar (Jet ρ M) where
  add := lift₂ (· + ·)
  sub := lift₂ (· - ·)
  mul := lift₂ (· * ·)
  div := lift₂ (· / ·)
  neg := lift (- ·)
  zero := ⟨0, 0⟩
  ofFloat x := ⟨ofFloat x, 0⟩
  pow := lift₂ Dual.pow
  smooth f := lift (Dual.smooth f)
  integral dir := lift (Dual.integral dir)
  abs := lift Dual.abs
  atan2 := lift₂ Dual.atan2
  hypot := lift₂ Dual.hypot
  fmod := lift₂ Dual.fmod
  remainder := lift₂ Dual.remainder
  positiveDifference := lift₂ Dual.positiveDifference
  max := lift₂ Dual.max
  min := lift₂ Dual.min

/-- Whatever the linear form is, it keeps every operation. -/
theorem homomorphism_along (φ : M →ₗ[ρ] ρ) :
    Scalar.Homomorphism (along φ : Jet ρ M → Dual ρ) where
  ofFloat x := congrArg (Dual.mk _) (map_zero φ)
  operator op a b := by
    cases op with
    | add => exact along_lift₂ Dual.linear₂_add φ a b
    | sub => exact along_lift₂ Dual.linear₂_sub φ a b
    | mul => exact along_lift₂ Dual.linear₂_mul φ a b
    | div => exact along_lift₂ Dual.linear₂_div φ a b
    | pow => exact along_lift₂ Dual.linear₂_pow φ a b
  neg := along_lift Dual.linear_neg φ
  smooth f := along_lift (Dual.linear_smooth f) φ
  integral dir := along_lift (Dual.linear_integral dir) φ
  abs := along_lift Dual.linear_abs φ
  atan2 := along_lift₂ Dual.linear₂_atan2 φ
  hypot := along_lift₂ Dual.linear₂_hypot φ
  fmod := along_lift₂ Dual.linear₂_fmod φ
  remainder := along_lift₂ Dual.linear₂_remainder φ
  positiveDifference := along_lift₂ Dual.linear₂_positiveDifference φ
  max := along_lift₂ Dual.linear₂_max φ
  min := along_lift₂ Dual.linear₂_min φ

end Jet

/-! ## Runs -/

namespace Machine

variable {M : Type} [AddCommGroup M] [Module ρ M] {functions : FunctionTable (Dual ρ)}

/-- A run with slopes in the module is a run on dual numbers along each linear form. -/
theorem exec_along (hfunctions : functions.BindsStandard) (φ : M →ₗ[ρ] ρ)
    (m : Machine (Jet ρ M)) (code : List Instr) :
    (m.map (Jet.along φ)).exec functions code =
      ((m.exec .standard code).1, (m.exec .standard code).2.map (Jet.along φ)) := by
  have hmaps : (FunctionTable.standard : FunctionTable (Jet ρ M)).Maps (Jet.along φ) functions :=
    fun name => by
      rw [hfunctions name]
      exact FunctionTable.standard_maps (Jet.homomorphism_along φ) name
  exact exec_map (Jet.homomorphism_along φ) hmaps m code

/-- Slopes are linear in the seeds. Of three runs with the same values, the third from the combined
slopes of the two others, all succeed or all fail alike, and the third leaves the combined slopes of
what the others leave. So the slope in any direction is a sum over slopes for single variables. -/
theorem exec_linear (hfunctions : functions.BindsStandard) (code : List Instr) :
    (∀ m₁ m₂ : Machine (Dual ρ), m₁.map Dual.val = m₂.map Dual.val → ∀ a b : ρ,
      let r₁ := m₁.exec functions code
      let r₂ := m₂.exec functions code
      let r₃ := (blend a b m₁ m₂).exec functions code
      r₂.1 = r₁.1 ∧ r₃.1 = r₁.1 ∧ r₁.2.map Dual.val = r₂.2.map Dual.val ∧
        r₃.2 = blend a b r₁.2 r₂.2) ∧
    ∀ (m : Machine ρ) (u : Nat → ρ),
      let towards := (m.seeded u).exec functions code
      let single := fun i => (m.seeded (Pi.single i 1)).exec functions code
      (∀ i, (single i).1 = towards.1) ∧
        ∀ (k : Nat) (d : Dual ρ), towards.2.stack[k]? = some d → ∃ slope : Nat → ρ,
          (∀ i, (single i).2.stack[k]? = some ⟨d.val, slope i⟩) ∧
            d.eps = directional m.slots.length u slope := by
  refine ⟨fun m₁ m₂ hvals a b => ?_, fun m u => ?_⟩
  -- all three runs are runs along forms on the pair of slopes, so they share one run
  · have hfirst := exec_along hfunctions (.fst ρ ρ ρ) (pair m₁ m₂) code
    have hsecond := exec_along hfunctions (.snd ρ ρ ρ) (pair m₁ m₂) code
    have hthird := exec_along hfunctions (a • .fst ρ ρ ρ + b • .snd ρ ρ ρ) (pair m₁ m₂) code
    rw [(map_pair hvals).1] at hfirst
    rw [(map_pair hvals).2] at hsecond
    rw [map_pair_blend, ← blend_map] at hthird
    simp only [hfirst, hsecond, hthird, vals_map_along, and_self]
  · intro towards single
    -- the direction is a form on slopes for single variables
    let φ : (Nat → ρ) →ₗ[ρ] ρ := ∑ i ∈ Finset.range m.slots.length, u i • .proj i
    have hφ (s : Nat → ρ) : φ s = directional m.slots.length u s := by simp [φ, directional]
    have htowards : m.free.map (Jet.along φ) = m.seeded u :=
      map_free fun i hi => by simp [hφ, directional, Pi.single_apply, hi]
    -- and so is each single variable
    have hsingle (i : Nat) : m.free.map (Jet.along (.proj i)) = m.seeded (Pi.single i 1) :=
      map_free fun j _ => by simp [Pi.single_apply, eq_comm]
    have hrun := exec_along hfunctions φ m.free code
    have hruns (i : Nat) := exec_along hfunctions (.proj i) m.free code
    simp only [htowards, hsingle] at hrun hruns
    refine ⟨fun i => by simp only [towards, single, hrun, hruns], fun k d hd => ?_⟩
    -- what lies at this place of the stack has all the slopes at once
    simp only [towards, hrun, Machine.map, List.getElem?_map, Option.map_eq_some_iff] at hd
    obtain ⟨jet, hjet, rfl⟩ := hd
    refine ⟨jet.slope, fun i => ?_, hφ jet.slope⟩
    simp only [single, hruns, Machine.map, List.getElem?_map, hjet]
    rfl

/-- Seven times the remainder of seven by two: each of the two slopes reaches the result, the first
one on two ways. -/
theorem exec_linear_of_remainder :
    let functions : FunctionTable (Dual ℚ) := .extend .empty .standard
    let code : List Instr := [.load 0, .load 1, .call "fmod" 2, .load 0, .binary .mul]
    let m₁ : Machine (Dual ℚ) := ⟨[], [⟨7, 1⟩, ⟨2, 0⟩]⟩
    let m₂ : Machine (Dual ℚ) := ⟨[], [⟨7, 0⟩, ⟨2, 1⟩]⟩
    functions.BindsStandard ∧ m₁.map Dual.val = m₂.map Dual.val ∧
      (m₁.exec functions code).2.stack = [⟨7, 8⟩] ∧
      (m₂.exec functions code).2.stack = [⟨7, -21⟩] ∧
      ((blend 2 5 m₁ m₂).exec functions code).2.stack = [⟨7, 2 * 8 + 5 * -21⟩] := by
  intro functions code m₁ m₂
  have hstandard : functions.BindsStandard := FunctionTable.bindsStandard_extend
  obtain ⟨-, -, -, hblend⟩ := (exec_linear hstandard code).1 m₁ m₂ rfl 2 5
  -- seven by two has the quotient three, which both slopes go through
  let q : ℚ := roundRat .towardZero (7 / 2)
  have hq : q = 3 := by decide +kernel
  have hfirst : (m₁.exec functions code).2.stack = [⟨7, 8⟩] := by
    show [Dual.mk ((7 - q * 2) * 7) ((7 - q * 2) * 1 + (1 - q * 0) * 7)] = _
    norm_num [hq]
  have hsecond : (m₂.exec functions code).2.stack = [⟨7, -21⟩] := by
    show [Dual.mk ((7 - q * 2) * 7) ((7 - q * 2) * 0 + (0 - q * 1) * 7)] = _
    norm_num [hq]
  refine ⟨hstandard, rfl, hfirst, hsecond, ?_⟩
  rw [hblend, blend, hfirst, hsecond]
  rfl

end Machine

end FormulaMachine
