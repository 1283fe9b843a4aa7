import FormulaMachine.Proofs.Binary64.Order
import FormulaMachine.Proofs.Machine.Homomorphism
import FormulaMachine.Proofs.Machine.StandardTable

/-!
# Values under slopes

A run on dual numbers computes its values as the run on doubles does, whatever slopes come with
them. Most rules take the value part straight from the function on doubles; the ones that choose
their result by a test of their own need the order of doubles.

* **`homomorphism_val`**: dropping the slopes keeps every operation.
* **`exec_vals`**: with the standard functions bound, a run on dual numbers and the run on their
  values pass the same states and end the same way.
-/

namespace FormulaMachine

namespace Dual

open Binary64

/-- The slope of a length at the origin is a choice; its value is the length itself. -/
theorem val_hypot (a b : Dual Float) :
    (Scalar.hypot a b).val = Scalar.hypot a.val b.val := by
  show (Dual.hypot a b).val = Special.hypotenuse a.val b.val
  simp only [Dual.hypot]
  split
  · next hzero => exact (hypotenuse_eq_zero hzero).symm
  · rfl

/-- Where the branch for a positive difference is taken, no NaN is in play. -/
theorem val_positiveDifference (a b : Dual Float) :
    (Scalar.positiveDifference a b).val = Scalar.positiveDifference a.val b.val := by
  show (Dual.positiveDifference a b).val = Binary64.positiveDifference a.val b.val
  simp only [Dual.positiveDifference]
  split
  · next hlt => exact (positiveDifference_of_lt (of_decide_eq_true hlt)).symm
  · rfl

/-- The larger one is chosen by its value, and the slope comes with it. -/
theorem val_max (a b : Dual Float) : (Scalar.max a b).val = Scalar.max a.val b.val := by
  show (Dual.max a b).val = larger a.val b.val
  rw [larger_eq, Dual.max]
  exact apply_ite Dual.val _ a b

/-- The smaller one is chosen by its value, and the slope comes with it. -/
theorem val_min (a b : Dual Float) : (Scalar.min a b).val = Scalar.min a.val b.val := by
  show (Dual.min a b).val = smaller a.val b.val
  rw [smaller_eq, Dual.min]
  exact apply_ite Dual.val _ a b

/-- Dropping the slopes keeps every operation. -/
theorem homomorphism_val : Scalar.Homomorphism (Dual.val : Dual Float → Float) where
  ofFloat _ := rfl
  operator op _ _ := by cases op <;> rfl
  neg _ := rfl
  smooth _ _ := rfl
  integral _ _ := rfl
  abs _ := rfl
  atan2 _ _ := rfl
  hypot := val_hypot
  fmod _ _ := rfl
  remainder _ _ := rfl
  positiveDifference := val_positiveDifference
  max := val_max
  min := val_min

end Dual

/-! ## Runs with the standard functions -/

namespace Machine

/-- The machine of the values, without the slopes. -/
abbrev vals (d : Machine (Dual Float)) : Machine Float := d.map Dual.val

/-- A run on dual numbers is the run on their values: it succeeds or fails alike, fails with the same
fault at the same instruction, and every state it passes has the values that the run on doubles has
there. So two runs from the same values pass the same values, whatever their slopes. -/
theorem exec_vals {onFloat : FunctionTable Float} {onDual : FunctionTable (Dual Float)}
    (hfloat : onFloat.BindsStandard) (hdual : onDual.BindsStandard)
    {m : Machine Float} {d : Machine (Dual Float)} (hvals : d.vals = m) (code : List Instr) :
    (d.exec onDual code).1 = (m.exec onFloat code).1 ∧
      (d.exec onDual code).2.vals = (m.exec onFloat code).2 ∧
      (d.states onDual code).map vals = m.states onFloat code ∧
      ∀ e : Machine (Dual Float), e.vals = m →
        (e.exec onDual code).1 = (d.exec onDual code).1 ∧
          (e.states onDual code).map vals = (d.states onDual code).map vals := by
  -- both tables bind the standard functions, whatever the order of their bindings
  have hmaps : onDual.Maps Dual.val onFloat := fun name => by
    rw [hfloat name, hdual name]
    exact FunctionTable.standard_maps Dual.homomorphism_val name
  have hexec (e : Machine (Dual Float)) (he : e.vals = m) :
      m.exec onFloat code = ((e.exec onDual code).1, (e.exec onDual code).2.vals) := by
    rw [← he]
    exact exec_map Dual.homomorphism_val hmaps e code
  have hstates (e : Machine (Dual Float)) (he : e.vals = m) :
      m.states onFloat code = (e.states onDual code).map vals := by
    rw [← he]
    exact states_map Dual.homomorphism_val hmaps e code
  -- other slopes are other dual numbers with the same values, and the same holds of them
  refine ⟨?_, ?_, (hstates d hvals).symm, fun e he => ⟨?_, ?_⟩⟩
  · rw [hexec d hvals]
  · rw [hexec d hvals]
  · rw [← congrArg Prod.fst (hexec d hvals), hexec e he]
  · rw [← hstates d hvals, hstates e he]

/-- A run that calls a function and then finds the stack too short. -/
theorem exec_vals_of_underflow :
    let code : List Instr := [.load 0, .call "hypot" 2, .negate, .binary .add]
    let d : Machine (Dual Float) := ⟨[⟨0, 5⟩], [⟨2, 1⟩]⟩
    (d.exec .standard code).1 = (d.vals.exec (.extend .empty .standard) code).1 ∧
      (d.exec .standard code).2.vals = (d.vals.exec (.extend .empty .standard) code).2 ∧
      (d.states .standard code).map vals = d.vals.states (.extend .empty .standard) code :=
  have h := exec_vals FunctionTable.bindsStandard_extend FunctionTable.bindsStandard_standard rfl _
  ⟨h.1, h.2.1, h.2.2.1⟩

end Machine

end FormulaMachine
