import FormulaMachine.Proofs.Workspace.Agreement

/-!
# Evaluations on scalars that are related

A relation that every operation keeps is kept by evaluations: workspaces that are related variable by
variable have related results, and what is left in them is related again.

* `Workspace.Related`: the same names, and related variables and functions.
* **`Workspace.Related.evaluate`**: programs whose code runs alike have related results.
-/

namespace FormulaMachine

variable {α β : Type} [Scalar α] [Scalar β] {r : α → β → Prop}

namespace Workspace

/-- The same names, and variables and functions that are related. -/
structure Related (r : α → β → Prop) (w : Workspace α) (v : Workspace β) : Prop where
  names : w.names = v.names
  slots : List.Forall₂ r w.slots v.slots
  functions : w.functions.Related r v.functions

variable {w : Workspace α} {v : Workspace β}

/-- Workspaces that are related still are when every name has got a slot, if zeros are related. -/
theorem Related.grow (hzero : r Scalar.zero Scalar.zero) (h : w.Related r v) :
    w.grow.Related r v.grow := by
  refine ⟨h.names, ?_, h.functions⟩
  rw [Workspace.grow, Workspace.grow, h.names, h.slots.length_eq]
  refine List.rel_append h.slots ?_
  -- both get the same number of zeros
  generalize v.names.size - v.slots.length = count
  induction count with
  | zero => exact .nil
  | succ count ih => exact .cons hzero ih

omit [Scalar α] [Scalar β] in
/-- Workspaces stay related when related values are put into their first slots. -/
theorem Related.setFirst (h : w.Related r v) {values : List α} {others : List β}
    (hvalues : List.Forall₂ r values others) :
    (w.setFirst values).Related r (v.setFirst others) := by
  refine ⟨h.names, ?_, h.functions⟩
  show List.Forall₂ r (values ++ w.slots.drop values.length) (others ++ v.slots.drop others.length)
  rw [hvalues.length_eq]
  exact List.rel_append hvalues (List.forall₂_drop _ h.slots)

/-- Evaluations of programs whose code runs alike fail alike or have related results, and leave
related workspaces. -/
theorem Related.evaluate (hzero : r Scalar.zero Scalar.zero) (h : w.Related r v)
    {program program' : Program} (hcode : Code.RelatedRuns r program.code program'.code) :
    Alike r (w.evaluate program).1 (v.evaluate program').1 ∧
      (w.evaluate program).2.Related r (v.evaluate program').2 := by
  have hstart : w.start.Related r v.start := ⟨.nil, (h.grow hzero).slots⟩
  obtain ⟨houtcome, hend⟩ := hcode _ _ h.functions _ _ hstart
  constructor
  · rw [evaluate_fst, evaluate_fst, houtcome]
    exact Machine.answer_related hend.stack _
  · refine ⟨?_, ?_, ?_⟩
    · rw [names_evaluate, names_evaluate, h.names]
    · rw [slots_evaluate, slots_evaluate]
      exact hend.slots
    · rw [functions_evaluate, functions_evaluate]
      exact h.functions

end Workspace

end FormulaMachine
