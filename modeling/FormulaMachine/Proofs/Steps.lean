import Mathlib.Logic.Basic

/-!
# Steps that may be broken off

Steps on one state, each with a result. Steps that are broken off leave the state as it was then.

* `Steps.apply`: what becomes of a state.
* **`Steps.apply_bind`**: one sequence of steps behind another.
* `Steps.attempt`: steps whose end, whatever it is, is handed on as a result.
-/

namespace FormulaMachine

/-- Steps on a state of type `σ`, which an `ε` may break off. -/
abbrev Steps (ε σ α : Type) := ExceptT ε (StateM σ) α

namespace Steps

variable {ε σ α β : Type} {state after : σ}

/-- Runs the steps: the result, or what broke them off, and the state as it is then. -/
def apply (steps : Steps ε σ α) (state : σ) : Except ε α × σ := (steps.run.run state).run

theorem apply_pure (a : α) : (pure a : Steps ε σ α).apply state = (.ok a, state) := rfl

theorem apply_get : (get : Steps ε σ σ).apply state = (.ok state, state) := rfl

theorem apply_modify (f : σ → σ) : (modify f : Steps ε σ Unit).apply state = (.ok (), f state) :=
  rfl

/-- One sequence of steps behind another: the second begins with the result and the state of the
first, and does not happen if the first is broken off. -/
theorem apply_bind (steps : Steps ε σ α) (next : α → Steps ε σ β) :
    (steps >>= next).apply state =
      match steps.apply state with
      | (.ok a, state) => (next a).apply state
      | (.error e, state) => (.error e, state) := by
  unfold apply ExceptT.run StateT.run Id.run
  simp only [bind, ExceptT.bind, ExceptT.mk, StateT.bind, ExceptT.bindCont]
  cases steps state with
  | mk result after => cases result <;> rfl

/-- Steps that succeed are done with, and the next ones see what they have left. -/
theorem apply_bind_of_ok {steps : Steps ε σ α} {next : α → Steps ε σ β} {a : α}
    (h : steps.apply state = (.ok a, after)) :
    (steps >>= next).apply state = (next a).apply after := by
  rw [apply_bind, h]

/-- Steps that are broken off take everything behind them along. -/
theorem apply_bind_of_error {steps : Steps ε σ α} {next : α → Steps ε σ β} {e : ε}
    (h : steps.apply state = (.error e, after)) :
    (steps >>= next).apply state = (.error e, after) := by
  rw [apply_bind, h]

theorem apply_get_bind (next : σ → Steps ε σ α) :
    (get >>= next : Steps ε σ α).apply state = (next state).apply state :=
  apply_bind_of_ok apply_get

/-- The steps, never broken off, with their end as the result. -/
def attempt (steps : Steps ε σ α) : Steps ε σ (Except ε α) := ExceptT.lift steps.run

/-- An attempt is never broken off, and changes the state as the steps do. -/
theorem apply_attempt (steps : Steps ε σ α) :
    steps.attempt.apply state = (.ok (steps.apply state).1, (steps.apply state).2) := rfl

/-- Goes on with a result, or breaks off with it. -/
def settle : Except ε α → Steps ε σ α
  | .ok a => pure a
  | .error e => throw e

/-- A result that is given, or thrown, leaves the state as it is. -/
theorem apply_settle (result : Except ε α) :
    (settle result : Steps ε σ α).apply state = (result, state) := by
  cases result <;> rfl

end Steps

end FormulaMachine
