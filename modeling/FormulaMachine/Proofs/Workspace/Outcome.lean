import FormulaMachine.Proofs.Code.StackDepth
import FormulaMachine.Proofs.Workspace.Agreement

/-!
# How a compiled program can end

An instruction asks for values on the stack, and some instructions ask for more: a load or a store
for the variable at its address, a call for a function of its name and its number of arguments. In
compiled code the values are always there, so a run ends at the first instruction whose other demand
is not met, or at the end of the code.

* `Instr.unmet?`, `Code.firstUnmet?`: the fault that an instruction, or the first one of some code,
  meets with in a workspace of a given size and with given functions.
* **`Instr.step_of_unmet?`**, **`Instr.step_of_met`**: one instruction on a deep enough stack.
* **`Machine.exec_of_depth`**: code that never reaches below the bottom of the stack.
* **`Workspace.run_compiled`**: compiled programs in any workspace.
-/

namespace FormulaMachine

variable {α β : Type}

/-- What the instruction asks of a workspace with so many variables and does not find there, apart
from values on the stack. -/
def Instr.unmet? (functions : FunctionTable α) (slotCount : Nat) : Instr → Option RunFault
  | load address | store address =>
    if address < slotCount then none else some (.unboundAddress address)
  | call name arity =>
    match functions.get? name with
    | none => some (.unknownFunction name)
    | some function =>
      if function.arity = arity then none else some (.arityMismatch name function.arity arity)
  | push _ | binary _ | negate => none

/-- The fault of the first instruction, in the order of the code, that does not find what it asks
for. -/
def Code.firstUnmet? (functions : FunctionTable α) (slotCount : Nat) (code : List Instr) :
    Option RunFault :=
  code.findSome? (Instr.unmet? functions slotCount)

/-- An unmet demand is never one for values on the stack. -/
theorem Instr.unmet?_ne_stackUnderflow {functions : FunctionTable α} {slotCount : Nat}
    {instr other : Instr} {needed available : Nat} :
    instr.unmet? functions slotCount ≠ some (.stackUnderflow other needed available) := by
  cases instr with
  | load | store =>
    rw [unmet?]
    split <;> exact nofun
  | call name arity =>
    simp only [unmet?]
    split
    · exact nofun
    · split <;> exact nofun
  | push | binary | negate => exact nofun

variable [Scalar α] [Scalar β]

/-! ## One instruction -/

section

variable {functions : FunctionTable α} {m : Machine α} {instr : Instr}

/-- Where the stack is deep enough, an unmet demand is what the instruction fails with. -/
theorem Instr.step_of_unmet? {fault : RunFault} (hdepth : instr.pops ≤ m.stack.length)
    (h : instr.unmet? functions m.slots.length = some fault) :
    instr.step functions m = .error fault := by
  obtain ⟨stack, slots⟩ := m
  simp only at hdepth h
  cases instr with
  | push | binary | negate => cases h
  | load address =>
    simp only [unmet?] at h
    split at h
    · cases h
    · next hge =>
      cases h
      have hnone : slots[address]? = none := List.getElem?_eq_none (Nat.le_of_not_lt hge)
      simp only [step, hnone]
  | store address =>
    simp only [unmet?] at h
    split at h
    · cases h
    · next hge =>
      cases h
      -- the depth is checked before the address
      cases stack with
      | nil => cases hdepth
      | cons value rest => simp only [step, if_neg hge]
  | call name arity =>
    simp only [unmet?] at h
    simp only [step]
    cases hget : functions.get? name with
    | none =>
      rw [hget] at h
      cases h
      rfl
    | some function =>
      rw [hget] at h
      simp only at h ⊢
      split at h
      · cases h
      · next hne =>
        cases h
        exact if_pos hne

/-- Where the stack is deep enough and the demand is met, the instruction runs, takes its values and
leaves its result. -/
theorem Instr.step_of_met (hdepth : instr.pops ≤ m.stack.length)
    (h : instr.unmet? functions m.slots.length = none) :
    ∃ next, instr.step functions m = .ok next ∧
      next.stack.length = m.stack.length - instr.pops + instr.pushes ∧
      next.slots.length = m.slots.length := by
  obtain ⟨stack, slots⟩ := m
  simp only at hdepth h ⊢
  cases instr with
  | push value => exact ⟨_, rfl, rfl, rfl⟩
  | load address =>
    have hlt : address < slots.length := by
      by_contra hge
      rw [unmet?, if_neg hge] at h
      cases h
    refine ⟨⟨slots[address] :: stack, slots⟩, ?_, rfl, rfl⟩
    simp only [step, List.getElem?_eq_getElem hlt]
  | store address =>
    have hlt : address < slots.length := by
      by_contra hge
      rw [unmet?, if_neg hge] at h
      cases h
    cases stack with
    | nil => cases hdepth
    | cons value rest =>
      refine ⟨⟨rest, slots.set address value⟩, ?_, rfl, List.length_set⟩
      simp only [step, if_pos hlt]
  | call name arity =>
    simp only [pops] at hdepth
    simp only [unmet?] at h
    split at h
    · cases h
    · next function hget =>
      split at h
      · next harity =>
        -- the function is bound with this arity, and its arguments are on the stack
        refine ⟨⟨function.body (stack.take arity).reverse :: stack.drop arity, slots⟩, ?_, ?_, rfl⟩
        · simp only [step, hget, harity, ne_eq, not_true_eq_false, if_false,
            Nat.not_lt.2 hdepth]
        · simp only [List.length_cons, List.length_drop, pops, pushes]
      · cases h
  | binary op =>
    rcases stack with _ | ⟨right, _ | ⟨left, rest⟩⟩
    · cases hdepth
    · exact absurd hdepth (by simp [pops])
    · exact ⟨_, rfl, rfl, rfl⟩
  | negate =>
    cases stack with
    | nil => cases hdepth
    | cons value rest => exact ⟨_, rfl, rfl, rfl⟩

end

/-! ## Code -/

/-- Code that never reaches below the bottom of the stack fails at the first unmet demand and with
it, and else leaves a stack of the depth that the code tells. -/
theorem Machine.exec_of_depth (functions : FunctionTable α) {m : Machine α} {code : List Instr}
    {depth : Nat} (h : Code.depthAfter? m.stack.length code = some depth) :
    match Code.firstUnmet? functions m.slots.length code with
    | some fault => (m.exec functions code).1 = .error fault
    | none => (m.exec functions code).1 = .ok () ∧
        (m.exec functions code).2.stack.length = depth := by
  induction code generalizing m with
  | nil =>
    cases h
    exact ⟨rfl, rfl⟩
  | cons instr code ih =>
    obtain ⟨hpops, hrest⟩ := Code.depthAfter?_cons_eq_some h
    rw [Code.firstUnmet?, List.findSome?_cons, exec]
    cases hdemand : instr.unmet? functions m.slots.length with
    | some fault => rw [Instr.step_of_unmet? hpops hdemand]
    | none =>
      obtain ⟨next, hstep, hstack, hslots⟩ := Instr.step_of_met hpops hdemand
      rw [hstep]
      rw [← hstack] at hrest
      -- no instruction changes the number of variables, so the demands stay the same
      have hnext := ih hrest
      rw [hslots] at hnext
      exact hnext

/-! ## Workspaces -/

namespace Workspace

/-- How many variables a run finds: every name has a slot by then. -/
def slotCount (w : Workspace α) : Nat := max w.slots.length w.names.size

/-- A run begins with a slot for every name, and with all the slots there were before. -/
theorem length_slots_grow (w : Workspace α) : w.grow.slots.length = w.slotCount := by
  have hmax : w.slots.length + (w.names.size - w.slots.length) = max w.slots.length w.names.size :=
    by omega
  rw [grow, List.length_append, List.length_replicate, hmax, slotCount]

/-- What keeps a program from running to its end in the workspace. -/
def obstacle? (w : Workspace α) (program : Program) : Option RunFault :=
  Code.firstUnmet? w.functions w.slotCount program.code

omit [Scalar α] in
/-- What a workspace lacks is never a value on the stack. -/
theorem obstacle?_ne_stackUnderflow {w : Workspace α} {program : Program} {instr : Instr}
    {needed available : Nat} :
    w.obstacle? program ≠ some (.stackUnderflow instr needed available) := by
  intro h
  obtain ⟨demanding, -, hunmet⟩ := List.exists_of_findSome?_eq_some h
  exact Instr.unmet?_ne_stackUnderflow hunmet

section

variable {n : Nat} {program : Program}

/-- Code that lives on its own values runs up to the obstacle, if there is one. -/
theorem run_of_leaves (h : Code.Leaves n program.code) (w : Workspace α) :
    match w.obstacle? program with
    | some fault => (w.run program).1 = .error fault
    | none => (w.run program).1 = .ok () ∧ (w.run program).2.stack.length = n := by
  have hdepth : Code.depthAfter? w.start.stack.length program.code = some n :=
    (h 0).trans (congrArg some (Nat.zero_add n))
  have hrun := Machine.exec_of_depth w.functions hdepth
  rw [show w.start.slots.length = w.slotCount from w.length_slots_grow] at hrun
  exact hrun

/-- Without an obstacle a run succeeds and leaves a value for each result. -/
theorem run_of_obstacle?_eq_none (h : Code.Leaves n program.code) {w : Workspace α}
    (hnone : w.obstacle? program = none) :
    (w.run program).1 = .ok () ∧ (w.run program).2.stack.length = n := by
  have hrun := run_of_leaves h w
  rw [hnone] at hrun
  exact hrun

/-- A run fails exactly if there is an obstacle, and with it. -/
theorem run_error_iff (h : Code.Leaves n program.code) (w : Workspace α) (fault : RunFault) :
    (w.run program).1 = .error fault ↔ w.obstacle? program = some fault := by
  cases hobstacle : w.obstacle? program with
  | some other =>
    have hrun := run_of_leaves h w
    rw [hobstacle] at hrun
    rw [show (w.run program).1 = .error other from hrun, Except.error.injEq, Option.some.injEq]
  | none =>
    rw [(run_of_obstacle?_eq_none h hobstacle).1]
    exact ⟨nofun, nofun⟩

/-- An evaluation fails like the run, or for want of a result. -/
theorem evaluate_error_iff (h : Code.Leaves n program.code) (w : Workspace α) (fault : RunFault) :
    (w.evaluate program).1 = .error fault ↔ w.obstacle? program = some fault ∨
      w.obstacle? program = none ∧ n = 0 ∧ fault = .emptyStack := by
  have hanswer : (w.evaluate program).1 =
      Machine.answer (w.run program).1 (w.run program).2.stack := w.evaluate_fst program
  rw [hanswer]
  cases hobstacle : w.obstacle? program with
  | some other =>
    rw [(run_error_iff h w other).2 hobstacle]
    simp [Machine.answer]
  | none =>
    obtain ⟨hok, hlength⟩ := run_of_obstacle?_eq_none h hobstacle
    -- the run has succeeded, so only an empty stack can keep the evaluation from a result
    rw [hok, ← hlength]
    cases (w.run program).2.stack with
    | nil => simp [Machine.answer, eq_comm]
    | cons value rest => simp [Machine.answer]

end

/-- A compiled program never finds too few values on the stack. Its run fails exactly with the
demand of its first instruction, in the order of the code, that the workspace does not meet: an
address with no slot, an unbound function, or one of another arity. Else it leaves one value for
each of its results. An evaluation fails in these cases and, with an empty stack, if the program has no
result. Where as many variables and functions of the same arities are bound, runs and evaluations
end alike, whatever the values, the scalars and the stacks from before are. -/
theorem run_compiled {options : Options} {table : NameTable} {source : String} {program : Program}
    (hcompile : Program.compile options table source = .ok program) :
    (∀ w : Workspace α,
      (∀ instr needed available,
        (w.run program).1 ≠ .error (.stackUnderflow instr needed available)) ∧
      (∀ fault, (w.run program).1 = .error fault ↔ w.obstacle? program = some fault) ∧
      (w.obstacle? program = none → (w.run program).1 = .ok () ∧
        (w.run program).2.stack.length = program.formula.resultCount) ∧
      ∀ fault, (w.evaluate program).1 = .error fault ↔ w.obstacle? program = some fault ∨
        w.obstacle? program = none ∧ program.formula.resultCount = 0 ∧ fault = .emptyStack) ∧
    ∀ (w : Workspace α) (v : Workspace β), w.slotCount = v.slotCount →
      w.functions.SameArities v.functions →
      (w.run program).1 = (v.run program).1 ∧
        (w.run program).2.stack.length = (v.run program).2.stack.length ∧
        Alike (fun _ _ => True) (w.evaluate program).1 (v.evaluate program).1 := by
  have hleaves := Program.leaves_code hcompile
  refine ⟨fun w => ⟨fun instr needed available h => ?_, run_error_iff hleaves w,
    run_of_obstacle?_eq_none hleaves, evaluate_error_iff hleaves w⟩,
    fun w v hslots hfunctions => ?_⟩
  · have hobstacle := (run_error_iff hleaves w _).1 h
    exact obstacle?_ne_stackUnderflow hobstacle
  · have hlength : w.grow.slots.length = v.grow.slots.length := by
      rw [length_slots_grow, length_slots_grow, hslots]
    -- both stacks are empty at the start, and both machines have as many variables
    have hstart : w.start.SameShape v.start := ⟨rfl, hlength⟩
    obtain ⟨houtcome, hend⟩ := Machine.exec_of_shape hfunctions hstart program.code
    exact ⟨houtcome, hend.stack, evaluate_of_shape hfunctions hlength program⟩

set_option maxRecDepth 10000 in
/-- A workspace that was not made for the program: `y` has no slot, and `f` takes two arguments. The
call comes first in the code, on doubles and on dual numbers. -/
theorem run_compiled_of_wrong_arity :
    let formula : Formula := ⟨[.assign "y" (.call "f" [.var "x"]), .result (.var "y")]⟩
    let program : Program := ⟨"y = f(x); y", formula,
      [.load 0, .call "f" 1, .store 1, .load 1], ⟨["x", "y"], by decide⟩⟩
    let w : Workspace Float :=
      ⟨[7, 8], ⟨["x"], by decide⟩, [3], .register .empty "f" ⟨2, fun _ => 0⟩⟩
    let v : Workspace (Dual Float) :=
      ⟨[], ⟨["a"], by decide⟩, [.independent 5], .register .empty "f" ⟨2, fun _ => .constant 1⟩⟩
    Program.compile {} .empty "y = f(x); y" = .ok program ∧
      (w.run program).1 = .error (.arityMismatch "f" 2 1) ∧
      (v.run program).1 = .error (.arityMismatch "f" 2 1) := by
  intro formula program w v
  have hcompile : Program.compile {} .empty "y = f(x); y" = .ok program := by
    have hparse : Formula.parse "y = f(x); y" = .ok formula := by cbv
    rw [Program.compile, hparse]
    rfl
  have hfunctions : w.functions.SameArities v.functions := by
    intro name
    rw [FunctionTable.get?_register, FunctionTable.get?_register]
    split <;> rfl
  obtain ⟨halone, htogether⟩ := run_compiled (α := Float) (β := Dual Float) hcompile
  -- the first unmet demand is read off the code; the second workspace follows by the shape alone
  have hw := ((halone w).2.1 _).2 rfl
  exact ⟨hcompile, hw, (htogether w v rfl hfunctions).1 ▸ hw⟩

end Workspace

end FormulaMachine
