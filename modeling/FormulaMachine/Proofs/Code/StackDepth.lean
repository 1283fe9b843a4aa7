import FormulaMachine.Code.Program
import FormulaMachine.Proofs.Names.Emission

/-!
# The stack under emitted code

An instruction takes a fixed number of values off the stack and puts a fixed number on it, and there
are no jumps. So the depth of the stack at every place is read off the code, whatever is computed.

* `Code.depthAfter?`: the depth behind code, unless some instruction takes more than is there.
* `Code.Leaves`: the code lives on values that it has put on the stack itself, and leaves so many.
* **`Expr.leaves_emit`**: the code of an expression leaves one value, folded or not.
* **`Program.leaves_code`**: a compiled program leaves one value for each of its results.
-/

namespace FormulaMachine

namespace Code

/-- The depth of the stack behind the code, from the depth before it; nothing if an instruction
takes more values than there are. -/
def depthAfter? (depth : Nat) : List Instr → Option Nat
  | [] => some depth
  | instr :: code =>
    if instr.pops ≤ depth then depthAfter? (depth - instr.pops + instr.pushes) code else none

/-- The depth behind two pieces of code is that behind the second one from where the first has led.
-/
theorem depthAfter?_append (depth : Nat) (code more : List Instr) :
    depthAfter? depth (code ++ more) = (depthAfter? depth code).bind (depthAfter? · more) := by
  induction code generalizing depth with
  | nil => rfl
  | cons instr code ih =>
    rw [List.cons_append, depthAfter?, depthAfter?]
    split
    · exact ih _
    · rfl

/-- Where there is a depth behind the code, the first instruction finds what it takes. -/
theorem depthAfter?_cons_eq_some {depth final : Nat} {instr : Instr} {code : List Instr}
    (h : depthAfter? depth (instr :: code) = some final) :
    instr.pops ≤ depth ∧ depthAfter? (depth - instr.pops + instr.pushes) code = some final := by
  rw [depthAfter?] at h
  split at h
  · next hpops => exact ⟨hpops, h⟩
  · cases h

/-- On a stack of any depth, the code takes nothing that was there before, and leaves `n` values. -/
def Leaves (n : Nat) (code : List Instr) : Prop :=
  ∀ depth, depthAfter? depth code = some (depth + n)

theorem leaves_nil : Leaves 0 [] := fun _ => rfl

/-- Two pieces of code leave the values of both. -/
theorem Leaves.append {n k : Nat} {code more : List Instr} (h : Leaves n code)
    (hmore : Leaves k more) : Leaves (n + k) (code ++ more) := by
  intro depth
  rw [depthAfter?_append, h depth, Option.bind_some, hmore (depth + n), Nat.add_assoc]

/-- One more instruction, which finds all it takes among the values left. -/
theorem Leaves.andThen {n k : Nat} {code : List Instr} {instr : Instr} (h : Leaves n code)
    (hpops : instr.pops ≤ n) (hk : n - instr.pops + instr.pushes = k) :
    Leaves k (code ++ [instr]) := by
  intro depth
  -- the values that were there before are more still
  have henough : instr.pops ≤ depth + n := by omega
  have hfinal : depth + n - instr.pops + instr.pushes = depth + k := by omega
  rw [depthAfter?_append, h depth, Option.bind_some, depthAfter?, if_pos henough, hfinal]
  rfl

theorem leaves_push (value : Float) : Leaves 1 [.push value] := fun _ => rfl

theorem leaves_load (address : Nat) : Leaves 1 [.load address] := fun _ => rfl

end Code

/-! ## Expressions -/

namespace Expr

open Code

variable {options : Options}

/-- Arguments leave one value each. -/
theorem leaves_emitAll_of_forall {es : List Expr}
    (h : ∀ e ∈ es, ∀ table, Leaves 1 (e.emit options table).1) :
    ∀ table, Leaves es.length (emitAll options table es).1 := by
  induction es with
  | nil =>
    intro table
    rw [emitAll_nil]
    exact leaves_nil
  | cons e es ih =>
    intro table
    rw [emitAll_cons, List.length_cons, Nat.add_comm]
    have hrest := ih fun e' he' => h e' (by simp [he'])
    exact (h e (by simp) table).append (hrest _)

/-- Whatever stands in place of an expression, its operations or its value, leaves one value. -/
theorem leaves_emit (options : Options) (e : Expr) :
    ∀ table, Leaves 1 (e.emit options table).1 := by
  induction e using nested_induction with
  | number value =>
    intro table
    rw [emit_number]
    exact leaves_push value
  | var name =>
    intro table
    cases hconst : table.constant? options name with
    | some value =>
      rw [emit_var_of_constant hconst]
      exact leaves_push value
    | none =>
      rw [emit_var_of_variable hconst]
      exact leaves_load _
  | binary op left right ihl ihr =>
    intro table
    cases hfold : (binary op left right).folded? options with
    | some value =>
      rw [emit_of_folded? hfold]
      exact leaves_push value
    | none =>
      rw [emit_binary hfold]
      -- both operands leave one value each, which the operation takes
      have hoperands : Leaves 2 _ := (ihl table).append (ihr (left.emit options table).2)
      exact hoperands.andThen (Nat.le_refl 2) rfl
  | negate operand ih =>
    intro table
    cases hfold : (negate operand).folded? options with
    | some value =>
      rw [emit_of_folded? hfold]
      exact leaves_push value
    | none =>
      rw [emit_negate hfold]
      exact (ih table).andThen (Nat.le_refl 1) rfl
  | call function arguments ih =>
    intro table
    rw [emit_call]
    -- a call takes as many values as it has arguments, perhaps none
    have harguments := leaves_emitAll_of_forall ih table
    refine harguments.andThen (Nat.le_refl _) ?_
    show arguments.length - arguments.length + 1 = 1
    omega

end Expr

/-! ## Statements and programs -/

/-- Whether the statement is an expression, whose value is a result. -/
def Statement.isResult : Statement → Bool
  | assign _ _ => false
  | result _ => true

/-- How many statements are expressions. -/
def Formula.resultCount (formula : Formula) : Nat :=
  formula.statements.countP Statement.isResult

open Code in
/-- An expression leaves its value, an assignment stores it. -/
theorem Statement.leaves_emit (options : Options) (table : NameTable) (s : Statement) :
    Leaves (if s.isResult then 1 else 0) (s.emit options table).1 := by
  cases s with
  | result value => exact value.leaves_emit options table
  | assign name value => exact (value.leaves_emit options table).andThen (Nat.le_refl 1) rfl

open Code in
/-- A formula leaves one value for each expression statement, by induction on the statements. -/
theorem Formula.leaves_emit (options : Options) (table : NameTable) (formula : Formula) :
    Leaves formula.resultCount (formula.emit options table).1 := by
  obtain ⟨ss⟩ := formula
  show Leaves (ss.countP Statement.isResult) (Statement.emitAll options table ss).1
  induction ss generalizing table with
  | nil => exact leaves_nil
  | cons s rest ih =>
    rw [List.countP_cons, Nat.add_comm]
    exact (s.leaves_emit options table).append (ih _)

/-- The code of a compiled program leaves a value for each result of the formula, and takes none
from below. -/
theorem Program.leaves_code {options : Options} {table : NameTable} {source : String}
    {program : Program} (h : compile options table source = .ok program) :
    Code.Leaves program.formula.resultCount program.code := by
  rw [compile] at h
  split at h
  · cases h
  · next formula _ =>
    cases h
    exact formula.leaves_emit options table

end FormulaMachine
