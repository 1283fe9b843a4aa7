import FormulaMachine.Proofs.Names.Emission

/-!
# Folding as a change of the formula

Emission folds while it goes: it puts one `push` in place of each part whose leaves are all literals.
The same code comes out without folding if the formula has a literal in place of each such part. So
what is known of code that was not folded is known of all code, about the folded formula.

* `Expr.folded`, `Formula.folded`: the formula after folding.
* **`Expr.emit_folded`**, **`Formula.emit_folded`**: emission is emission of the folded formula with
  folding off.
* `Formula.folded_of_not_fold`: a formula stays as it stands if folding is off.
-/

namespace FormulaMachine

/-- The options with folding off. -/
def Options.unfolding (options : Options) : Options := { options with foldConstants := false }

namespace Expr

mutual

/-- The expression with a literal for each part that emission folds. -/
def folded (options : Options) (e : Expr) : Expr :=
  match e.folded? options with
  | some value => .number value
  | none =>
    match e with
    | number value => .number value
    | var name => .var name
    | binary op left right => .binary op (left.folded options) (right.folded options)
    | negate operand => .negate (operand.folded options)
    | call function arguments => .call function (foldedAll options arguments)

/-- The expressions, each folded for itself. -/
def foldedAll (options : Options) : List Expr → List Expr
  | [] => []
  | e :: es => e.folded options :: foldedAll options es

end

variable {options : Options}

theorem foldedAll_eq_map (es : List Expr) : foldedAll options es = es.map (folded options) := by
  induction es with
  | nil => rfl
  | cons e es ih => rw [foldedAll, ih, List.map_cons]

/-- What holds of each argument holds of all of them, emitted one after the other. -/
theorem emitAll_foldedAll {es : List Expr}
    (h : ∀ e ∈ es, ∀ table, (e.folded options).emit options.unfolding table = e.emit options table)
    (table : NameTable) :
    emitAll options.unfolding table (foldedAll options es) = emitAll options table es := by
  induction es generalizing table with
  | nil => rw [foldedAll, emitAll_nil, emitAll_nil]
  | cons e es ih =>
    rw [foldedAll, emitAll_cons, emitAll_cons, h e (by simp),
      ih fun e' he' => h e' (by simp [he'])]

/-- Emission is emission of the folded expression with folding off. -/
theorem emit_folded (e : Expr) (table : NameTable) :
    (e.folded options).emit options.unfolding table = e.emit options table := by
  -- a part that is folded is one literal in both; elsewhere the same instruction follows the
  -- emission of the operands
  induction e using nested_induction generalizing table with
  | number value =>
    unfold folded
    split
    · next hfold => rw [emit_of_folded? hfold, emit_number]
    · rw [emit_number, emit_number]
  | var name =>
    unfold folded
    split
    · next hfold => rw [emit_of_folded? hfold, emit_number]
    -- folding has no say in what is a constant
    · have hsame : table.constant? options.unfolding name = table.constant? options name := rfl
      cases hconstant : table.constant? options name with
      | some value =>
        rw [emit_var_of_constant hconstant, emit_var_of_constant (hsame.trans hconstant)]
      | none => rw [emit_var_of_variable hconstant, emit_var_of_variable (hsame.trans hconstant)]
  | binary op left right ihl ihr =>
    unfold folded
    split
    · next hfold => rw [emit_of_folded? hfold, emit_number]
    · next hfold => rw [emit_binary hfold, emit_binary (folded?_eq_none_of_not_fold rfl), ihl, ihr]
  | negate operand ih =>
    unfold folded
    split
    · next hfold => rw [emit_of_folded? hfold, emit_number]
    · next hfold => rw [emit_negate hfold, emit_negate (folded?_eq_none_of_not_fold rfl), ih]
  | call function arguments ih =>
    unfold folded
    split
    · next hfold => rw [emit_of_folded? hfold, emit_number]
    · rw [emit_call, emit_call, emitAll_foldedAll ih, foldedAll_eq_map, List.length_map]

/-- Without folding an expression stays as it is. -/
theorem folded_of_not_fold (h : options.foldConstants = false) (e : Expr) :
    e.folded options = e := by
  induction e using nested_induction with
  | number value => rw [folded, folded?_eq_none_of_not_fold h]
  | var name => rw [folded, folded?_eq_none_of_not_fold h]
  | binary op left right ihl ihr => rw [folded, folded?_eq_none_of_not_fold h, ihl, ihr]
  | negate operand ih => rw [folded, folded?_eq_none_of_not_fold h, ih]
  | call function arguments ih =>
    rw [folded, folded?_eq_none_of_not_fold h, foldedAll_eq_map, List.map_congr_left ih]
    exact congrArg (call function) (List.map_id arguments)

end Expr

namespace Statement

/-- The statement with its expression folded. -/
def folded (options : Options) : Statement → Statement
  | assign name value => .assign name (value.folded options)
  | result value => .result (value.folded options)

/-- Emission of statements is emission of the folded ones with folding off. -/
theorem emitAll_folded {options : Options} (ss : List Statement) (table : NameTable) :
    emitAll options.unfolding table (ss.map (folded options)) = emitAll options table ss := by
  induction ss generalizing table with
  | nil => rfl
  | cons s rest ih =>
    cases s with
    | assign name value =>
      rw [List.map_cons, folded, emitAll_assign, emitAll_assign, value.emit_folded, ih]
    | result value =>
      rw [List.map_cons, folded, emitAll_result, emitAll_result, value.emit_folded, ih]

theorem expr_folded (options : Options) (s : Statement) :
    (s.folded options).expr = s.expr.folded options := by
  cases s <;> rfl

end Statement

/-- The formula with a literal for each part that emission folds: for all operations on literals if
folding is on, and as it stands if folding is off. -/
def Formula.folded (options : Options) (formula : Formula) : Formula :=
  ⟨formula.statements.map (Statement.folded options)⟩

namespace Formula

/-- Emission of a formula is emission of the folded one with folding off. -/
theorem emit_folded (formula : Formula) (options : Options) (table : NameTable) :
    (formula.folded options).emit options.unfolding table = formula.emit options table :=
  Statement.emitAll_folded formula.statements table

/-- A formula stays as it stands if folding is off. -/
theorem folded_of_not_fold {options : Options} (h : options.foldConstants = false)
    (formula : Formula) : formula.folded options = formula := by
  have hid : Statement.folded options = id := by
    funext s
    cases s <;> exact congrArg _ (Expr.folded_of_not_fold h _)
  rw [folded, hid, List.map_id]

end Formula

end FormulaMachine
