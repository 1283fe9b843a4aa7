import FormulaMachine.Proofs.Expr.Parts
import FormulaMachine.Proofs.Grammar.Tree

/-!
# The derivation of a printed formula

An expression is printed with parentheses around every operation. So what is printed is a primary
phrase, and its operands are primary phrases. The derivation is read off the expression; where the
grammar asks for a sum, a product or a signed phrase, it goes through the rules that add nothing.

* `Expr.derivation`: the derivation of what an expression is printed as.
* `Expr.need`: how many signed phrases lie within each other there.
* **`Expr.value_derivation`**, **`Expr.nesting_derivation`**: the derivation stands for the
  expression, and its nesting is what the expression needs.
* **`Formula.statements_derivation`**, **`Formula.nesting_derivation_le`**: the same for formulas.
-/

namespace FormulaMachine

open Grammar

/-! ## Phrases around a primary one -/

namespace Grammar.Tree

/-- The derivation of a primary phrase. -/
abbrev Primary := Tree (.expr .primary)

/-- A signed phrase without sign and exponent. -/
def lone (t : Primary) : Tree (.expr .signed) := unsigned (bare t)

/-- An expression without operators outside of the primary phrase. -/
def alone (t : Primary) : ExprTree := chain (chain t.lone done) done

/-- The rules in between add no token. -/
theorem yield_alone (t : Primary) : t.alone.yield = t.yield := by
  simp [alone, lone, yield]

/-- One signed phrase is around the primary one. -/
theorem nesting_alone (t : Primary) : t.alone.nesting = t.nesting + 1 := by
  simp [alone, lone, nesting]

/-- Two primary phrases with an operator between them. -/
def operation : Operator → Primary → Primary → ExprTree
  | .add, left, right =>
    chain (chain left.lone done) (link .add (by decide) (chain right.lone done) done)
  | .sub, left, right =>
    chain (chain left.lone done) (link .sub (by decide) (chain right.lone done) done)
  | .mul, left, right => chain (chain left.lone (link .mul (by decide) right.lone done)) done
  | .div, left, right => chain (chain left.lone (link .div (by decide) right.lone done)) done
  | .pow, left, right => chain (chain (unsigned (raised left right.lone)) done) done

/-- The tokens of the operands with that of the operator between them, at whichever level it stands.
-/
theorem yield_operation (op : Operator) (left right : Primary) :
    (operation op left right).yield = left.yield ++ op.token :: right.yield := by
  cases op <;> simp [operation, lone, yield, Operator.token]

theorem value_operation (op : Operator) (left right : Primary) :
    (operation op left right).value = .binary op left.value right.value := by
  cases op <;> rfl

/-- A primary phrase with a minus sign. -/
def negation (t : Primary) : ExprTree := chain (chain (minus t.lone) done) done

theorem yield_negation (t : Primary) : t.negation.yield = .minus :: t.yield := by
  simp [negation, lone, yield]

/-- The sign is one signed phrase, and its operand stands in another. -/
theorem nesting_negation (t : Primary) : t.negation.nesting = t.nesting + 2 := by
  simp [negation, lone, nesting]

/-- Arguments, the first of them apart. -/
def argumentList (first : Primary) : List Primary → Tree .arguments
  | [] => lastArgument first.alone
  | next :: rest => nextArgument first.alone (argumentList next rest)

/-- The arguments stand for the values of their phrases, in order. -/
theorem value_argumentList (first : Primary) (rest : List Primary) :
    (argumentList first rest).value = (first :: rest).map value := by
  induction rest generalizing first with
  | nil => rfl
  | cons next rest ih => exact congrArg (first.value :: ·) (ih next)

end Grammar.Tree

/-! ## Expressions -/

namespace Expr

mutual

/-- The derivation of what the expression is printed as. -/
def derivation : Expr → Tree.Primary
  | number value => .number value
  | var name => .name name
  | binary op left right => .parens (.operation op left.derivation right.derivation)
  | negate operand => .parens operand.derivation.negation
  | call function arguments =>
    match derivations arguments with
    | [] => .callNone function
    | first :: rest => .callSome function (.argumentList first rest)

/-- The derivations of several expressions. -/
def derivations : List Expr → List Tree.Primary
  | [] => []
  | e :: es => e.derivation :: derivations es

end

theorem derivations_eq_map (es : List Expr) : derivations es = es.map derivation := by
  induction es with
  | nil => rfl
  | cons e es ih => rw [derivations, ih, List.map_cons]

mutual

/-- How many signed phrases lie within each other in what the expression is printed as. Behind `^`
stands a signed phrase of its own, and so it does behind `-`. -/
def need : Expr → Nat
  | number _ | var _ => 1
  | binary op left right =>
    match op with
    | .pow => 1 + max left.need (1 + right.need)
    | .add | .sub | .mul | .div => 1 + max left.need right.need
  | negate operand => 2 + operand.need
  | call _ arguments => 1 + needAll arguments

/-- The largest need of several expressions, zero if there is none. -/
def needAll : List Expr → Nat
  | [] => 0
  | e :: es => max e.need (needAll es)

end

/-- The derivation stands for the expression that it is read off. Induction on the expression;
parentheses and the rules in between leave the value. -/
theorem value_derivation (e : Expr) : e.derivation.value = e := by
  induction e using nested_induction with
  | number value => rfl
  | var name => rfl
  | binary op left right ihl ihr =>
    rw [derivation, Tree.value, Tree.value_operation, ihl, ihr]
  | negate operand ih => exact congrArg negate ih
  | call function arguments ih =>
    -- each argument is what its own derivation stands for
    have hall : (arguments.map derivation).map Tree.value = arguments := by
      rw [List.map_map]
      exact (List.map_congr_left ih).trans (List.map_id _)
    rw [derivation, derivations_eq_map]
    cases arguments with
    | nil => rfl
    | cons e es =>
      rw [List.map_cons]
      show call function (Tree.argumentList _ _).value = _
      rw [Tree.value_argumentList]
      exact congrArg (call function) hall

/-- The largest need of the arguments is the nesting of their list, where each argument stands in a
signed phrase of its own. -/
theorem nesting_argumentList {e : Expr} {es : List Expr}
    (h : ∀ e' ∈ e :: es, e'.derivation.nesting + 1 = e'.need) :
    (Tree.argumentList e.derivation (es.map derivation)).nesting = needAll (e :: es) := by
  induction es generalizing e with
  | nil =>
    have hfirst := h e (by simp)
    simp only [List.map_nil, Tree.argumentList, Tree.nesting, Tree.nesting_alone, needAll]
    omega
  | cons next rest ih =>
    have hfirst := h e (by simp)
    have hrest := ih fun e' he' => h e' (List.mem_cons_of_mem e he')
    simp only [List.map_cons, Tree.argumentList, Tree.nesting, Tree.nesting_alone, hrest, needAll]
    omega

/-- The nesting of a derivation is one less than the need, which counts the signed phrase around it
too. -/
theorem nesting_derivation (e : Expr) : e.derivation.nesting + 1 = e.need := by
  induction e using nested_induction with
  | number value => rfl
  | var name => rfl
  | binary op left right ihl ihr =>
    rw [derivation]
    -- the exponent stands one signed phrase further in than the operands of the other operators
    cases op
    all_goals
      simp only [Tree.nesting, Tree.operation, Tree.lone, need]
      omega
  | negate operand ih =>
    rw [derivation, Tree.nesting, Tree.nesting_negation, need]
    omega
  | call function arguments ih =>
    rw [derivation, derivations_eq_map, need]
    cases arguments with
    | nil => rfl
    | cons e es =>
      have harguments := nesting_argumentList ih
      simp only [List.map_cons, Tree.nesting, harguments]
      omega

/-- What is printed for an expression that stands by itself. -/
def tree (e : Expr) : ExprTree := e.derivation.alone

/-- By itself it stands for the expression as well. -/
theorem value_tree (e : Expr) : e.tree.value = e := e.value_derivation

theorem nesting_tree (e : Expr) : e.tree.nesting = e.need := by
  rw [tree, Tree.nesting_alone, nesting_derivation]

end Expr

/-! ## Statements and formulas -/

namespace Statement

/-- The derivation of the line that a statement is printed as. -/
def derivation : Statement → StatementTree
  | assign name value => .assign name value.tree
  | result value => .result value.tree

/-- The derivation of a statement stands for it. -/
theorem statement_derivation (s : Statement) : s.derivation.statement = s := by
  cases s with
  | assign name value => exact congrArg (assign name) value.value_tree
  | result value => exact congrArg result value.value_tree

/-- A statement nests as its expression does. -/
theorem nesting_derivation (s : Statement) : s.derivation.nesting = s.expr.need := by
  cases s with
  | assign name value => exact value.nesting_tree
  | result value => exact value.nesting_tree

/-- The derivation of statements, one in each line. -/
def derivations : List Statement → ProgramTree
  | [] => .blank 0
  | [s] => .last 0 s.derivation
  | s :: next :: rest => .next 0 s.derivation (derivations (next :: rest))

end Statement

namespace Formula

/-- The derivation of what a formula is printed as. -/
def derivation (formula : Formula) : ProgramTree := Statement.derivations formula.statements

/-- The derivation of a formula has its statements. -/
theorem statements_derivation (formula : Formula) :
    formula.derivation.statements = formula.statements := by
  obtain ⟨ss⟩ := formula
  show (Statement.derivations ss).statements = ss
  induction ss with
  | nil => rfl
  | cons s rest ih =>
    -- the last statement stands without a terminator behind it
    cases rest with
    | nil => exact congrArg (List.cons · []) s.statement_derivation
    | cons next rest =>
      rw [Statement.derivations, ProgramTree.statements, s.statement_derivation, ih]

/-- The nesting of a formula is within a limit if and only if the need of each expression is. -/
theorem nesting_derivation_le {formula : Formula} {limit : Nat} :
    formula.derivation.nesting ≤ limit ↔ ∀ e ∈ formula.exprs, e.need ≤ limit := by
  obtain ⟨ss⟩ := formula
  show (Statement.derivations ss).nesting ≤ limit ↔ ∀ e ∈ ss.map Statement.expr, e.need ≤ limit
  induction ss with
  | nil => simp [Statement.derivations, ProgramTree.nesting]
  | cons s rest ih =>
    cases rest with
    | nil => simp [Statement.derivations, ProgramTree.nesting, s.nesting_derivation]
    | cons next rest =>
      -- the nesting of a program is the largest one of its statements
      rw [Statement.derivations, ProgramTree.nesting, Nat.max_le, s.nesting_derivation, ih]
      simp only [List.map_cons, List.forall_mem_cons]

end Formula

end FormulaMachine
