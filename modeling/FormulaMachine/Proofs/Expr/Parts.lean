import FormulaMachine.Expr.Basic
import Mathlib

/-!
# Parts of formulas

* **`Expr.nested_induction`**: induction over expressions that reaches the arguments of calls.
* `Expr.names`, `Expr.literals`: the names and the literals in an expression, as they are written
  from left to right.
* `Expr.parts`: an expression and all expressions inside it.
* `Formula.exprs`: the expressions that a formula assigns or leaves as results.
* `Formula.names`, `Formula.literals`, `Formula.parts`: those of all its statements.
-/

namespace FormulaMachine

namespace Expr

/-- Induction over expressions: for a call, the property is given for each of its arguments. -/
@[elab_as_elim]
theorem nested_induction {motive : Expr → Prop}
    (number : ∀ value, motive (.number value))
    (var : ∀ name, motive (.var name))
    (binary : ∀ op left right, motive left → motive right → motive (.binary op left right))
    (negate : ∀ operand, motive operand → motive (.negate operand))
    (call : ∀ function arguments, (∀ e ∈ arguments, motive e) →
      motive (.call function arguments)) :
    ∀ e, motive e
  | .number value => number value
  | .var name => var name
  | .binary op left right =>
    binary op left right (nested_induction number var binary negate call left)
      (nested_induction number var binary negate call right)
  | .negate operand => negate operand (nested_induction number var binary negate call operand)
  | .call function arguments =>
    call function arguments fun e _ => nested_induction number var binary negate call e

mutual

/-- The names of variables and functions. -/
def names : Expr → List String
  | number _ => []
  | var name => [name]
  | binary _ left right => left.names ++ right.names
  | negate operand => operand.names
  | call function arguments => function :: namesAll arguments

/-- The names in all of the expressions. -/
def namesAll : List Expr → List String
  | [] => []
  | e :: es => e.names ++ namesAll es

end

mutual

/-- The numbers that are written in the expression. -/
def literals : Expr → List Float
  | number value => [value]
  | var _ => []
  | binary _ left right => left.literals ++ right.literals
  | negate operand => operand.literals
  | call _ arguments => literalsAll arguments

/-- The numbers that are written in all of the expressions. -/
def literalsAll : List Expr → List Float
  | [] => []
  | e :: es => e.literals ++ literalsAll es

end

mutual

/-- The expression itself and every expression inside it. -/
def parts (e : Expr) : List Expr :=
  e :: match e with
    | number _ | var _ => []
    | binary _ left right => left.parts ++ right.parts
    | negate operand => operand.parts
    | call _ arguments => partsAll arguments

/-- The parts of all of the expressions. -/
def partsAll : List Expr → List Expr
  | [] => []
  | e :: es => e.parts ++ partsAll es

end

theorem mem_namesAll {es : List Expr} {name : String} :
    name ∈ namesAll es ↔ ∃ e ∈ es, name ∈ e.names := by
  induction es with
  | nil => simp [namesAll]
  | cons e es ih => simp [namesAll, ih]

theorem mem_literalsAll {es : List Expr} {value : Float} :
    value ∈ literalsAll es ↔ ∃ e ∈ es, value ∈ e.literals := by
  induction es with
  | nil => simp [literalsAll]
  | cons e es ih => simp [literalsAll, ih]

theorem mem_partsAll {es : List Expr} {part : Expr} :
    part ∈ partsAll es ↔ ∃ e ∈ es, part ∈ e.parts := by
  induction es with
  | nil => simp [partsAll]
  | cons e es ih => simp [partsAll, ih]

end Expr

namespace Statement

/-- The expression that is assigned or left as a result. -/
def expr : Statement → Expr
  | assign _ value | result value => value

/-- The target of an assignment, and the names in the expression. -/
def names : Statement → List String
  | assign name value => name :: value.names
  | result value => value.names

end Statement

namespace Formula

/-- The expressions that the formula assigns or leaves as results. -/
def exprs (formula : Formula) : List Expr := formula.statements.map Statement.expr

/-- The names in the formula, those it assigns included. -/
def names (formula : Formula) : List String := formula.statements.flatMap Statement.names

/-- The numbers that are written in the formula. -/
def literals (formula : Formula) : List Float := formula.exprs.flatMap Expr.literals

/-- All its expressions, and all expressions inside them. -/
def parts (formula : Formula) : List Expr := formula.exprs.flatMap Expr.parts

end Formula

end FormulaMachine
