import FormulaMachine.Decimal.Text

/-!
# Formulas

A formula is a list of statements; a statement is an expression or an assignment of one to a name.

* `Expr.text`: an expression written with parentheses around every operation, so that its reading
  does not depend on precedence.
* `Formula.text`: one statement per line.
-/

namespace FormulaMachine

/-- The operators that stand between two operands. -/
inductive Operator where
  | add
  | sub
  | mul
  | div
  | pow
  deriving DecidableEq, Repr

namespace Operator

def symbol : Operator → String
  | add => "+"
  | sub => "-"
  | mul => "*"
  | div => "/"
  | pow => "^"

def mnemonic : Operator → String
  | add => "add"
  | sub => "sub"
  | mul => "mul"
  | div => "div"
  | pow => "pow"

end Operator

inductive Expr where
  | number (value : Float)
  | var (name : String)
  | binary (op : Operator) (left right : Expr)
  | negate (operand : Expr)
  | call (function : String) (arguments : List Expr)

namespace Expr

mutual

/-- The expression with parentheses around every operation. -/
def text : Expr → String
  | number value => Decimal.plain value
  | var name => name
  | binary op left right => "(" ++ left.text ++ " " ++ op.symbol ++ " " ++ right.text ++ ")"
  | negate operand => "(-" ++ operand.text ++ ")"
  | call function arguments => function ++ "(" ++ ", ".intercalate (texts arguments) ++ ")"

def texts : List Expr → List String
  | [] => []
  | e :: es => e.text :: texts es

end

/-- The texts of several expressions are those of each. -/
theorem texts_eq_map (es : List Expr) : texts es = es.map text := by
  induction es with
  | nil => rfl
  | cons e es ih => rw [texts, ih, List.map_cons]

end Expr

/-- A statement: the value of an expression is given a name, or is left as a result. -/
inductive Statement where
  | assign (name : String) (value : Expr)
  | result (value : Expr)

namespace Statement

/-- The statement with its expression in parentheses. -/
def text : Statement → String
  | assign name value => name ++ " = " ++ value.text
  | result value => value.text

end Statement

/-- A formula: statements to be run in order. -/
structure Formula where
  statements : List Statement

namespace Formula

def text (formula : Formula) : String :=
  "\n".intercalate (formula.statements.map Statement.text)

end Formula

end FormulaMachine
