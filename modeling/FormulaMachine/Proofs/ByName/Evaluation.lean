import FormulaMachine.Code.Emit
import FormulaMachine.Machine.Step
import Mathlib

/-!
# Evaluation by name

The meaning of a formula without code, stack or addresses: statements run in order over a map from
names to values. Operands are evaluated from left to right, arguments before their function is
looked up, and the value of an assignment before its target.

`pi` and `e` are constants as long as nothing has made a variable of them. Evaluation therefore
carries the names that are variables by now; reading a name that is no constant, and assigning to
one, makes it a variable.

* `Expr.eval`, `Expr.evalAll`: the value of an expression, and of several.
* `Statement.evalAll`, `Formula.eval`: the results of a formula and the environment it leaves.
-/

namespace FormulaMachine

/-- Values by name, and the names that are variables. -/
structure Environment (α : Type) where
  values : String → α
  vars : List String

namespace Environment

variable {α : Type}

/-- The environment after giving `name` a value, which makes it a variable. -/
def assign (env : Environment α) (name : String) (value : α) : Environment α where
  values other := if other = name then value else env.values other
  vars := env.vars.insert name

end Environment

/-- The constant that a name stands for while `vars` are the variables. -/
def constantBeside? (options : Options) (vars : List String) (name : String) :
    Option Float :=
  if options.builtinConstants = true ∧ name ∉ vars then constant? name else none

variable {α : Type} [Scalar α]

/-- The result of a function by name. The name is looked up first, then the arguments are
counted. -/
def FunctionTable.apply (functions : FunctionTable α) (name : String) (args : List α) :
    Except RunFault α :=
  match functions.get? name with
  | none => .error (.unknownFunction name)
  | some function =>
    if function.arity = args.length then .ok (function.body args)
    else .error (.arityMismatch name function.arity args.length)

namespace Expr

mutual

/-- The value of an expression, and the names that are variables afterwards. -/
def eval (options : Options) (functions : FunctionTable α) (values : String → α)
    (vars : List String) : Expr → Except RunFault (α × List String)
  | number value => .ok (Scalar.ofFloat value, vars)
  | var name =>
    match constantBeside? options vars name with
    | some value => .ok (Scalar.ofFloat value, vars)
    | none => .ok (values name, vars.insert name)
  | binary op left right =>
    match left.eval options functions values vars with
    | .error fault => .error fault
    | .ok (a, vars) =>
      match right.eval options functions values vars with
      | .error fault => .error fault
      | .ok (b, vars) => .ok (op.apply a b, vars)
  | negate operand =>
    match operand.eval options functions values vars with
    | .error fault => .error fault
    | .ok (a, vars) => .ok (-a, vars)
  | call function arguments =>
    match evalAll options functions values vars arguments with
    | .error fault => .error fault
    | .ok (args, vars) =>
      match functions.apply function args with
      | .error fault => .error fault
      | .ok result => .ok (result, vars)

/-- The values of several expressions from left to right, and the variables afterwards. -/
def evalAll (options : Options) (functions : FunctionTable α) (values : String → α)
    (vars : List String) : List Expr → Except RunFault (List α × List String)
  | [] => .ok ([], vars)
  | e :: es =>
    match e.eval options functions values vars with
    | .error fault => .error fault
    | .ok (a, vars) =>
      match evalAll options functions values vars es with
      | .error fault => .error fault
      | .ok (as, vars) => .ok (a :: as, vars)

end

end Expr

namespace Statement

/-- The results of statements in order, and the environment as they leave it; after a fault, as it
was when the fault came up. -/
def evalAll (options : Options) (functions : FunctionTable α) (env : Environment α) :
    List Statement → Except RunFault (List α) × Environment α
  | [] => (.ok [], env)
  | result value :: rest =>
    match value.eval options functions env.values env.vars with
    | .error fault => (.error fault, env)
    | .ok (a, vars) =>
      let (outcome, env) := evalAll options functions { env with vars } rest
      (outcome.map (a :: ·), env)
  | assign name value :: rest =>
    match value.eval options functions env.values env.vars with
    | .error fault => (.error fault, env)
    | .ok (a, vars) =>
      evalAll options functions (Environment.assign { env with vars } name a) rest

end Statement

namespace Formula

/-- The results of a formula, first to last, and the environment that it leaves. -/
def eval (options : Options) (functions : FunctionTable α) (env : Environment α)
    (formula : Formula) : Except RunFault (List α) × Environment α :=
  Statement.evalAll options functions env formula.statements

end Formula

end FormulaMachine
