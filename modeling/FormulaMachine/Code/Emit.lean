import FormulaMachine.Code.Instr
import FormulaMachine.Options
import FormulaMachine.Scalar.Binary64

/-!
# From formulas to instructions

Code is emitted operands first. Names get their addresses in the order in which the machine meets
them: operands and arguments from left to right, the value of an assignment before its target. The
table of names goes through the whole formula, so what a name means may depend on what stands before
it: `pi` and `e` are constants only until they have an address.

* `Expr.literalValue?`: the value of an expression without names.
* `Expr.emit`, `Statement.emit`, `Formula.emit`: the code, and the table afterwards.
-/

namespace FormulaMachine

/-- The constants with a name of their own. -/
def constant? : String → Option Float
  | "pi" => some Special.pi
  | "e" => some Special.euler
  | _ => none

namespace NameTable

/-- The constant that a name stands for: none if it has an address, or if the options say so. -/
def constant? (options : Options) (table : NameTable) (name : String) : Option Float :=
  if options.builtinConstants && (table.address? name).isNone then FormulaMachine.constant? name
  else none

end NameTable

namespace Expr

/-- The value of an expression whose leaves are all literals. -/
def literalValue? : Expr → Option Float
  | number value => some value
  | binary op left right =>
    match left.literalValue?, right.literalValue? with
    | some a, some b => some (op.apply a b)
    | _, _ => none
  | negate operand => operand.literalValue?.map (-·)
  | var _ | call _ _ => none

mutual

/-- The code that leaves the value of the expression on the stack, and the table afterwards. -/
def emit (options : Options) (table : NameTable) (e : Expr) : List Instr × NameTable :=
  match if options.foldConstants then e.literalValue? else none with
  | some value => ([.push value], table)
  | none =>
    match e with
    | number value => ([.push value], table)
    | var name =>
      match table.constant? options name with
      | some value => ([.push value], table)
      | none => ([.load (table.resolve name).1], (table.resolve name).2)
    | binary op left right =>
      let (leftCode, table) := left.emit options table
      let (rightCode, table) := right.emit options table
      (leftCode ++ rightCode ++ [.binary op], table)
    | negate operand =>
      let (code, table) := operand.emit options table
      (code ++ [.negate], table)
    | call function arguments =>
      let (code, table) := emitAll options table arguments
      (code ++ [.call function arguments.length], table)

/-- The code that leaves the values of several expressions on the stack, the last one on top. -/
def emitAll (options : Options) (table : NameTable) : List Expr → List Instr × NameTable
  | [] => ([], table)
  | e :: es =>
    let (code, table) := e.emit options table
    let (rest, table) := emitAll options table es
    (code ++ rest, table)

end

end Expr

namespace Statement

/-- The code of a statement: a result stays on the stack, an assigned value leaves it. -/
def emit (options : Options) (table : NameTable) : Statement → List Instr × NameTable
  | result value => value.emit options table
  | assign name value =>
    let (code, table) := value.emit options table
    let (address, table) := table.resolve name
    (code ++ [.store address], table)

def emitAll (options : Options) (table : NameTable) : List Statement → List Instr × NameTable
  | [] => ([], table)
  | s :: ss =>
    let (code, table) := s.emit options table
    let (rest, table) := emitAll options table ss
    (code ++ rest, table)

end Statement

namespace Formula

def emit (options : Options) (table : NameTable) (formula : Formula) : List Instr × NameTable :=
  Statement.emitAll options table formula.statements

end Formula

end FormulaMachine
