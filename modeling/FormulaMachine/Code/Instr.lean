import FormulaMachine.Expr.Basic
import FormulaMachine.NameTable

/-!
# Instructions

The machine works on a stack of values. Every instruction takes a fixed number of values off the
stack and puts a fixed number on it, which `Instr.pops` and `Instr.pushes` give.
-/

namespace FormulaMachine

/-- One step of a program. -/
inductive Instr where
  | push (value : Float)
  /-- puts the value at an address on the stack -/
  | load (address : Nat)
  /-- takes a value off the stack and keeps it at an address -/
  | store (address : Nat)
  /-- takes arguments off the stack, the last one first, and puts the result on it; the function is
  looked up by its name when the instruction runs -/
  | call (function : String) (arity : Nat)
  /-- takes the right operand and then the left one off the stack and puts the result on it -/
  | binary (op : Operator)
  /-- changes the sign of the value on top of the stack -/
  | negate

namespace Instr

def pops : Instr → Nat
  | push _ | load _ => 0
  | store _ | negate => 1
  | call _ arity => arity
  | binary _ => 2

def pushes : Instr → Nat
  | store _ => 0
  | _ => 1

def mnemonic : Instr → String
  | push _ => "push"
  | load _ => "load"
  | store _ => "store"
  | call _ _ => "call"
  | binary op => op.mnemonic
  | negate => "neg"

/-- What the instruction works on besides the stack, with addresses written by `addressText`. -/
def operandText? (addressText : Nat → String) : Instr → Option String
  | push value => some (Decimal.plain value)
  | load address | store address => some (addressText address)
  | call function arity => some (function ++ "/" ++ toString arity)
  | binary _ | negate => none

def text (instr : Instr) : String :=
  match instr.operandText? NameTable.addressText with
  | some operand => instr.mnemonic ++ " " ++ operand
  | none => instr.mnemonic

end Instr

end FormulaMachine
