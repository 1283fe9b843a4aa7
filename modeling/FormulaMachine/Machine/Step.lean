import FormulaMachine.Code.Instr
import FormulaMachine.Machine.FunctionTable

/-!
# Running instructions

The machine holds a stack, its top first, and slots for variables. An instruction that cannot run
leaves both as they are.

* `Instr.step`: one instruction.
* `Machine.exec`: a list of them, up to the first that fails.
* `Machine.exec_append`: running code is running its parts one after the other.
* `Machine.length_slots_exec`: no code makes or drops a variable.
-/

namespace FormulaMachine

/-- What keeps a program from running to its end. -/
inductive RunFault where
  | stackUnderflow (instr : Instr) (needed available : Nat)
  /-- a result was asked for and there is none -/
  | emptyStack
  | unknownFunction (name : String)
  | arityMismatch (name : String) (expected found : Nat)
  | unboundAddress (address : Nat)

namespace RunFault

/-- What is reported to the user. -/
def message : RunFault → String
  | stackUnderflow instr needed available =>
    "stack underflow in `" ++ instr.text ++ "`: needs " ++ toString needed ++ " values, found " ++
      toString available
  | emptyStack => "empty stack at program end"
  | unknownFunction name => "unknown function `" ++ name ++ "`"
  | arityMismatch name expected found =>
    "function `" ++ name ++ "` expects " ++ toString expected ++ " arguments, got " ++
      toString found
  | unboundAddress address =>
    "variable address " ++ NameTable.addressText address ++ " is not bound in this run context"

end RunFault

/-- The part of a run that instructions change: the stack, its top first, and the variables. -/
structure Machine (α : Type) where
  stack : List α
  slots : List α

variable {α : Type} [Scalar α]

namespace Instr

/-- Runs one instruction. What it asks for is checked before anything changes: for a call first the
name, then the number of arguments, then the stack. -/
def step (functions : FunctionTable α) (machine : Machine α) (instr : Instr) :
    Except RunFault (Machine α) :=
  match instr with
  | push value => .ok { machine with stack := Scalar.ofFloat value :: machine.stack }
  | load address =>
    match machine.slots[address]? with
    | some value => .ok { machine with stack := value :: machine.stack }
    | none => .error (.unboundAddress address)
  | store address =>
    match machine.stack with
    | [] => .error (.stackUnderflow instr 1 0)
    | value :: rest =>
      if address < machine.slots.length then .ok ⟨rest, machine.slots.set address value⟩
      else .error (.unboundAddress address)
  | call name arity =>
    match functions.get? name with
    | none => .error (.unknownFunction name)
    | some function =>
      if function.arity ≠ arity then .error (.arityMismatch name function.arity arity)
      else if machine.stack.length < arity then
        .error (.stackUnderflow instr arity machine.stack.length)
      else
        let result := function.body (machine.stack.take arity).reverse
        .ok { machine with stack := result :: machine.stack.drop arity }
  | binary op =>
    match machine.stack with
    | right :: left :: rest => .ok { machine with stack := op.apply left right :: rest }
    | stack => .error (.stackUnderflow instr 2 stack.length)
  | negate =>
    match machine.stack with
    | value :: rest => .ok { machine with stack := -value :: rest }
    | [] => .error (.stackUnderflow instr 1 0)

/-- An instruction changes values and adds no variable. -/
theorem length_slots_step {functions : FunctionTable α} {machine next : Machine α} {instr : Instr}
    (h : instr.step functions machine = .ok next) : next.slots.length = machine.slots.length := by
  cases instr <;> simp only [step] at h <;> (repeat' split at h) <;> cases h <;> simp

end Instr

namespace Machine

/-- Runs instructions in order. The machine is left as the last one left it that could run. -/
def exec (functions : FunctionTable α) (machine : Machine α) :
    List Instr → Except RunFault Unit × Machine α
  | [] => (.ok (), machine)
  | instr :: code =>
    match instr.step functions machine with
    | .error fault => (.error fault, machine)
    | .ok next => exec functions next code

/-- A run of one piece of code behind another goes on where the first one has ended, unless that
failed. -/
theorem exec_append (functions : FunctionTable α) (machine : Machine α)
    (first second : List Instr) :
    machine.exec functions (first ++ second) =
      match machine.exec functions first with
      | (.ok (), m) => m.exec functions second
      | (.error fault, m) => (.error fault, m) := by
  induction first generalizing machine with
  | nil => rfl
  | cons instr code ih =>
    simp only [List.cons_append, exec]
    cases instr.step functions machine with
    | error fault => rfl
    | ok next => exact ih next

/-- A run leaves as many variables as it has found, also if it fails. -/
theorem length_slots_exec (functions : FunctionTable α) (machine : Machine α)
    (code : List Instr) :
    (machine.exec functions code).2.slots.length = machine.slots.length := by
  induction code generalizing machine with
  | nil => rfl
  | cons instr code ih =>
    simp only [exec]
    split
    · rfl
    · next next h => rw [ih, Instr.length_slots_step h]

end Machine

end FormulaMachine
