import FormulaMachine.Code.Program
import FormulaMachine.Machine.Step

/-!
# Workspaces

A workspace is all that a program needs besides itself: a stack, names with a slot each, and
functions. It stays from run to run, so a program finds what an earlier one left in the variables.

* `Workspace.set`, `Workspace.get?`: variables by name.
* `Workspace.compile`: a program on the workspace's own names.
* `Workspace.run`, `Workspace.evaluate`: running a program.
-/

namespace FormulaMachine

/-- A stack, named variables, and functions. The top of the stack comes first. -/
structure Workspace (α : Type) where
  stack : List α
  names : NameTable
  slots : List α
  functions : FunctionTable α

variable {α : Type} [Scalar α]

namespace Workspace

/-- A workspace with a zero for each name and no functions. -/
def ofNames (names : NameTable) : Workspace α :=
  ⟨[], names, List.replicate names.size Scalar.zero, .empty⟩

def empty : Workspace α := ofNames .empty

/-- A workspace with the names that a program was compiled on. -/
def forProgram (program : Program) : Workspace α := ofNames program.names

/-- The workspace with a zero for each name that has no slot yet. -/
def grow (w : Workspace α) : Workspace α :=
  { w with slots := w.slots ++ List.replicate (w.names.size - w.slots.length) Scalar.zero }

/-- After growing, every name has a slot. -/
theorem size_le_length_slots_grow (w : Workspace α) : w.names.size ≤ w.grow.slots.length := by
  simp only [grow, List.length_append, List.length_replicate]
  omega

theorem slots_isPrefix_grow (w : Workspace α) : w.slots <+: w.grow.slots :=
  List.prefix_append _ _

/-! ## Functions -/

/-- Binds a name to a function, in place of what it was bound to. -/
def register (w : Workspace α) (name : String) (function : HostFunction α) : Workspace α :=
  { w with functions := w.functions.register name function }

/-- Binds the standard functions, each in place of what its name was bound to. -/
def registerStandard (w : Workspace α) : Workspace α :=
  { w with functions := w.functions.extend .standard }

/-! ## Variables -/

/-- The address of a name, which gets a slot with a zero if it is new. -/
def resolve (w : Workspace α) (name : String) : Nat × Workspace α :=
  let (address, names) := w.names.resolve name
  (address, grow { w with names })

/-- Gives a variable a value by name. A name that is new gets an address first. -/
def set (w : Workspace α) (name : String) (value : α) : Nat × Workspace α :=
  let (address, w) := w.resolve name
  (address, { w with slots := w.slots.set address value })

/-- The value of a variable by name, if it has an address and a slot. -/
def get? (w : Workspace α) (name : String) : Option α :=
  (w.names.address? name).bind fun address => w.slots[address]?

/-- Gives a variable a value by address, and says whether there is such a variable. -/
def setAt (w : Workspace α) (address : Nat) (value : α) : Bool × Workspace α :=
  (decide (address < w.slots.length), { w with slots := w.slots.set address value })

def getAt? (w : Workspace α) (address : Nat) : Option α := w.slots[address]?

/-! ## Programs -/

/-- Compiles a text on the names of the workspace, so that the program sees its variables. -/
def compile (w : Workspace α) (options : Options) (source : String) :
    Except CompileFault Program × Workspace α :=
  match Program.compile options w.names source with
  | .error fault => (.error fault, w)
  | .ok program => (.ok program, grow { w with names := program.names })

/-- The part of the workspace that instructions change. -/
def machine (w : Workspace α) : Machine α := ⟨w.stack, w.slots⟩

def withMachine (w : Workspace α) (m : Machine α) : Workspace α :=
  { w with stack := m.stack, slots := m.slots }

/-- Runs a program from an empty stack. The stack and the variables are left as the program leaves
them, also where it fails. -/
def run (w : Workspace α) (program : Program) : Except RunFault Unit × Workspace α :=
  let start := grow { w with stack := [] }
  let (outcome, m) := start.machine.exec start.functions program.code
  (outcome, start.withMachine m)

/-- A run knows addresses only and adds no name. -/
theorem names_run (w : Workspace α) (program : Program) :
    (w.run program).2.names = w.names := rfl

theorem functions_run (w : Workspace α) (program : Program) :
    (w.run program).2.functions = w.functions := rfl

/-- The variables of a run are those that it starts with, in number. -/
theorem length_slots_run (w : Workspace α) (program : Program) :
    (w.run program).2.slots.length = w.grow.slots.length :=
  Machine.length_slots_exec _ _ _

/-- Runs a program and takes the value on top of the stack; values below it are dropped. -/
def evaluate (w : Workspace α) (program : Program) : Except RunFault α × Workspace α :=
  match w.run program with
  | (.error fault, w) => (.error fault, w)
  | (.ok (), w) =>
    match w.stack with
    | [] => (.error .emptyStack, w)
    | value :: _ => (.ok value, { w with stack := [] })

end Workspace

end FormulaMachine
