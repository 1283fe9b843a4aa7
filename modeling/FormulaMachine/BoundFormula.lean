import FormulaMachine.Machine.Workspace
import FormulaMachine.Dual.Binary64

/-!
# Formulas as functions of their arguments

A bound formula is a formula with a fixed list of arguments. It is compiled when it is first needed,
and at most once; from then on it keeps a workspace, in which the arguments own the first slots, in
order. All other variables are free: they keep their values from call to call.

Derivatives come from a second workspace of dual numbers. It is made at the first request for one,
as the first workspace stands then.

* `BoundFormula.evaluate`: the value at given arguments.
* `BoundFormula.gradient`, `BoundFormula.slopes`: derivatives at given arguments.
* `BoundFormula.setVariable`, `BoundFormula.getVariable`: the free variables.
-/

namespace FormulaMachine

/-- What is counted when arguments are handed over. -/
inductive Counted where
  | arguments
  | parameters
  deriving DecidableEq, Repr

/-- Why a bound formula has no answer. -/
inductive Fault where
  | compile (fault : CompileFault)
  | run (fault : RunFault)
  /-- the wrong number of values was handed over -/
  | size (counted : Counted) (expected found : Nat)

namespace Counted

def text : Counted → String
  | arguments => "arguments"
  | parameters => "parameters"

end Counted

namespace Fault

def message : Fault → String
  | compile fault => fault.message
  | run fault => fault.message
  | size counted expected found =>
    "expected " ++ toString expected ++ " " ++ counted.text ++ ", got " ++ toString found

end Fault

/-- The first name of a list that stands in it, or in `seen`, before. -/
def firstRepeated? (seen : List String) : List String → Option String
  | [] => none
  | name :: names =>
    if name ∈ seen then some name else firstRepeated? (seen ++ [name]) names

namespace Workspace

def setFirst {α : Type} (w : Workspace α) (values : List α) : Workspace α :=
  { w with slots := values ++ w.slots.drop values.length }

/-- The workspace of constants that a workspace of doubles stands for, with the standard
functions. -/
def constants (w : Workspace Float) : Workspace (Dual Float) :=
  ⟨[], w.names, w.slots.map Dual.constant, .standard⟩

end Workspace

/-- A program with the workspaces that it is run in. -/
structure PreparedProgram where
  program : Program
  workspace : Workspace Float
  /-- the workspace for derivatives, from the first request on -/
  slopeWorkspace : Option (Workspace (Dual Float))

namespace PreparedProgram

/-- Compiles a text whose first addresses belong to the arguments. -/
def build (options : Options) (arguments : List String) (source : String) :
    Except CompileFault PreparedProgram :=
  match firstRepeated? [] arguments with
  | some name => .error (.duplicateArgument name)
  | none =>
    match Program.compile options (NameTable.empty.resolveAll arguments) source with
    | .error fault => .error fault
    | .ok program => .ok ⟨program, (Workspace.forProgram program).registerStandard, none⟩

def evaluate (p : PreparedProgram) (args : List Float) :
    Except RunFault Float × PreparedProgram :=
  let (outcome, workspace) := (p.workspace.setFirst args).evaluate p.program
  (outcome, { p with workspace })

/-- The arguments with slope one at the position `seed` and zero elsewhere. -/
def seeded (args : List Float) (seed : Nat) : List (Dual Float) :=
  args.mapIdx fun i value => if i = seed then .independent value else .constant value

/-- Runs the program once for each seed, on one workspace. -/
def slopesFrom (program : Program) (args : List Float) (w : Workspace (Dual Float)) :
    List Nat → Except RunFault (List Float) × Workspace (Dual Float)
  | [] => (.ok [], w)
  | seed :: seeds =>
    match (w.setFirst (seeded args seed)).evaluate program with
    | (.error fault, w) => (.error fault, w)
    | (.ok d, w) =>
      let (outcome, w) := slopesFrom program args w seeds
      (outcome.map (d.eps :: ·), w)

/-- The derivatives with respect to the arguments at the positions `seeds`. -/
def slopes (p : PreparedProgram) (args : List Float) (seeds : List Nat) :
    Except RunFault (List Float) × PreparedProgram :=
  let w := p.slopeWorkspace.getD p.workspace.constants
  let (outcome, w) := slopesFrom p.program args w seeds
  (outcome, { p with slopeWorkspace := some w })

def setVariable (p : PreparedProgram) (name : String) (value : Float) : PreparedProgram :=
  { p with
    workspace := (p.workspace.set name value).2
    slopeWorkspace := p.slopeWorkspace.map fun w => (w.set name (.constant value)).2 }

end PreparedProgram

/-- A formula with a fixed list of arguments, and its program once it is compiled. -/
structure BoundFormula where
  source : String
  arguments : List String
  options : Options := {}
  prepared? : Option PreparedProgram := none

namespace BoundFormula

def isCompiled (f : BoundFormula) : Bool := f.prepared?.isSome

def arity (f : BoundFormula) : Nat := f.arguments.length

/-- The compiled program: the one that is there, or else a new one. -/
def prepare (f : BoundFormula) : Except CompileFault PreparedProgram :=
  match f.prepared? with
  | some p => .ok p
  | none => PreparedProgram.build f.options f.arguments f.source

/-- Does something with the compiled program and keeps what becomes of it. A formula that does not
compile stays as it is. -/
def withPrepared {β : Type} (f : BoundFormula)
    (use : PreparedProgram → Except RunFault β × PreparedProgram) :
    Except Fault β × BoundFormula :=
  match f.prepare with
  | .error fault => (.error (.compile fault), f)
  | .ok p =>
    let (outcome, p) := use p
    (outcome.mapError .run, { f with prepared? := some p })

def compile (f : BoundFormula) : Except Fault Program × BoundFormula :=
  f.withPrepared fun p => (.ok p.program, p)

/-- Goes on if the number of arguments is right, before anything is compiled. -/
def checkArity {β : Type} (f : BoundFormula) (args : List Float)
    (next : Except Fault β × BoundFormula) : Except Fault β × BoundFormula :=
  if args.length = f.arity then next
  else (.error (.size .arguments f.arity args.length), f)

def evaluate (f : BoundFormula) (args : List Float) : Except Fault Float × BoundFormula :=
  f.checkArity args (f.withPrepared fun p => p.evaluate args)

/-- The derivatives at given arguments with respect to those at the positions `seeds`. -/
def slopes (f : BoundFormula) (args : List Float) (seeds : List Nat) :
    Except Fault (List Float) × BoundFormula :=
  f.checkArity args (f.withPrepared fun p => p.slopes args seeds)

/-- The derivatives at given arguments with respect to each of them. -/
def gradient (f : BoundFormula) (args : List Float) : Except Fault (List Float) × BoundFormula :=
  f.slopes args (List.range args.length)

/-- Gives a variable a value. A name that the formula does not use is accepted. -/
def setVariable (f : BoundFormula) (name : String) (value : Float) :
    Except Fault Unit × BoundFormula :=
  f.withPrepared fun p => (.ok (), p.setVariable name value)

def getVariable (f : BoundFormula) (name : String) : Except Fault (Option Float) × BoundFormula :=
  f.withPrepared fun p => (.ok (p.workspace.get? name), p)

end BoundFormula

end FormulaMachine
