import FormulaMachine.Code.Emit
import FormulaMachine.Expr.Parser

/-!
# Programs

A program is a formula in all its forms: text, statements, code, and the names that the addresses in
the code belong to. Programs compiled one after the other on one table share addresses.

* `Program.compile`: from a text to a program.
* `Program.listing`: the code with one numbered instruction per line.
-/

namespace FormulaMachine

/-- Why a formula cannot be compiled. -/
inductive CompileFault where
  | malformed (source : String) (fault : SyntaxFault)
  /-- a name that is declared as an argument twice -/
  | duplicateArgument (name : String)

namespace CompileFault

def message : CompileFault → String
  | malformed source fault => "failed to compile `" ++ source ++ "`: " ++ fault.message
  | duplicateArgument name => "argument `" ++ name ++ "` is declared more than once"

end CompileFault

/-- A compiled formula. -/
structure Program where
  source : String
  formula : Formula
  code : List Instr
  /-- the table of names as the compilation left it -/
  names : NameTable

namespace Program

/-- The program of a text, whose names are resolved on a given table. -/
def compile (options : Options) (table : NameTable) (source : String) :
    Except CompileFault Program :=
  match Formula.parse source with
  | .error fault => .error (.malformed source fault)
  | .ok formula =>
    let (code, names) := formula.emit options table
    .ok ⟨source, formula, code, names⟩

/-! ## Listings -/

/-- `s` with characters `c` in front, to a length of `width`. -/
def padLeft (c : Char) (width : Nat) (s : String) : String :=
  String.ofList (List.replicate (width - s.length) c) ++ s

def padRight (width : Nat) (s : String) : String :=
  s ++ String.ofList (List.replicate (width - s.length) ' ')

def addressText (program : Program) (address : Nat) : String :=
  match program.names.nameAt? address with
  | some name => name ++ " (" ++ NameTable.addressText address ++ ")"
  | none => NameTable.addressText address

/-- A line of the listing: number, name of the instruction, and operand. -/
def listingLine (program : Program) (number : Nat) (instr : Instr) : String :=
  padLeft '0' 4 (toString number) ++ "  " ++
    match instr.operandText? program.addressText with
    | some operand => padRight 6 instr.mnemonic ++ operand
    | none => instr.mnemonic

/-- The code with one numbered instruction per line. -/
def listing (program : Program) : String :=
  String.join (program.code.mapIdx fun number instr => program.listingLine number instr ++ "\n")

end Program

end FormulaMachine
