/-!
# Options of compilation
-/

namespace FormulaMachine

/-- How formulas are compiled and what they are run with. -/
structure Options where
  /-- `pi` and `e` are constants as long as they have no address. -/
  builtinConstants : Bool := true
  /-- Operations on literals are carried out at compile time. -/
  foldConstants : Bool := false
  /-- How many values an operand stack is expected to hold. It limits nothing. -/
  stackCapacity : Nat := 64
  deriving DecidableEq, Repr

end FormulaMachine
