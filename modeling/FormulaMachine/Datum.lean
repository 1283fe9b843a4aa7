import FormulaMachine.Code.Program

/-!
# Instructions and options as self-describing data

Instructions, tables of names and options are exchanged as data that name their own fields. A number
without point and exponent is an integer, any other one a double, and the two are told apart.

* `Instr.toDatum`, `Instr.ofDatum?`: an instruction is an object with one field, its name.
* `NameTable.toDatum`.
* `Options.toDatum`, `Options.ofDatum?`: absent options have their default.
-/

namespace FormulaMachine

-- powers of natural numbers are core's, also where a monoid is in scope
attribute [local instance (2000)] instPowNat

/-- Data that describe themselves. -/
inductive Datum where
  | null
  | bool (b : Bool)
  | integer (n : Int)
  | real (x : Float)
  | text (s : String)
  | list (items : List Datum)
  | object (fields : List (String × Datum))

namespace Datum

def bool? : Datum → Option Bool
  | bool b => some b
  | _ => none

def text? : Datum → Option String
  | text s => some s
  | _ => none

/-- The natural number of at most 64 bits that the data are. -/
def word? : Datum → Option Nat
  | integer n => if 0 ≤ n ∧ n < 2 ^ (64 : Nat) then some n.toNat else none
  | _ => none

/-- The double that the data are; integers are taken too. -/
def real? : Datum → Option Float
  | real x => some x
  | integer n => some (Float.ofInt n)
  | _ => none

/-- The name of a choice: a text, or an object whose only field has that name and holds nothing. -/
def choice? : Datum → Option String
  | text s => some s
  | object [(name, null)] => some name
  | _ => none

def field? (fields : List (String × Datum)) (name : String) : Option Datum := fields.lookup name

end Datum

open Datum

/-! ## Instructions -/

namespace Operator

def toDatum : Operator → Datum
  | add => .text "Add"
  | sub => .text "Sub"
  | mul => .text "Mul"
  | div => .text "Div"
  | pow => .text "Pow"

def ofName? : String → Option Operator
  | "Add" => some add
  | "Sub" => some sub
  | "Mul" => some mul
  | "Div" => some div
  | "Pow" => some pow
  | _ => none

end Operator

namespace Instr

def toDatum : Instr → Datum
  | push value => .object [("Push", .real value)]
  | load address => .object [("Load", .integer address)]
  | store address => .object [("Store", .integer address)]
  | call function arity =>
    .object [("Call", .object [("name", .text function), ("arity", .integer arity)])]
  | binary op => .object [("Binary", op.toDatum)]
  | negate => .object [("Unary", .text "Neg")]

/-- A call from its fields in any order, or from a list of name and arity. -/
def callOfDatum? : Datum → Option Instr
  | .object fields => do
    return call (← (← field? fields "name").text?) (← (← field? fields "arity").word?)
  | .list [name, arity] => do return call (← name.text?) (← arity.word?)
  | _ => none

def ofDatum? : Datum → Option Instr
  | .object [("Push", value)] => value.real?.map push
  | .object [("Load", address)] => address.word?.map load
  | .object [("Store", address)] => address.word?.map store
  | .object [("Call", fields)] => callOfDatum? fields
  | .object [("Binary", op)] => (op.choice?.bind Operator.ofName?).map binary
  | .object [("Unary", op)] => if op.choice? = some "Neg" then some negate else none
  | _ => none

end Instr

/-! ## Tables of names -/

namespace NameTable

/-- The names in order, and the address of each. -/
def toDatum (table : NameTable) : Datum :=
  .object [
    ("names", .list (table.names.map .text)),
    ("addresses", .object (table.names.mapIdx fun address name => (name, .integer address)))]

end NameTable

/-! ## Options -/

namespace Options

def toDatum (options : Options) : Datum :=
  .object [
    ("builtin_constants", .bool options.builtinConstants),
    ("fold_constants", .bool options.foldConstants),
    ("stack_capacity", .integer options.stackCapacity)]

/-- The value of an option that may be absent. -/
def valueOr {β : Type} (default : β) (read? : Datum → Option β) (datum? : Option Datum) :
    Option β :=
  match datum? with
  | some datum => read? datum
  | none => some default

/-- The options from three values, each of which may be absent. -/
def ofData? (builtin? fold? capacity? : Option Datum) : Option Options := do
  let defaults : Options := {}
  return {
    builtinConstants := ← valueOr defaults.builtinConstants bool? builtin?
    foldConstants := ← valueOr defaults.foldConstants bool? fold?
    stackCapacity := ← valueOr defaults.stackCapacity word? capacity? }

/-- The options that the data are: an object, of which fields of other names are ignored, or a list
of the three values, of which the last ones may be absent. -/
def ofDatum? : Datum → Option Options
  | .object fields =>
    ofData? (field? fields "builtin_constants") (field? fields "fold_constants")
      (field? fields "stack_capacity")
  | .list items =>
    if items.length ≤ 3 then ofData? items[0]? items[1]? items[2]? else none
  | _ => none

end Options

end FormulaMachine
