import FormulaMachine.Code.Program
import FormulaMachine.Proofs.Expr.Parts

/-!
# Names in emitted code

Emission threads a table of names through a formula and only ever lets it grow at its end. So an
address that was put into code early still means the same name in every later table.

* **`NameTable.address?_of_isPrefix`**, **`NameTable.address?_inj`**: growth moves no address, and
  no two names share one.
* **`Expr.emit_names_isPrefix`**, **`Statement.emitAll_names_isPrefix`**: emission only appends.
* **`Expr.emit_binary`** and its like: the code of an expression that is not folded, in terms of
  the code of its parts.
-/

namespace FormulaMachine

namespace NameTable

/-- A name keeps its address when the table grows at its end. -/
theorem address?_of_isPrefix {small large : NameTable} {name : String} {address : Nat}
    (hpre : small.names <+: large.names) (h : small.address? name = some address) :
    large.address? name = some address := by
  rw [address?_eq_some_iff] at h ⊢
  -- the entry at the address is in the smaller table, so it is the same in the larger one
  obtain ⟨hlt, hname⟩ := List.getElem?_eq_some_iff.1 h
  rw [nameAt?, List.prefix_iff_getElem?.1 hpre address hlt, hname]

/-- No two names have one address. -/
theorem address?_inj {table : NameTable} {name other : String} {address : Nat}
    (h : table.address? name = some address) (h' : table.address? other = some address) :
    name = other := by
  have hname := nameAt?_of_address? h
  rw [nameAt?_of_address? h'] at hname
  exact (Option.some.inj hname).symm

/-- Every name in the table has an address. -/
theorem exists_address? {table : NameTable} {name : String} (h : name ∈ table.names) :
    ∃ address, table.address? name = some address := by
  cases haddr : table.address? name with
  | some address => exact ⟨address, rfl⟩
  | none => exact absurd h (address?_eq_none_iff.mp haddr)

/-- What has an address is in the table. -/
theorem mem_names_of_address? {table : NameTable} {name : String} {address : Nat}
    (h : table.address? name = some address) : name ∈ table.names := by
  by_contra hnot
  rw [address?_eq_none_iff.2 hnot] at h
  cases h

/-- The names after resolving one: those from before, and that one. -/
theorem mem_names_resolve {table : NameTable} {name other : String} :
    other ∈ (table.resolve name).2.names ↔ other = name ∨ other ∈ table.names := by
  cases haddr : table.address? name with
  | none => simp [names_resolve_of_address?_eq_none haddr, or_comm]
  | some address =>
    -- a name that is there already adds nothing
    have hmem := mem_names_of_address? haddr
    rw [resolve_of_address? haddr]
    constructor
    · exact Or.inr
    · rintro (rfl | h)
      · exact hmem
      · exact h

/-- Resolving a name moves no other name and gives no other one an address. -/
theorem address?_resolve_of_ne {table : NameTable} {name other : String} (h : other ≠ name) :
    (table.resolve name).2.address? other = table.address? other := by
  cases hother : table.address? other with
  | some address => exact address?_of_isPrefix (table.resolve_names_isPrefix name) hother
  | none =>
    -- a name without an address stays without one, since only `name` is added
    rw [address?_eq_none_iff, mem_names_resolve]
    exact not_or.2 ⟨h, address?_eq_none_iff.1 hother⟩

end NameTable

namespace Expr

variable {options : Options} {table : NameTable}

/-! ## Emission, case by case -/

/-- The value that emission puts in place of the expression, if it folds it. -/
def folded? (options : Options) (e : Expr) : Option Float :=
  if options.foldConstants then e.literalValue? else none

theorem folded?_eq_none_of_not_fold {e : Expr} (h : options.foldConstants = false) :
    e.folded? options = none := by
  simp [folded?, h]

/-- A folded expression is its value, and the table stays. -/
theorem emit_of_folded? {e : Expr} {value : Float} (h : e.folded? options = some value) :
    e.emit options table = ([.push value], table) := by
  unfold emit
  rw [show (if options.foldConstants then e.literalValue? else none) = some value from h]

/-- A literal is its value, folded or not. -/
theorem emit_number (value : Float) : (number value).emit options table = ([.push value], table) := by
  unfold emit
  cases options.foldConstants <;> simp [literalValue?]

/-- A name that stands for a constant is the value of it. -/
theorem emit_var_of_constant {name : String} {value : Float}
    (h : table.constant? options name = some value) :
    (var name).emit options table = ([.push value], table) := by
  unfold emit
  simp [literalValue?, h]

/-- Any other name is a load from its address, which it gets if it has none. -/
theorem emit_var_of_variable {name : String} (h : table.constant? options name = none) :
    (var name).emit options table =
      ([.load (table.resolve name).1], (table.resolve name).2) := by
  unfold emit
  simp [literalValue?, h]

/-- The code of the left operand, that of the right one on the table which the left one has left,
and the operation. -/
theorem emit_binary {op : Operator} {left right : Expr}
    (h : (binary op left right).folded? options = none) :
    (binary op left right).emit options table =
      ((left.emit options table).1 ++ (right.emit options (left.emit options table).2).1 ++
        [.binary op], (right.emit options (left.emit options table).2).2) := by
  rw [emit]
  rw [show (if options.foldConstants then (binary op left right).literalValue? else none) = none
    from h]

/-- The code of the operand and the negation. -/
theorem emit_negate {operand : Expr} (h : (negate operand).folded? options = none) :
    (negate operand).emit options table =
      ((operand.emit options table).1 ++ [.negate], (operand.emit options table).2) := by
  rw [emit]
  rw [show (if options.foldConstants then (negate operand).literalValue? else none) = none from h]

/-- The code of the arguments and the call. Calls are never folded. -/
theorem emit_call (function : String) (arguments : List Expr) :
    (call function arguments).emit options table =
      ((emitAll options table arguments).1 ++ [.call function arguments.length],
        (emitAll options table arguments).2) := by
  rw [emit]
  simp [literalValue?]

theorem emitAll_nil : emitAll options table [] = ([], table) := by
  unfold emitAll
  rfl

/-- The code of the first expression, and that of the others on the table which it has left. -/
theorem emitAll_cons (e : Expr) (es : List Expr) :
    emitAll options table (e :: es) =
      ((e.emit options table).1 ++ (emitAll options (e.emit options table).2 es).1,
        (emitAll options (e.emit options table).2 es).2) := by
  rw [emitAll]

/-! ## Emission only appends names -/

/-- The names of a list of expressions, if they do so for each of its members. -/
theorem emitAll_names_isPrefix_of_forall {es : List Expr}
    (h : ∀ e ∈ es, ∀ table : NameTable, table.names <+: (e.emit options table).2.names) :
    ∀ table : NameTable, table.names <+: (emitAll options table es).2.names := by
  induction es with
  | nil =>
    intro table
    rw [emitAll_nil]
  | cons e es ih =>
    intro table
    rw [emitAll_cons]
    exact (h e (by simp) table).trans (ih (fun e' he' => h e' (by simp [he'])) _)

/-- The table after the code of an expression has the one from before as its beginning. -/
theorem emit_names_isPrefix (options : Options) (e : Expr) :
    ∀ table : NameTable, table.names <+: (e.emit options table).2.names := by
  induction e using nested_induction with
  | number value =>
    intro table
    rw [emit_number]
  | var name =>
    intro table
    cases hconst : table.constant? options name with
    | some value =>
      rw [emit_var_of_constant hconst]
    | none =>
      rw [emit_var_of_variable hconst]
      exact table.resolve_names_isPrefix name
  | binary op left right ihl ihr =>
    intro table
    cases hfold : (binary op left right).folded? options with
    | some value =>
      rw [emit_of_folded? hfold]
    | none =>
      -- the right operand meets the table that the left one has left
      rw [emit_binary hfold]
      exact (ihl table).trans (ihr _)
  | negate operand ih =>
    intro table
    cases hfold : (negate operand).folded? options with
    | some value =>
      rw [emit_of_folded? hfold]
    | none =>
      rw [emit_negate hfold]
      exact ih table
  | call function arguments ih =>
    intro table
    rw [emit_call]
    exact emitAll_names_isPrefix_of_forall ih table

theorem emitAll_names_isPrefix (options : Options) (es : List Expr) (table : NameTable) :
    table.names <+: (emitAll options table es).2.names :=
  emitAll_names_isPrefix_of_forall (fun e _ => emit_names_isPrefix options e) table

end Expr

namespace Statement

variable {options : Options} {table : NameTable}

theorem emitAll_nil : emitAll options table [] = ([], table) := rfl

theorem emitAll_result (value : Expr) (rest : List Statement) :
    emitAll options table (.result value :: rest) =
      ((value.emit options table).1 ++ (emitAll options (value.emit options table).2 rest).1,
        (emitAll options (value.emit options table).2 rest).2) := rfl

/-- The code of the value and a store: the target is resolved behind the value. -/
theorem emitAll_assign (name : String) (value : Expr) (rest : List Statement) :
    emitAll options table (.assign name value :: rest) =
      ((value.emit options table).1 ++
        [.store ((value.emit options table).2.resolve name).1] ++
        (emitAll options ((value.emit options table).2.resolve name).2 rest).1,
        (emitAll options ((value.emit options table).2.resolve name).2 rest).2) := rfl

/-- The table after the code of statements has the one from before as its beginning. -/
theorem emitAll_names_isPrefix (options : Options) (ss : List Statement) :
    ∀ table : NameTable, table.names <+: (emitAll options table ss).2.names := by
  induction ss with
  | nil =>
    intro table
    rw [emitAll_nil]
  | cons s rest ih =>
    intro table
    cases s with
    | result value =>
      rw [emitAll_result]
      exact (value.emit_names_isPrefix options table).trans (ih _)
    | assign name value =>
      rw [emitAll_assign]
      exact ((value.emit_names_isPrefix options table).trans
        (NameTable.resolve_names_isPrefix _ name)).trans (ih _)

end Statement

/-- A compiled program has the names of the table that it was compiled on. -/
theorem Program.names_isPrefix_of_compile {options : Options} {table : NameTable} {source : String}
    {program : Program} (h : Program.compile options table source = .ok program) :
    table.names <+: program.names.names := by
  rw [Program.compile] at h
  split at h
  · cases h
  -- only a text that parses is compiled, and then its statements are emitted
  · next formula _ =>
    cases h
    exact Statement.emitAll_names_isPrefix options formula.statements table

end FormulaMachine
