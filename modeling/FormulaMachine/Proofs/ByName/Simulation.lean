import FormulaMachine.Machine.Workspace
import FormulaMachine.Proofs.ByName.Evaluation
import FormulaMachine.Proofs.Names.Emission

/-!
# Code computes what evaluation by name computes

Code that is not folded simulates evaluation by name. The relation between the two sides has two
parts: the names that are variables are the names of the table (`Names`), and every name of the
final table has its value in its slot (`Holds`).

* **`Realizes`**: what one piece of code does on *any* stack. The induction over expressions goes
  through because the stack below is arbitrary.
* **`Expr.realizes_emit`**: the code of an expression realizes its value.
* **`Statement.exec_emitAll`**: the code of statements ends as evaluation does, with the results on
  the stack and `Holds` restored.
* **`Workspace.run_eq_eval`**: a run of a compiled formula in a workspace.
-/

namespace FormulaMachine

variable {α : Type} [Scalar α]

/-! ## The two parts of the relation -/

/-- The variables of an evaluation are the names of a table. -/
def Names (vars : List String) (table : NameTable) : Prop :=
  ∀ name, name ∈ vars ↔ name ∈ table.names

/-- Every name of the table has its value in its slot. -/
def Holds (table : NameTable) (slots : List α) (values : String → α) : Prop :=
  ∀ name address, table.address? name = some address → slots[address]? = some (values name)

/-- Inserting a name on one side and resolving it on the other keeps the two in step. -/
theorem Names.insert {vars : List String} {table : NameTable} (h : Names vars table)
    (name : String) : Names (vars.insert name) (table.resolve name).2 := by
  intro other
  rw [List.mem_insert_iff, NameTable.mem_names_resolve, h other]

/-- A name is a constant for the evaluation exactly if it is one for the emission. -/
theorem Names.constantBeside? {vars : List String} {table : NameTable}
    (h : Names vars table) (options : Options) (name : String) :
    constantBeside? options vars name = table.constant? options name := by
  have hmem : name ∉ vars ↔ (table.address? name).isNone = true := by
    rw [h name, Option.isNone_iff_eq_none, NameTable.address?_eq_none_iff]
  simp only [FormulaMachine.constantBeside?, NameTable.constant?, Bool.and_eq_true, hmem]

omit [Scalar α] in
/-- Storing at the address of a name is giving the name a value. -/
theorem Holds.assign {table : NameTable} {slots : List α} {env : Environment α} {name : String}
    {address : Nat} (h : Holds table slots env.values) (haddr : table.address? name = some address)
    (value : α) : Holds table (slots.set address value) (env.assign name value).values := by
  intro other address' haddr'
  have hlt : address < slots.length := (List.getElem?_eq_some_iff.mp (h name address haddr)).1
  by_cases hname : other = name
  · subst hname
    have hsame : address' = address := Option.some.inj (haddr'.symm.trans haddr)
    simp [Environment.assign, hsame, hlt]
  · have hne : address ≠ address' := by
      rintro rfl
      exact hname (NameTable.address?_inj haddr' haddr)
    simp [Environment.assign, hname, List.getElem?_set_ne hne, h other address' haddr']

/-! ## Pieces of code -/

/-- On any stack, the code puts the values of an outcome on it, the last one on top, and leaves the
slots alone; `names` are the names of that outcome's variables. If the outcome is a fault, the code
stops with it and has left the slots alone. -/
def Realizes (functions : FunctionTable α) (slots : List α) (code : List Instr)
    (names : NameTable) : Except RunFault (List α × List String) → Prop
  | .ok (values, vars) =>
    (∀ stack, Machine.exec functions ⟨stack, slots⟩ code =
      (.ok (), ⟨values.reverse ++ stack, slots⟩)) ∧ Names vars names
  | .error fault =>
    ∀ stack, ∃ left, Machine.exec functions ⟨stack, slots⟩ code = (.error fault, ⟨left, slots⟩)

namespace Realizes

variable {functions : FunctionTable α} {slots : List α} {code more : List Instr}
  {names names' : NameTable} {values : List α} {vars : List String} {fault : RunFault}

theorem nil (h : Names vars names) :
    Realizes functions slots [] names (.ok ([], vars)) :=
  ⟨fun _ => rfl, h⟩

/-- A fault in the first piece of code is one of the whole. -/
theorem append_error (h : Realizes functions slots code names (.error fault)) :
    Realizes functions slots (code ++ more) names' (.error fault) := by
  intro stack
  obtain ⟨left, hleft⟩ := h stack
  exact ⟨left, by rw [Machine.exec_append, hleft]⟩

/-- A fault in the second piece of code is one of the whole. -/
theorem append_of_error (h : Realizes functions slots code names (.ok (values, vars)))
    (h' : Realizes functions slots more names' (.error fault)) :
    Realizes functions slots (code ++ more) names' (.error fault) := by
  intro stack
  obtain ⟨left, hleft⟩ := h' (values.reverse ++ stack)
  exact ⟨left, by rw [Machine.exec_append, h.1 stack]; exact hleft⟩

/-- Two pieces of code one after the other put the values of both on the stack. -/
theorem append {values' : List α} {vars' : List String}
    (h : Realizes functions slots code names (.ok (values, vars)))
    (h' : Realizes functions slots more names' (.ok (values', vars'))) :
    Realizes functions slots (code ++ more) names' (.ok (values ++ values', vars')) := by
  refine ⟨fun stack => ?_, h'.2⟩
  rw [Machine.exec_append, h.1 stack]
  simpa using h'.1 (values.reverse ++ stack)

/-- One more instruction, which takes the values and puts others in their place. -/
theorem append_step {instr : Instr} {values' : List α}
    (h : Realizes functions slots code names (.ok (values, vars)))
    (hstep : ∀ stack, instr.step functions ⟨values.reverse ++ stack, slots⟩ =
      .ok ⟨values'.reverse ++ stack, slots⟩) :
    Realizes functions slots (code ++ [instr]) names (.ok (values', vars)) := by
  refine ⟨fun stack => ?_, h.2⟩
  -- the values lie on whatever was there before, and the instruction reads them only
  rw [Machine.exec_append, h.1 stack]
  simp only [Machine.exec, hstep]

/-- One more instruction, which cannot run on the values. -/
theorem append_fault {instr : Instr}
    (h : Realizes functions slots code names (.ok (values, vars)))
    (hstep : ∀ stack, instr.step functions ⟨values.reverse ++ stack, slots⟩ = .error fault) :
    Realizes functions slots (code ++ [instr]) names (.error fault) := by
  intro stack
  refine ⟨values.reverse ++ stack, ?_⟩
  rw [Machine.exec_append, h.1 stack]
  simp only [Machine.exec, hstep]

end Realizes

/-- A call on as many values as it has arguments gives what the function gives by name. -/
theorem Instr.step_call (functions : FunctionTable α) (slots : List α) (name : String)
    (args stack : List α) :
    (Instr.call name args.length).step functions ⟨args.reverse ++ stack, slots⟩ =
      match functions.apply name args with
      | .ok result => .ok ⟨result :: stack, slots⟩
      | .error fault => .error fault := by
  unfold FunctionTable.apply
  simp only [Instr.step]
  cases functions.get? name with
  | none => rfl
  | some function =>
    by_cases harity : function.arity = args.length
    -- the last arguments are on top, so taking them off reverses them
    · have htake : (args.reverse ++ stack).take args.length = args.reverse :=
        List.take_left' (by simp)
      have hdrop : (args.reverse ++ stack).drop args.length = stack :=
        List.drop_left' (by simp)
      have hdepth : ¬(args.reverse ++ stack).length < args.length := by simp
      simp only [harity, ne_eq, not_true_eq_false, if_false, hdepth, htake, hdrop,
        List.reverse_reverse, if_true]
    · simp [harity]

/-! ## Expressions -/

section Expressions

variable {options : Options} {functions : FunctionTable α} {slots : List α}
  {values : String → α} {final : NameTable}

/-- The outcome of one expression, as that of a list of one. -/
def single (outcome : Except RunFault (α × List String)) : Except RunFault (List α × List String) :=
  match outcome with
  | .ok (value, vars) => .ok ([value], vars)
  | .error fault => .error fault

/-- As many values as expressions. -/
theorem Expr.length_of_evalAll {es : List Expr} {vars vars' : List String}
    {args : List α} (h : evalAll options functions values vars es = .ok (args, vars')) :
    args.length = es.length := by
  -- each argument leaves one value, whatever names it makes variables
  induction es generalizing vars args with
  | nil =>
    rw [evalAll] at h
    cases h
    rfl
  | cons e es ih =>
    rw [evalAll] at h
    split at h
    · cases h
    · split at h
      · cases h
      · next hrest =>
        cases h
        simp [ih hrest]

namespace Expr

/-- In every table that the final one extends, the code of the expression realizes its value. -/
def Realized (options : Options) (functions : FunctionTable α) (slots : List α)
    (values : String → α) (final : NameTable) (e : Expr) : Prop :=
  ∀ (table : NameTable) (vars : List String), Names vars table →
    (e.emit options table).2.names <+: final.names →
    Realizes functions slots (e.emit options table).1 (e.emit options table).2
      (single (e.eval options functions values vars))

/-- The code of arguments realizes their values, if the code of each of them does its own. The table
that the first one leaves is the one that the others are emitted on. -/
theorem realizes_emitAll {es : List Expr}
    (h : ∀ e ∈ es, e.Realized options functions slots values final) :
    ∀ (table : NameTable) (vars : List String), Names vars table →
      (emitAll options table es).2.names <+: final.names →
      Realizes functions slots (emitAll options table es).1 (emitAll options table es).2
        (evalAll options functions values vars es) := by
  induction es with
  | nil =>
    intro table vars hnames _
    rw [emitAll_nil, evalAll]
    exact .nil hnames
  | cons e es ih =>
    intro table vars hnames hfinal
    rw [emitAll_cons] at hfinal ⊢
    have hhead := h e (by simp) table vars hnames
      ((emitAll_names_isPrefix options es _).trans hfinal)
    -- the rest is emitted on the table that the first expression has left
    have htail := ih (fun e' he' => h e' (by simp [he'])) (e.emit options table).2
    rw [evalAll]
    cases heval : e.eval options functions values vars with
    | error fault =>
      rw [heval] at hhead
      exact hhead.append_error
    | ok result =>
      obtain ⟨a, vars'⟩ := result
      rw [heval] at hhead
      have hrest := htail vars' hhead.2 hfinal
      cases hevals : evalAll options functions values vars' es with
      | error fault =>
        rw [hevals] at hrest
        simp only [hevals]
        exact hhead.append_of_error hrest
      | ok results =>
        rw [hevals] at hrest
        simp only [hevals]
        exact hhead.append hrest

/-- A literal is put on the stack. -/
theorem realized_number (value : Float) :
    (number value).Realized options functions slots values final := by
  intro table vars hnames _
  rw [emit_number, eval]
  exact ⟨fun _ => rfl, hnames⟩

/-- A constant is put on the stack, and a variable is loaded from the slot where its value is. -/
theorem realized_var (hholds : Holds final slots values) (name : String) :
    (var name).Realized options functions slots values final := by
  intro table vars hnames hfinal
  rw [eval, hnames.constantBeside? options name]
  cases hconst : table.constant? options name with
  | some value =>
    rw [emit_var_of_constant hconst]
    exact ⟨fun _ => rfl, hnames⟩
  | none =>
    rw [emit_var_of_variable hconst] at hfinal ⊢
    -- the address given here is the one in the final table, where the value is known
    have hslot : slots[(table.resolve name).1]? = some (values name) :=
      hholds name _ (NameTable.address?_of_isPrefix hfinal (table.address?_resolve name))
    refine ⟨fun stack => ?_, hnames.insert name⟩
    simp [Machine.exec, Instr.step, hslot]

/-- Both operands, the left one first, and the operation on the two values. -/
theorem realized_binary (hfold : options.foldConstants = false) (op : Operator) {left right : Expr}
    (ihl : left.Realized options functions slots values final)
    (ihr : right.Realized options functions slots values final) :
    (binary op left right).Realized options functions slots values final := by
  intro table vars hnames hfinal
  rw [emit_binary (folded?_eq_none_of_not_fold hfold)] at hfinal ⊢
  have hleft := ihl table vars hnames
    ((right.emit_names_isPrefix options _).trans hfinal)
  rw [eval]
  cases hevall : left.eval options functions values vars with
  | error fault =>
    rw [hevall] at hleft
    rw [List.append_assoc]
    exact hleft.append_error
  | ok result =>
    obtain ⟨a, vars'⟩ := result
    rw [hevall] at hleft
    -- the right operand meets the names that the left one has left
    have hright := ihr (left.emit options table).2 vars' hleft.2 hfinal
    cases hevalr : right.eval options functions values vars' with
    | error fault =>
      rw [hevalr] at hright
      simp only [hevalr]
      exact (hleft.append_of_error hright).append_error
    | ok result' =>
      rw [hevalr] at hright
      simp only [hevalr]
      exact (hleft.append hright).append_step fun _ => rfl

/-- The operand and its negation. -/
theorem realized_negate (hfold : options.foldConstants = false) {operand : Expr}
    (ih : operand.Realized options functions slots values final) :
    (negate operand).Realized options functions slots values final := by
  intro table vars hnames hfinal
  rw [emit_negate (folded?_eq_none_of_not_fold hfold)] at hfinal ⊢
  have hoperand := ih table vars hnames hfinal
  rw [eval]
  cases heval : operand.eval options functions values vars with
  | error fault =>
    rw [heval] at hoperand
    exact hoperand.append_error
  | ok result =>
    rw [heval] at hoperand
    exact hoperand.append_step fun _ => rfl

/-- The function is looked up when all arguments are there, so faults in them come first. -/
theorem realized_call (function : String) {arguments : List Expr}
    (ih : ∀ e ∈ arguments, e.Realized options functions slots values final) :
    (call function arguments).Realized options functions slots values final := by
  intro table vars hnames hfinal
  rw [emit_call] at hfinal ⊢
  have hargs := realizes_emitAll ih table vars hnames hfinal
  rw [eval]
  cases hevals : evalAll options functions values vars arguments with
  | error fault =>
    rw [hevals] at hargs
    exact hargs.append_error
  | ok result =>
    obtain ⟨args, vars'⟩ := result
    rw [hevals] at hargs
    -- as many values are on the stack as the call says
    have hstep := Instr.step_call functions slots function args
    rw [length_of_evalAll hevals] at hstep
    cases happly : functions.apply function args with
    | error fault =>
      simp only [happly] at hstep ⊢
      exact hargs.append_fault hstep
    | ok value =>
      simp only [happly] at hstep ⊢
      exact hargs.append_step hstep

/-- The code of an expression realizes its value, by induction on the expression. -/
theorem realizes_emit (functions : FunctionTable α) (hfold : options.foldConstants = false)
    (hholds : Holds final slots values) (e : Expr) :
    e.Realized options functions slots values final := by
  induction e using nested_induction with
  | number value => exact realized_number value
  | var name => exact realized_var hholds name
  | binary op left right ihl ihr => exact realized_binary hfold op ihl ihr
  | negate operand ih => exact realized_negate hfold ih
  | call function arguments ih => exact realized_call function ih

end Expr

end Expressions

/-! ## Statements -/

/-- A run that ends as an evaluation does: with the same fault, or with the results on the stack
that was there before; and with every variable in its slot. -/
def EndsAs (final : NameTable) (stack : List α) (ran : Except RunFault Unit × Machine α) :
    Except RunFault (List α) × Environment α → Prop
  | (.ok results, env) =>
    ran.1 = .ok () ∧ ran.2.stack = results.reverse ++ stack ∧ Holds final ran.2.slots env.values
  | (.error fault, env) => ran.1 = .error fault ∧ Holds final ran.2.slots env.values

namespace Statement

variable {options : Options} {functions : FunctionTable α} {final : NameTable}

/-- From any stack and values, the code of the statements ends as their evaluation does. -/
def Simulated (options : Options) (functions : FunctionTable α) (final : NameTable)
    (ss : List Statement) : Prop :=
  ∀ (table : NameTable) (env : Environment α) (stack slots : List α),
    Names env.vars table → Holds final slots env.values →
    (emitAll options table ss).2.names <+: final.names →
    EndsAs final stack (Machine.exec functions ⟨stack, slots⟩ (emitAll options table ss).1)
      (evalAll options functions env ss)

/-- The value of an expression stays on the stack, below the results that follow. -/
theorem simulated_result (hfold : options.foldConstants = false) (value : Expr)
    {rest : List Statement} (ih : Simulated options functions final rest) :
    Simulated options functions final (.result value :: rest) := by
  intro table env stack slots hnames hholds hfinal
  rw [emitAll_result] at hfinal ⊢
  have hvalue := Expr.realizes_emit functions hfold hholds value table env.vars hnames
    ((emitAll_names_isPrefix options rest _).trans hfinal)
  rw [evalAll, Machine.exec_append]
  cases heval : value.eval options functions env.values env.vars with
  | error fault =>
    rw [heval] at hvalue
    obtain ⟨left, hleft⟩ := hvalue stack
    rw [hleft]
    exact ⟨rfl, hholds⟩
  | ok outcome =>
    obtain ⟨a, vars⟩ := outcome
    rw [heval] at hvalue
    rw [hvalue.1 stack]
    -- the rest starts with the value on the stack, where the results that follow come on top of it
    have hrest := ih (value.emit options table).2 { env with vars } (a :: stack) slots
      hvalue.2 hholds hfinal
    show EndsAs final stack _
      ((evalAll options functions { env with vars } rest).1.map (a :: ·),
        (evalAll options functions { env with vars } rest).2)
    rcases hev : evalAll options functions { env with vars } rest with ⟨fault | results, env'⟩
    · rw [hev] at hrest
      exact hrest
    · rw [hev] at hrest
      have hstack : results.reverse ++ a :: stack = (a :: results).reverse ++ stack := by
        rw [List.reverse_cons, List.append_assoc]
        rfl
      exact ⟨hrest.1, hrest.2.1.trans hstack, hrest.2.2⟩

/-- The value goes from the stack to the slot of the name. -/
theorem simulated_assign (hfold : options.foldConstants = false) (name : String) (value : Expr)
    {rest : List Statement} (ih : Simulated options functions final rest) :
    Simulated options functions final (.assign name value :: rest) := by
  intro table env stack slots hnames hholds hfinal
  rw [emitAll_assign] at hfinal ⊢
  have hafter := emitAll_names_isPrefix options rest
    ((value.emit options table).2.resolve name).2
  have hvalue := Expr.realizes_emit functions hfold hholds value table env.vars hnames
    (((NameTable.resolve_names_isPrefix _ name).trans hafter).trans hfinal)
  rw [evalAll, List.append_assoc, Machine.exec_append]
  cases heval : value.eval options functions env.values env.vars with
  | error fault =>
    rw [heval] at hvalue
    obtain ⟨left, hleft⟩ := hvalue stack
    rw [hleft]
    exact ⟨rfl, hholds⟩
  | ok outcome =>
    obtain ⟨a, vars⟩ := outcome
    rw [heval] at hvalue
    rw [hvalue.1 stack]
    -- the target has its address in the final table already, and a slot there
    have haddr := NameTable.address?_of_isPrefix (hafter.trans hfinal)
      (NameTable.address?_resolve (value.emit options table).2 name)
    have hlt : ((value.emit options table).2.resolve name).1 < slots.length :=
      (List.getElem?_eq_some_iff.mp (hholds name _ haddr)).1
    have hassigned : Holds final (slots.set ((value.emit options table).2.resolve name).1 a)
        (Environment.assign { env with vars } name a).values :=
      Holds.assign hholds haddr a
    have hrest := ih ((value.emit options table).2.resolve name).2
      (Environment.assign { env with vars } name a) stack
      (slots.set ((value.emit options table).2.resolve name).1 a)
      (hvalue.2.insert name) hassigned hfinal
    simpa [Machine.exec, Instr.step, hlt] using hrest

/-- The code of statements ends as their evaluation does, by induction on them. -/
theorem exec_emitAll (hfold : options.foldConstants = false) (ss : List Statement) :
    Simulated options functions final ss := by
  induction ss with
  | nil => exact fun _ _ _ _ _ hholds _ => ⟨rfl, rfl, hholds⟩
  | cons s rest ih =>
    cases s with
    | result value => exact simulated_result hfold value ih
    | assign name value => exact simulated_assign hfold name value ih

end Statement

/-! ## Runs in a workspace -/

namespace Workspace

/-- The values of a workspace by name; a name that has none stands for zero. -/
def values (w : Workspace α) (name : String) : α := (w.grow.get? name).getD Scalar.zero

/-- Before a run every name of the workspace has its value in its slot. -/
theorem holds_grow (w : Workspace α) : Holds w.names w.grow.slots w.values := by
  intro name address haddr
  have hlt : address < w.grow.slots.length :=
    Nat.lt_of_lt_of_le (NameTable.address?_lt_size haddr) w.size_le_length_slots_grow
  have hget : w.grow.get? name = some w.grow.slots[address] := by
    show (w.names.address? name).bind _ = _
    rw [haddr]
    exact List.getElem?_eq_getElem hlt
  rw [values, hget]
  exact List.getElem?_eq_getElem hlt

/-- A run is the execution of the code from an empty stack, with a slot for every name. -/
theorem run_eq_exec (w : Workspace α) (program : Program) :
    w.run program =
      ((Machine.exec w.functions ⟨[], w.grow.slots⟩ program.code).1,
        w.withMachine (Machine.exec w.functions ⟨[], w.grow.slots⟩ program.code).2) :=
  rfl

/-- An evaluation fails as the run does. -/
theorem evaluate_of_run_error {w : Workspace α} {program : Program} {fault : RunFault}
    (h : (w.run program).1 = .error fault) : (w.evaluate program).1 = .error fault := by
  unfold evaluate
  rcases hrun : w.run program with ⟨outcome, after⟩
  rw [hrun] at h
  simp only at h
  rw [h]

/-- The value of a program that runs is what lies on top of the stack. -/
theorem evaluate_of_run_ok {w : Workspace α} {program : Program} (h : (w.run program).1 = .ok ()) :
    (w.evaluate program).1 =
      match (w.run program).2.stack.head? with
      | none => .error .emptyStack
      | some value => .ok value := by
  unfold evaluate
  rcases hrun : w.run program with ⟨outcome, after⟩
  rw [hrun] at h
  simp only at h
  rw [h]
  cases hstack : after.stack <;> simp [hstack]

/-- The last of the results is the value of the formula. -/
def lastResult : Except RunFault (List α) → Except RunFault α
  | .error fault => .error fault
  | .ok results =>
    match results.getLast? with
    | none => .error .emptyStack
    | some value => .ok value

/-- Running the code of a formula that was not folded, in any workspace whose names extend those
that emission left, does what evaluation by name does from the same values: it ends with the same
fault or without one, the stack holds the results, bottom first, and every name has its value. -/
theorem run_eq_eval (options : Options) (table : NameTable) (formula : Formula) (source : String)
    (w : Workspace α) (hfold : options.foldConstants = false)
    (hnames : (formula.emit options table).2.names <+: w.names.names) :
    let program : Program :=
      ⟨source, formula, (formula.emit options table).1, (formula.emit options table).2⟩
    let evaluated := formula.eval options w.functions ⟨w.values, table.names⟩
    (w.run program).1 = evaluated.1.map (fun _ => ()) ∧
      (∀ results, evaluated.1 = .ok results → (w.run program).2.stack.reverse = results) ∧
      (∀ name ∈ w.names.names, (w.run program).2.get? name = some (evaluated.2.values name)) ∧
      (w.evaluate program).1 = lastResult evaluated.1 := by
  intro program evaluated
  -- the table that the formula is compiled on is the list of variables at the start
  have hends : EndsAs w.names [] (Machine.exec w.functions ⟨[], w.grow.slots⟩ program.code)
      evaluated :=
    Statement.exec_emitAll hfold formula.statements table ⟨w.values, table.names⟩ []
      w.grow.slots (fun _ => Iff.rfl) w.holds_grow hnames
  have hrun := w.run_eq_exec program
  -- a name is read at its address, where the end of the run has its value
  have hread : ∀ values : String → α,
      Holds w.names (w.run program).2.slots values →
      ∀ name ∈ w.names.names, (w.run program).2.get? name = some (values name) := by
    intro values hholds name hname
    obtain ⟨address, haddr⟩ := NameTable.exists_address? hname
    show (w.names.address? name).bind _ = _
    rw [haddr]
    exact hholds name address haddr
  rcases hev : evaluated with ⟨fault | results, env⟩
  · rw [hev] at hends
    have hfault : (w.run program).1 = .error fault := by rw [hrun]; exact hends.1
    refine ⟨hfault, (fun _ h => nomatch h), hread env.values ?_, evaluate_of_run_error hfault⟩
    rw [hrun]
    exact hends.2
  · rw [hev] at hends
    have hok : (w.run program).1 = .ok () := by rw [hrun]; exact hends.1
    have hstack : (w.run program).2.stack = results.reverse := by
      rw [hrun]
      exact hends.2.1.trans (List.append_nil _)
    refine ⟨hok, fun results' h => ?_, hread env.values ?_, ?_⟩
    · cases h
      rw [hstack, List.reverse_reverse]
    · rw [hrun]
      exact hends.2.2
    · rw [evaluate_of_run_ok hok, hstack, List.head?_reverse]
      rfl

/-- In `e = e * x; f(e)` the first `e` is the constant and the second one the variable. The unknown
function is found only after the assignment has been made. -/
theorem run_eq_eval_of_constant_assigned :
    let formula : Formula :=
      ⟨[.assign "e" (.binary .mul (.var "e") (.var "x")), .result (.call "f" [.var "e"])]⟩
    let code := formula.emit {} .empty
    let program : Program := ⟨"e = e * x; f(e)", formula, code.1, code.2⟩
    let w : Workspace Float := ⟨[], ⟨["x", "e", "z"], by decide⟩, [2, 3], .empty⟩
    ({} : Options).foldConstants = false ∧ code.2.names <+: w.names.names ∧
      (w.run program).1 = .error (.unknownFunction "f") ∧
      (w.run program).2.get? "e" = some (Special.euler * 2) := by
  intro formula code program w
  have hextends : code.2.names <+: w.names.names := by decide
  have h := run_eq_eval {} .empty formula program.source w rfl hextends
  exact ⟨rfl, hextends, h.1.trans rfl, (h.2.2.1 "e" (by decide)).trans rfl⟩

end Workspace

end FormulaMachine
