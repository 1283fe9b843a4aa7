import FormulaMachine.Proofs.Names.Session
import FormulaMachine.Proofs.Workspace.Outcome

/-!
# What a run touches

Programs share workspaces, and in a workspace each of them finds the variables of all the others. A
run changes those variables only that its formula assigns, and what it does depends on those only
that its code reads before it has stored to them.

* `Program.Assigns`: the addresses of the names that the formula assigns.
* **`Program.mem_stored_iff`**: these are the addresses that the code stores at.
* `Workspace.completed`: the instructions that a run gets through.
* **`Workspace.run_footprint`**: what a run changes, and what it sees.
-/

namespace FormulaMachine

/-! ## Assignments in the code -/

/-- The address belongs to a name that the formula assigns. -/
def Program.Assigns (program : Program) (a : Nat) : Prop :=
  ∃ name value, .assign name value ∈ program.formula.statements ∧
    program.names.address? name = some a

/-- The code stores at the addresses of the names that the formula assigns, and nowhere else. -/
theorem Program.mem_stored_iff {options : Options} {table : NameTable} {source : String}
    {program : Program} (hcompile : compile options table source = .ok program) {a : Nat} :
    a ∈ Code.stored program.code ↔ program.Assigns a := by
  have hcode := (allocates_of_compile hcompile).code
  have hwrites (name : String) : (∃ value, .assign name value ∈ program.formula.statements) ↔
      ∃ instr ∈ program.code, instr.access? program.names = some (.write name) := by
    rw [← Formula.write_mem_accesses_iff, ← List.mem_filterMap, hcode.inOrder]
    exact ⟨Access.write_mem_addressed, Access.mem_of_mem_addressed⟩
  rw [Code.stored, List.mem_filterMap]
  constructor
  · rintro ⟨instr, hinstr, htarget⟩
    obtain ⟨name, haddress⟩ :=
      hcode.resolved instr hinstr a (Instr.address?_eq_some_iff.2 (.inr htarget))
    have haccess : instr.access? program.names = some (.write name) := by
      cases instr with
      | store b =>
        obtain rfl : b = a := Option.some.inj htarget
        rw [Instr.access?, NameTable.nameAt?_of_address? haddress]
        rfl
      | push | load | call | binary | negate => cases htarget
    obtain ⟨value, hassign⟩ := (hwrites name).2 ⟨instr, hinstr, haccess⟩
    exact ⟨name, value, hassign, haddress⟩
  · rintro ⟨name, value, hassign, haddress⟩
    obtain ⟨instr, hinstr, haccess⟩ := (hwrites name).1 ⟨value, hassign⟩
    refine ⟨instr, hinstr, ?_⟩
    cases instr with
    | store b =>
      -- the address in the code belongs to a name, and this can only be the one assigned
      obtain ⟨other, hother⟩ := hcode.resolved _ hinstr b rfl
      rw [Instr.access?, NameTable.nameAt?_of_address? hother] at haccess
      obtain rfl : other = name := by simpa using haccess
      exact hother.symm.trans haddress
    | load b =>
      rw [Instr.access?] at haccess
      cases hname : program.names.nameAt? b with
      | none => simp [hname] at haccess
      | some other => simp [hname] at haccess
    | push | call | binary | negate => cases haccess

/-! ## Runs -/

namespace Workspace

variable {α : Type} [Scalar α]

/-- The instructions that a run of the program gets through. -/
def completed (w : Workspace α) (program : Program) : List Instr :=
  w.start.completed w.functions program.code

/-- A run of a compiled program leaves names and functions alone, and changes no variable but those
that the formula assigns, whether it succeeds or fails. Names without a value have one by then, and
no value that was there is lost by that.

In two workspaces with as many variables and with the same functions, and with the same values in all
variables that the code reads before it stores to them, two runs have the same outcome after the same
instructions, leave the same stack, and leave the same values in all variables that they have stored
to. -/
theorem run_footprint {options : Options} {table : NameTable} {source : String} {program : Program}
    (hcompile : Program.compile options table source = .ok program) :
    (∀ w : Workspace α,
      (w.run program).2.names = w.names ∧ (w.run program).2.functions = w.functions ∧
        w.slots <+: w.grow.slots ∧ (w.run program).2.slots.length = w.slotCount ∧
        ∀ a, ¬ program.Assigns a → (w.run program).2.slots[a]? = w.grow.slots[a]?) ∧
    ∀ w v : Workspace α, w.slotCount = v.slotCount →
      (∀ name, w.functions.get? name = v.functions.get? name) →
      (∀ a ∈ Code.readFirst program.code, w.grow.slots[a]? = v.grow.slots[a]?) →
      (w.run program).1 = (v.run program).1 ∧ (w.run program).2.stack = (v.run program).2.stack ∧
        w.completed program = v.completed program ∧
        ∀ a ∈ Code.stored (w.completed program),
          (w.run program).2.slots[a]? = (v.run program).2.slots[a]? := by
  refine ⟨fun w => ⟨w.names_run program, w.functions_run program, w.slots_isPrefix_grow, ?_,
    fun a ha => ?_⟩, fun w v hcount hfunctions hread => ?_⟩
  · rw [length_slots_run, length_slots_grow]
  · rw [← Program.mem_stored_iff hcompile] at ha
    exact Machine.slots_exec_of_not_mem_stored ha w.start
  · have hstart : w.start.Agree (· ∈ Code.readFirst program.code) v.start := by
      refine ⟨rfl, ?_, hread⟩
      show w.grow.slots.length = v.grow.slots.length
      rw [length_slots_grow, length_slots_grow, hcount]
    -- the functions are the same by name, so the second run can be made with those of the first
    -- workspace
    obtain ⟨hexec, hcompleted⟩ :=
      Machine.exec_of_get?_eq hfunctions v.start program.code
    obtain ⟨houtcome, hsame, hend⟩ :=
      Machine.exec_of_agree w.functions hstart fun a ha => ha
    rw [hexec] at houtcome hend
    exact ⟨houtcome, hend.stack, hsame.trans hcompleted, fun a ha => hend.slots a (.inr ha)⟩

/-- A program that calls a function halfway. -/
def interrupted : Program :=
  ⟨"t = a; s = t + u; f(s); r = s",
    ⟨[.assign "t" (.var "a"), .assign "s" (.binary .add (.var "t") (.var "u")),
      .result (.call "f" [.var "s"]), .assign "r" (.var "s")]⟩,
    [.load 0, .store 1, .load 1, .load 2, .binary .add, .store 3, .load 3, .call "f" 1, .load 3,
      .store 4], ⟨["a", "t", "u", "s", "r"], by decide⟩⟩

set_option maxRecDepth 10000 in
/-- The code and the names are those above. That `f` is no function does not matter until the code
runs. -/
theorem compile_interrupted :
    Program.compile {} .empty "t = a; s = t + u; f(s); r = s" = .ok interrupted := by
  have hparse : Formula.parse interrupted.source = .ok interrupted.formula := by cbv
  show Program.compile {} .empty interrupted.source = .ok interrupted
  rw [Program.compile, hparse]
  rfl

/-- Two workspaces of different make: they have in common that there are six variables and no
functions, and the values of `a` and `u`. Both runs stop at the call, before `r` is assigned. They
agree on `t` and `s`, which they have assigned, and the variable of another program stays. -/
theorem run_footprint_of_unknown_function :
    let w : Workspace Float :=
      ⟨[7], ⟨["a", "t", "u", "s", "r", "b"], by decide⟩, [1, 10, 2, 20, 30], .empty⟩
    let v : Workspace Float := ⟨[], ⟨["c"], by decide⟩, [1, 11, 2, 21, 31, 41], .empty⟩
    Program.compile {} .empty "t = a; s = t + u; f(s); r = s" = .ok interrupted ∧
      (w.run interrupted).1 = .error (.unknownFunction "f") ∧
      (v.run interrupted).1 = .error (.unknownFunction "f") ∧
      (w.run interrupted).2.slots[1]? = (v.run interrupted).2.slots[1]? ∧
      (w.run interrupted).2.slots[3]? = (v.run interrupted).2.slots[3]? ∧
      (w.run interrupted).2.slots[5]? = some 0 ∧ (v.run interrupted).2.slots[5]? = some 41 := by
  intro w v
  have hother : ¬ interrupted.Assigns 5 := by
    rw [← Program.mem_stored_iff compile_interrupted]
    decide
  obtain ⟨halone, htogether⟩ := run_footprint (α := Float) compile_interrupted
  obtain ⟨-, -, -, -, hw⟩ := halone w
  obtain ⟨-, -, -, -, hv⟩ := halone v
  have hlist : Code.readFirst interrupted.code = [0, 2] := by decide
  -- what the code reads first are `a` and `u`
  have hread : ∀ a ∈ Code.readFirst interrupted.code, w.grow.slots[a]? = v.grow.slots[a]? := by
    have ha : w.grow.slots[0]? = some 1 ∧ v.grow.slots[0]? = some 1 := ⟨rfl, rfl⟩
    have hu : w.grow.slots[2]? = some 2 ∧ v.grow.slots[2]? = some 2 := ⟨rfl, rfl⟩
    rw [hlist, List.forall_mem_cons, List.forall_mem_singleton]
    exact ⟨ha.1.trans ha.2.symm, hu.1.trans hu.2.symm⟩
  have hcount : w.slotCount = 6 ∧ v.slotCount = 6 := ⟨rfl, rfl⟩
  obtain ⟨houtcome, -, -, hslots⟩ :=
    htogether w v (hcount.1.trans hcount.2.symm) (fun _ => rfl) hread
  have hfault : (v.run interrupted).1 = .error (.unknownFunction "f") := rfl
  have hstored : Code.stored (w.completed interrupted) = [1, 3] := rfl
  rw [hstored] at hslots
  exact ⟨compile_interrupted, houtcome.trans hfault, hfault, hslots 1 (by decide),
    hslots 3 (by decide), hw 5 hother, hv 5 hother⟩

end Workspace

end FormulaMachine
