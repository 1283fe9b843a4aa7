import FormulaMachine.Proofs.Machine.Layout
import FormulaMachine.Proofs.Names.Accesses

/-!
# Many programs on one table

A session compiles formulas one after the other on the same table of names. The table only grows, at
its end and by the variables that are new. So the addresses in a program keep their meaning, and the
program runs as well with the variables of any later table.

* `NameTable.compile`, `NameTable.compileAll`: one request of a session, and several.
* **`Program.names_compile`**, **`Program.carries_code`**: the names that a program adds, and the
  addresses in its code.
* **`NameTable.compile_in_session`**: what holds for every request of every session.
-/

namespace FormulaMachine

open Access

/-- A text to be compiled, and how. -/
structure Request where
  options : Options
  source : String
  deriving DecidableEq, Repr

namespace NameTable

/-- The program of a text on the table, and the table afterwards. A text that is no formula leaves
the table as it is. -/
def compile (table : NameTable) (request : Request) : Except CompileFault Program × NameTable :=
  match Program.compile request.options table request.source with
  | .error fault => (.error fault, table)
  | .ok program => (.ok program, program.names)

/-- The table after several requests. -/
def compileAll (table : NameTable) (requests : List Request) : NameTable :=
  requests.foldl (fun table request => (table.compile request).2) table

/-- A workspace compiles on its names in this way. -/
theorem compile_eq_compile_workspace {α : Type} [Scalar α] (w : Workspace α) (request : Request) :
    (w.compile request.options request.source).1 = (w.names.compile request).1 ∧
      (w.compile request.options request.source).2.names = (w.names.compile request).2 := by
  unfold Workspace.compile compile
  cases Program.compile request.options w.names request.source <;> exact ⟨rfl, rfl⟩

end NameTable

/-! ## One program -/

namespace Program

variable {options : Options} {table : NameTable} {source : String} {program : Program}

/-- A compiled program has the code and the names that its formula is emitted with. -/
theorem eq_emit_of_compile (h : compile options table source = .ok program) :
    (program.code, program.names) = program.formula.emit options table := by
  rw [compile] at h
  cases hparse : Formula.parse source with
  | error fault =>
    rw [hparse] at h
    cases h
  | ok formula =>
    rw [hparse] at h
    cases h
    rfl

/-- The code of a program uses the addresses of its variables, in the order of evaluation, and the
table has grown by the names of these. -/
theorem allocates_of_compile (h : compile options table source = .ok program) :
    Allocates table (addressed options table.names program.formula.accesses)
      (program.code, program.names) := by
  rw [eq_emit_of_compile h]
  exact program.formula.allocates_emit options table

end Program

/-! ## Sessions -/

namespace NameTable

variable (table : NameTable)

/-- A request adds names at the end of the table, or none. -/
theorem compile_names_isPrefix (request : Request) :
    table.names <+: (table.compile request).2.names := by
  unfold compile
  cases hcompile : Program.compile request.options table request.source with
  | error fault => exact List.prefix_refl _
  | ok program => exact Program.names_isPrefix_of_compile hcompile

/-- Several requests add names at the end of the table, or none. -/
theorem compileAll_names_isPrefix (requests : List Request) :
    table.names <+: (table.compileAll requests).names := by
  induction requests generalizing table with
  | nil => exact List.prefix_refl _
  | cons request requests ih => exact (table.compile_names_isPrefix request).trans (ih _)

variable {table}

/-- A request that fails leaves the table as it is. -/
theorem compile_eq_of_error {request : Request} {fault : CompileFault}
    (h : (table.compile request).1 = .error fault) : (table.compile request).2 = table := by
  unfold compile at h ⊢
  cases hcompile : Program.compile request.options table request.source with
  | error fault' => rfl
  | ok program =>
    rw [hcompile] at h
    cases h

/-- A request that succeeds is a compilation on the table, and its names are the table afterwards.
-/
theorem compile_eq_of_ok {request : Request} {program : Program}
    (h : (table.compile request).1 = .ok program) :
    Program.compile request.options table request.source = .ok program ∧
      (table.compile request).2 = program.names := by
  unfold compile at h ⊢
  cases hcompile : Program.compile request.options table request.source with
  | error fault =>
    rw [hcompile] at h
    cases h
  | ok program' =>
    rw [hcompile] at h
    cases h
    exact ⟨rfl, rfl⟩

end NameTable

namespace Workspace

variable {α : Type} [Scalar α]

/-- Where the names of `v` are the first ones of `w` and have the same values in both, the same
values are found at the addresses of these names. -/
theorem slots_grow_of_isPrefix {w v : Workspace α} (hpre : v.names.names <+: w.names.names)
    (hvalues : ∀ name ∈ v.names.names, w.get? name = v.get? name) {name : String} {a : Nat}
    (h : v.names.address? name = some a) : w.grow.slots[a]? = v.grow.slots[a]? := by
  have hlater : w.names.address? name = some a := NameTable.address?_of_isPrefix hpre h
  have hslot := hvalues name (NameTable.mem_names_of_address? h)
  simp only [get?, h, hlater, Option.bind_some] at hslot
  rw [getElem?_slots_grow w (NameTable.address?_lt_size hlater),
    getElem?_slots_grow v (NameTable.address?_lt_size h), hslot]

/-- A program evaluates alike where it finds its own names and where it finds more names behind
them. -/
theorem evaluate_of_isPrefix {w v : Workspace α} {program : Program} {accesses : List Access}
    (hcode : Code.Carries program.names program.code accesses)
    (hnames : v.names = program.names) (hpre : v.names.names <+: w.names.names)
    (hfunctions : w.functions = v.functions)
    (hvalues : ∀ name ∈ v.names.names, w.get? name = v.get? name) :
    (w.evaluate program).1 = (v.evaluate program).1 := by
  let named (a : Nat) : Prop := ∃ name, v.names.address? name = some a
  -- every address in the code has a name of the program, and that has the same address in both
  -- tables
  have hslots : ∀ a, named a → w.grow.slots[a]? = v.grow.slots[a]? := by
    rintro a ⟨name, h⟩
    exact slots_grow_of_isPrefix hpre hvalues h
  refine evaluate_of_share hfunctions hslots fun instr hinstr a ha => ?_
  show ∃ name, v.names.address? name = some a
  rw [hnames]
  exact hcode.resolved instr hinstr a (Instr.address?_eq_some_iff.2 ha)

end Workspace

namespace NameTable

/-- Every request of every session: the table keeps its beginning, and stays as it is where the
request fails. Otherwise the new names are those of the variables that the formula assigns to or
reads, each once and in the order in which they come first; the addresses in the code are within the
table, and their names are, in order, those of the variables. In a workspace with the names of any
later table, the program has the result that it has in one with its own names, if its variables have
the same values and the functions are the same. -/
theorem compile_in_session (table : NameTable) (earlier : List Request) (request : Request)
    (later : List Request) :
    let before := table.compileAll earlier
    let answer := before.compile request
    before.names <+: answer.2.names ∧
      (∀ fault, answer.1 = .error fault → answer.2 = before) ∧
      ∀ program, answer.1 = .ok program →
        let accesses := addressed request.options before.names program.formula.accesses
        answer.2 = program.names ∧
        program.names.names = before.names ++
          ((accesses.map Access.name).filter (· ∉ before.names)).eraseDups ∧
        (∀ instr ∈ program.code, ∀ a, instr.address? = some a → a < program.names.size) ∧
        program.code.filterMap (Instr.access? program.names) = accesses ∧
        ∀ {α : Type} [Scalar α] (w v : Workspace α), w.names = answer.2.compileAll later →
          v.names = program.names → w.functions = v.functions →
          (∀ name ∈ program.names.names, w.get? name = v.get? name) →
          (w.evaluate program).1 = (v.evaluate program).1 := by
  intro before answer
  refine ⟨before.compile_names_isPrefix request, fun fault h => compile_eq_of_error h,
    fun program h => ?_⟩
  obtain ⟨hcompile, hnames⟩ := compile_eq_of_ok h
  intro accesses
  -- the accesses of the formula, in order, give the new names and the addresses in the code
  have hallocates := Program.allocates_of_compile hcompile
  have hgrown : program.names = before.resolveAll (accesses.map Access.name) := hallocates.names
  have hcode : Code.Carries program.names program.code accesses := hallocates.code
  refine ⟨hnames, ?_, ?_, hcode.inOrder, ?_⟩
  · rw [hgrown, names_resolveAll_eq]
  · intro instr hinstr a ha
    obtain ⟨name, haddress⟩ := hcode.resolved instr hinstr a ha
    exact address?_lt_size haddress
  · intro α _ w v hw hv hfunctions hvalues
    have hpre : v.names.names <+: w.names.names := by
      rw [hv, hw, ← hnames]
      exact answer.2.compileAll_names_isPrefix later
    rw [← hv] at hvalues
    exact Workspace.evaluate_of_isPrefix hcode hv hpre hfunctions hvalues

set_option maxRecDepth 10000 in
/-- A request fails, and one has made `x` a name. In the next one `pi` is a constant until it is
assigned to. Later on `e` becomes a variable, which the program does not notice. -/
theorem compile_in_session_of_constant :
    let before := NameTable.empty.compileAll [⟨{}, "y + ("⟩, ⟨{}, "x"⟩]
    let request : Request := ⟨{}, "y = x * pi; pi = e; pi"⟩
    let after := (before.compile request).2.compileAll [⟨{ builtinConstants := false }, "e + z"⟩]
    before.names = ["x"] ∧ after.names = ["x", "y", "pi", "e", "z"] ∧
      ∃ program, (before.compile request).1 = .ok program ∧
        program.names.names = ["x"] ++ ["y", "pi"] ∧
        program.code.filterMap (Instr.access? program.names) =
          [.read "x", .write "y", .write "pi", .read "pi"] ∧
        ((Workspace.ofNames after : Workspace Float).evaluate program).1 =
          ((Workspace.forProgram program).evaluate program).1 := by
  intro before request after
  let program : Program := ⟨request.source, ⟨[
      .assign "y" (.binary .mul (.var "x") (.var "pi")), .assign "pi" (.var "e"),
      .result (.var "pi")]⟩,
    [.load 0, .push Special.pi, .binary .mul, .store 1, .push Special.euler, .store 2, .load 2],
    ⟨["x", "y", "pi"], by decide⟩⟩
  have hbefore : before = ⟨["x"], by decide⟩ := by
    unfold before
    cbv
  have hparse : Formula.parse request.source = .ok program.formula := by cbv
  have hanswer : before.compile request = (.ok program, program.names) := by
    rw [hbefore, compile, Program.compile, hparse]
    rfl
  have hafter : after = ⟨["x", "y", "pi", "e", "z"], by decide⟩ := by
    unfold after
    rw [hanswer]
    cbv
  obtain ⟨-, -, hprograms⟩ := compile_in_session .empty [⟨{}, "y + ("⟩, ⟨{}, "x"⟩] request
    [⟨{ builtinConstants := false }, "e + z"⟩]
  obtain ⟨-, -, -, -, hevaluate⟩ := hprograms program (congrArg Prod.fst hanswer)
  refine ⟨by rw [hbefore], by rw [hafter], program, congrArg Prod.fst hanswer, rfl, rfl, ?_⟩
  -- the names of the program have zeros in both workspaces
  refine hevaluate (Workspace.ofNames after) (Workspace.forProgram program) rfl rfl rfl ?_
  rw [hafter]
  decide

end NameTable

end FormulaMachine
