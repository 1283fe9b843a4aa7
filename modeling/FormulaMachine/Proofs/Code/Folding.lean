import FormulaMachine.Proofs.ByName.Simulation
import FormulaMachine.Proofs.Code.Literals

/-!
# Folding does not show in a run

With folding on, emission asks at every level of an expression whether all its leaves are literals.
If they are, one `push` of the value stands for the whole, and emission does not look inside. Runs
on doubles cannot tell: what is left out neither names a variable nor can fail, and the machine
would apply the same operations to the same doubles.

* `Code.SameRuns`: code that runs alike from every machine.
* **`Formula.same_emission`**: with and without folding, emission leaves the same table and code
  that runs alike.
* **`Program.run_eq_of_folding`**: programs that differ in folding only.
-/

namespace FormulaMachine

/-! ## Code that runs alike -/

/-- Two pieces of code end alike on doubles, from any stack, variables and functions. -/
def Code.SameRuns (code code' : List Instr) : Prop :=
  ∀ (functions : FunctionTable Float) (m : Machine Float),
    m.exec functions code = m.exec functions code'

/-- A table is related to itself by equality. -/
theorem FunctionTable.related_eq (functions : FunctionTable Float) :
    functions.Related (fun a b => a = b) functions := by
  intro name
  have hbody {arguments others : List Float}
      (h : List.Forall₂ (fun a b => a = b) arguments others) : arguments = others := by
    rwa [List.forall₂_eq_eq_eq] at h
  cases functions.get? name with
  | none => exact .none
  | some g => exact .some ⟨rfl, fun h => congrArg g.body (hbody h)⟩

/-- Machines whose stacks and variables are equal value by value are equal. -/
theorem Machine.related_eq_iff {m n : Machine Float} :
    m.Related (fun a b => a = b) n ↔ m = n := by
  obtain ⟨stack, slots⟩ := m
  obtain ⟨stack', slots'⟩ := n
  have hlists {xs ys : List Float} : List.Forall₂ (fun a b => a = b) xs ys ↔ xs = ys :=
    iff_of_eq (congrFun (congrFun List.forall₂_eq_eq_eq xs) ys)
  rw [mk.injEq]
  exact ⟨fun h => ⟨hlists.1 h.stack, hlists.1 h.slots⟩,
    fun h => ⟨hlists.2 h.1, hlists.2 h.2⟩⟩

/-- Code that runs alike up to equality. -/
theorem Code.RelatedRuns.same {code code' : List Instr}
    (h : RelatedRuns (fun a b : Float => a = b) code code') : SameRuns code code' := by
  intro functions m
  obtain ⟨houtcome, hend⟩ :=
    h functions functions functions.related_eq m m (Machine.related_eq_iff.2 rfl)
  exact Prod.ext houtcome (Machine.related_eq_iff.1 hend)

/-- Code that runs alike, and the same table of names. -/
structure SameEmission (folded plain : List Instr × NameTable) : Prop where
  runs : Code.SameRuns folded.1 plain.1
  names : folded.2 = plain.2

theorem RelatedEmission.same {folded plain : List Instr × NameTable}
    (h : RelatedEmission (fun a b : Float => a = b) folded plain) : SameEmission folded plain :=
  ⟨h.runs.same, h.names⟩

/-- Unfolded code applies the operations that folding applies. -/
theorem Expr.foldsUpTo_eq (e : Expr) : e.FoldsUpTo fun a b : Float => a = b := by
  intro value value' hvalue hvalue'
  rw [literalOn?_float, hvalue] at hvalue'
  exact Option.some.inj hvalue'

/-! ## Programs -/

/-- Each part that is folded has on doubles the value that unfolded code computes, so with and
without folding the code runs alike and the names are the same. -/
theorem Formula.same_emission (options : Options) (formula : Formula) (table : NameTable) :
    SameEmission (formula.emit { options with foldConstants := true } table)
      (formula.emit { options with foldConstants := false } table) :=
  (related_emission Scalar.relates_eq (fun part _ => part.foldsUpTo_eq) table).same

/-- Programs whose code runs alike are run and evaluated alike in every workspace. -/
theorem Workspace.run_eq_of_sameRuns {program program' : Program}
    (h : Code.SameRuns program.code program'.code) (w : Workspace Float) :
    w.run program = w.run program' ∧ w.evaluate program = w.evaluate program' := by
  have hrun : w.run program = w.run program' := by
    rw [run_eq_exec, run_eq_exec, h w.functions ⟨[], w.grow.slots⟩]
  exact ⟨hrun, by rw [evaluate, evaluate, hrun]⟩

/-- With folding on or off, a source compiles to programs with the same names, or to the same fault.
In every workspace, whatever its names, values and functions are, the two programs run and are
evaluated alike: same outcome, same stack, same variables. -/
theorem Program.run_eq_of_folding (options : Options) (table : NameTable) (source : String) :
    let compiled := fun fold => compile { options with foldConstants := fold } table source
    (∃ fault, compiled true = .error fault ∧ compiled false = .error fault) ∨
      ∃ folded plain, compiled true = .ok folded ∧ compiled false = .ok plain ∧
        folded.formula = plain.formula ∧ folded.names = plain.names ∧
        ∀ w : Workspace Float, w.run folded = w.run plain ∧
          w.evaluate folded = w.evaluate plain := by
  intro compiled
  simp only [compiled, compile]
  cases Formula.parse source with
  | error fault => exact .inl ⟨_, rfl, rfl⟩
  | ok formula =>
    obtain ⟨hruns, hnames⟩ := formula.same_emission options table
    exact .inr ⟨_, _, rfl, rfl, rfl, hnames, Workspace.run_eq_of_sameRuns hruns⟩

/-- In `(1 + 2) * x` the sum is folded and the product is not. -/
example :
    let e : Expr := .binary .mul (.binary .add (.number 1) (.number 2)) (.var "x")
    (e.emit { foldConstants := true } .empty).1 = [.push (1 + 2), .load 0, .binary .mul] ∧
      (e.emit {} .empty).1 =
        [.push 1, .push 2, .binary .add, .load 0, .binary .mul] :=
  ⟨rfl, rfl⟩

end FormulaMachine
