import FormulaMachine.Proofs.Bound.Unmentioned

/-!
# Where there are derivatives

A gradient is computed on other scalars than a value, with other functions, and in a workspace that
has a history of its own. But none of this decides whether a pass fails. So a formula with arguments
has a gradient exactly where it has a value, and the two fail with the same fault.

* `BoundFormula.checkArity_alike`: two uses of one formula at the same arguments.
* **`PreparedProgram.Settled.slopes_alike_value`**: the passes for derivatives, beside the one for the
  value.
* **`BoundFormula.gradient_error_iff`**: gradients and values at any time.
-/

namespace FormulaMachine

theorem Alike.error_iff {ε α β : Type} {r : α → β → Prop} {x : Except ε α} {y : Except ε β}
    (h : Alike r x y) (fault : ε) : x = .error fault ↔ y = .error fault := by
  cases h with
  | error other => simp
  | ok _ => exact ⟨nofun, nofun⟩

/-! ## Programs -/

namespace PreparedProgram

variable {p : PreparedProgram} {program : Program} {arity : Nat} {values : String → Float}
  {options : Options} {table : NameTable} {source : String} {args : List Float} {seeds : List Nat}

/-- Passes for derivatives fail like a pass on doubles, which is what becomes of the first of them.
If none is asked for there is nothing to fail. -/
theorem slopesFrom_alike_pass (hcompile : Program.compile options table source = .ok program)
    {w : Workspace Float} (hw : w.Serves program) (hfunctions : w.functions.BindsStandard)
    (hfit : args.length ≤ program.names.size) {v : Workspace (Dual Float)} (hv : v.Serves program)
    (hstandard : v.functions = .standard) (hseeds : seeds ≠ []) :
    Alike (fun slopes _ => slopes.length = seeds.length) (slopesFrom program args v seeds).1
      (w.pass program args).1 := by
  cases hvalue : (w.pass program args).1 with
  | ok value =>
    obtain ⟨slopes, hslopes⟩ :=
      exists_slopesFrom hcompile hw hfunctions hfit hvalue hv hstandard seeds
    rw [hslopes]
    exact .ok (slopesFrom_entries hslopes).1
  | error fault =>
    -- the first pass fails as the pass on doubles does, and the others are not made
    obtain ⟨seed, rest, rfl⟩ := List.exists_cons_of_ne_nil hseeds
    have hfirst : (v.pass program (seeded args seed)).1 = .error fault :=
      ((seeded_pass_alike hcompile hw hfunctions hfit hv hstandard seed).error_iff fault).2 hvalue
    rw [slopesFrom_of_error hfirst]
    exact .error fault

/-- A program that was prepared and used finds the standard functions bound, and no others. -/
theorem Settled.bindsStandard (h : p.Settled program arity values) :
    p.workspace.functions.BindsStandard := by
  rw [h.functions]
  exact FunctionTable.bindsStandard_extend

/-- Derivatives fail like the value, whatever either workspace holds from earlier calls. -/
theorem Settled.slopes_alike_value (hcompile : Program.compile options table source = .ok program)
    (hfit : arity ≤ program.names.size) (h : p.Settled program arity values)
    (hargs : args.length = arity) (hseeds : seeds ≠ []) :
    Alike (fun slopes _ => slopes.length = seeds.length) (p.slopes args seeds).1
      (p.evaluate args).1 := by
  obtain ⟨hstart, hstandard⟩ := h.serves_slopeStart
  show Alike _ (slopesFrom p.program args p.slopeStart seeds).1
    (p.workspace.pass p.program args).1
  rw [h.program_eq]
  exact slopesFrom_alike_pass hcompile h.serves h.bindsStandard (hargs.trans_le hfit) hstart
    hstandard hseeds

end PreparedProgram

/-! ## Formulas -/

namespace BoundFormula

variable {f : BoundFormula} {args : List Float}

/-- The number of arguments and the text are checked alike for all uses. Past these checks, two uses
have answers that are alike if they have with the prepared program. -/
theorem checkArity_alike {β γ : Type} {r : β → γ → Prop}
    {use : PreparedProgram → Except RunFault β × PreparedProgram}
    {use' : PreparedProgram → Except RunFault γ × PreparedProgram}
    (huse : ∀ p, f.prepare = .ok p → args.length = f.arity → Alike r (use p).1 (use' p).1) :
    Alike r (f.checkArity args (f.withPrepared use)).1
      (f.checkArity args (f.withPrepared use')).1 := by
  -- the arity and the text are checked before either use gets to see the program
  by_cases hargs : args.length = f.arity
  · rw [checkArity, checkArity, if_pos hargs, if_pos hargs]
    cases hp : f.prepare with
    | error fault =>
      rw [withPrepared_of_error hp, withPrepared_of_error hp]
      exact .error _
    | ok p =>
      have hanswers := huse p hp hargs
      rw [withPrepared_of_prepare hp, withPrepared_of_prepare hp]
      generalize (use p).1 = left, (use' p).1 = right at hanswers ⊢
      cases hanswers with
      | error fault => exact .error _
      | ok h => exact .ok h
  · rw [checkArity_of_ne hargs, checkArity_of_ne hargs]
    exact .error _

/-- After any calls and for any arguments, as many as they may be, a formula that has arguments fails
to give a gradient exactly where it fails to give a value, and with the same fault. A gradient has an
entry for each argument. -/
theorem gradient_error_iff (source : String) {arguments : List String} (options : Options)
    (harguments : arguments ≠ []) (calls : List Call) (args : List Float) :
    let f := after { source, arguments, options } calls
    (∀ fault, (f.gradient args).1 = .error fault ↔ (f.evaluate args).1 = .error fault) ∧
      ∀ g, (f.gradient args).1 = .ok g → g.length = arguments.length := by
  intro f
  let new : BoundFormula := { source, arguments, options }
  have halike : Alike (fun g _ => g.length = arguments.length) (f.gradient args).1
      (f.evaluate args).1 := by
    refine checkArity_alike fun p hp hargs => ?_
    cases hnew : new.prepare with
    | error fault =>
      -- a formula that cannot be compiled is still the new one
      rw [show f = new from after_of_error hnew calls, hnew] at hp
      cases hp
    | ok n =>
      have hsettled : new.Settled n.program arguments.length fun _ => 0 :=
        ⟨rfl, n, hnew, PreparedProgram.settled_build hnew⟩
      have hafter := hsettled.after calls
      obtain ⟨q, hq, hprogram⟩ := hafter.prepared
      obtain rfl : p = q := Except.ok.inj (hp.symm.trans hq)
      obtain ⟨hcompile, hfit, -⟩ := PreparedProgram.compile_of_build hnew
      have hlength : args.length = arguments.length := hargs.trans hafter.arity_eq
      have hseeds : List.range args.length ≠ [] := by simpa [hlength] using harguments
      refine (hprogram.slopes_alike_value hcompile hfit hlength hseeds).mono fun g _ hg => ?_
      rw [hg, List.length_range, hlength]
  refine ⟨halike.error_iff, fun g hg => ?_⟩
  rw [hg] at halike
  generalize (f.evaluate args).1 = value at halike
  cases halike with
  | ok hlength => exact hlength

/-- A program that calls a function of two arguments with one of them. -/
def halfAngle : Program :=
  ⟨"y = a * x; atan2(y)", ⟨[.assign "y" (.binary .mul (.var "a") (.var "x")),
      .result (.call "atan2" [.var "y"])]⟩,
    [.load 1, .load 0, .binary .mul, .store 2, .load 2, .call "atan2" 1],
    .resolveAll .empty ["x", "a", "y"]⟩

/-- The program as a formula with one argument prepares it. -/
def preparedHalfAngle : PreparedProgram :=
  ⟨halfAngle, (Workspace.forProgram halfAngle).registerStandard, none⟩

set_option maxRecDepth 10000 in
/-- The first call compiles the text to the program above: arity is checked when the program runs.
-/
theorem prepare_halfAngle :
    prepare { source := "y = a * x; atan2(y)", arguments := ["x"] } = .ok preparedHalfAngle := by
  have hparse : Formula.parse halfAngle.source = .ok halfAngle.formula := by cbv
  exact prepare_of_parse hparse (by rfl)

/-- The call fails in both workspaces, after a first gradient has failed and has left a value and a
slope in `y`. So does the check of the number of arguments. -/
theorem gradient_error_iff_of_missing_argument :
    let f := after { source := "y = a * x; atan2(y)", arguments := ["x"] }
      [.setVariable "a" 2, .gradient [5]]
    ["x"] ≠ [] ∧ (f.evaluate [3]).1 = .error (.run (.arityMismatch "atan2" 2 1)) ∧
      (f.gradient [3]).1 = .error (.run (.arityMismatch "atan2" 2 1)) ∧
      (f.gradient [3, 4]).1 = .error (.size .arguments 1 2) := by
  intro f
  let p := ((preparedHalfAngle.setVariable "a" 2).slopes [5] [0]).2
  have hf : f = ⟨"y = a * x; atan2(y)", ["x"], {}, some p⟩ := by
    show ((setVariable _ "a" 2).2.gradient [5]).2 = _
    rw [setVariable, withPrepared_of_prepare prepare_halfAngle, gradient,
      slopes_of_prepare rfl rfl]
    rfl
  have hvalue : (f.evaluate [3]).1 = .error (.run (.arityMismatch "atan2" 2 1)) := by
    rw [hf]
    rfl
  have hsize : (f.evaluate [3, 4]).1 = .error (.size .arguments 1 2) := by
    rw [hf]
    rfl
  obtain ⟨hiff, -⟩ := gradient_error_iff "y = a * x; atan2(y)" {} (by decide : ["x"] ≠ [])
    [.setVariable "a" 2, .gradient [5]] [3]
  obtain ⟨hmany, -⟩ := gradient_error_iff "y = a * x; atan2(y)" {} (by decide : ["x"] ≠ [])
    [.setVariable "a" 2, .gradient [5]] [3, 4]
  exact ⟨by decide, hvalue, (hiff _).2 hvalue, (hmany _).2 hsize⟩

end BoundFormula

end FormulaMachine
