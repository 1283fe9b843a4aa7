import FormulaMachine.Proofs.Bound.Failure
import FormulaMachine.Proofs.Bound.Lifecycle
import FormulaMachine.Proofs.Dual.Probe
import FormulaMachine.Proofs.Dual.Values

/-!
# Derivatives with respect to arguments that are not mentioned

The code of a formula has no address for a name that the formula neither reads nor assigns. So the
pass for such an argument computes with constants only, and its slope is what the rules make of the
slopes of constants. That is zero, unless one of them has multiplied a zero by an infinity or divided
it by zero; and whether this has happened a run on probes tells.

* **`Code.Carries.not_mem_readFirst`**: code does not read what the formula does not access.
* **`Workspace.pass_seeded`**: a seed in a variable that is not read makes no difference.
* **`Workspace.exists_probe`**: a pass on probes has the value of the pass on doubles, and notes what
  the slope of a pass on constants is.
* **`BoundFormula.gradient_of_unmentioned`**: derivatives with respect to such arguments.
* **`BoundFormula.gradient_of_root`**: one of them that is NaN.
-/

namespace FormulaMachine

open Binary64 (IsZero)

/-! ## Names that a formula does not access -/

/-- Every load that is not preceded by a store stands for a reading in the formula. So an address
whose name the formula never accesses is not among those whose old value the code can see. -/
theorem Code.Carries.not_mem_readFirst {names : NameTable} {code : List Instr}
    {accesses : List Access} (h : Carries names code accesses) {name : String} {a : Nat}
    (haddress : names.address? name = some a) (hname : name ∉ accesses.map Access.name) :
    a ∉ readFirst code := by
  intro ha
  obtain ⟨instr, hinstr, hsource⟩ := exists_load_of_mem_readFirst ha
  -- the load stands for a reading of this name, which the formula does not have
  have hload : instr.access? names = some (.read name) := by
    cases instr with
    | load b =>
      obtain rfl : b = a := Option.some.inj hsource
      rw [Instr.access?, NameTable.nameAt?_of_address? haddress]
      rfl
    | push | store | call | binary | negate => cases hsource
  refine hname (List.mem_map.2 ⟨.read name, ?_, rfl⟩)
  rw [← h.inOrder]
  exact List.mem_filterMap.2 ⟨instr, hinstr, hload⟩

/-- The code of a compiled program does not see the old value of a variable that its formula does
not mention. That constants have no address makes no difference: they have no load either. -/
theorem Program.not_mem_readFirst {options : Options} {table : NameTable} {source : String}
    {program : Program} (hcompile : compile options table source = .ok program) {name : String}
    {a : Nat} (haddress : program.names.address? name = some a)
    (hname : name ∉ program.formula.accesses.map Access.name) :
    a ∉ Code.readFirst program.code := by
  refine (allocates_of_compile hcompile).code.not_mem_readFirst haddress fun hmem => hname ?_
  obtain ⟨access, haccess, rfl⟩ := List.mem_map.1 hmem
  exact List.mem_map_of_mem (Access.mem_of_mem_addressed haccess)

/-! ## Passes on constants -/

/-- Constants have the values they are made from. -/
theorem Dual.vals_map (xs : List Float) :
    List.Forall₂ (fun (d : Dual Float) x => d.val = x) (xs.map Dual.constant) xs := by
  rw [List.forall₂_map_left_iff, List.forall₂_same]
  exact fun x _ => rfl

namespace FunctionTable

/-- On values alone, the standard functions for dual numbers do what a table of doubles does that
binds the standard functions. -/
theorem standard_vals {functions : FunctionTable Float} (h : functions.BindsStandard) :
    (standard : FunctionTable (Dual Float)).Related (fun d x => d.val = x) functions := by
  intro name
  rw [h name]
  exact standard_related Dual.homomorphism_val.relates name

/-- Related tables bind the same names, to functions of the same arities. -/
theorem Related.sameArities {α β : Type} {r : α → β → Prop} {functions : FunctionTable α}
    {others : FunctionTable β} (h : functions.Related r others) : functions.SameArities others := by
  intro name
  have hname := h name
  generalize functions.get? name = function, others.get? name = other at hname ⊢
  cases hname with
  | none => rfl
  | some hrelated => exact congrArg some hrelated.arity

end FunctionTable

namespace Workspace

open PreparedProgram (seeded)

/-- The workspace of probes that a workspace of doubles stands for. -/
def probes (w : Workspace Float) : Workspace Probe :=
  ⟨[], w.names, w.slots.map Probe.constant, .standard⟩

variable {w : Workspace Float}

theorem foretells_constants (w : Workspace Float) :
    w.probes.Related Probe.Foretells w.constants :=
  ⟨rfl, Probe.foretells_map w.slots, FunctionTable.standard_related Probe.relates_dual⟩

/-- The workspace of constants has the values of the workspace of doubles that it is made from, if
that has the standard functions. -/
theorem vals_constants (h : w.functions.BindsStandard) :
    w.constants.Related (fun d x => d.val = x) w :=
  ⟨rfl, Dual.vals_map w.slots, FunctionTable.standard_vals h⟩

/-- A pass on probes has the value of the pass on doubles, and foretells the pass on constants. -/
theorem exists_probe (hfunctions : w.functions.BindsStandard) {program : Program}
    {args : List Float} {value : Float} (hvalue : (w.pass program args).1 = .ok value) :
    ∃ (d : Probe) (e : Dual Float),
      (w.probes.pass program (args.map Probe.constant)).1 = .ok d ∧ d.val = value ∧
      (w.constants.pass program (args.map Dual.constant)).1 = .ok e ∧ d.Foretells e := by
  -- the pass on constants has the values of the pass on doubles, and the slopes that the pass on
  -- probes foretells
  have hdual := ((vals_constants hfunctions).pass rfl
    (.refl Dual.homomorphism_val.relates program.code) (Dual.vals_map args)).1
  have hprobe := ((foretells_constants w).pass (Probe.foretells_constant 0)
    (.refl Probe.relates_dual program.code) (Probe.foretells_map args)).1
  rw [hvalue] at hdual
  generalize (w.constants.pass program (args.map Dual.constant)).1 = dual at hdual hprobe ⊢
  generalize (w.probes.pass program (args.map Probe.constant)).1 = probe at hprobe ⊢
  cases hdual with
  | @ok e _ hval =>
    cases hprobe with
    | @ok d _ hforetells =>
      refine ⟨d, e, rfl, ?_, rfl, hforetells⟩
      obtain ⟨x, -⟩ := hforetells
      exact hval

/-- A seed in a variable that is not read makes no difference. -/
theorem pass_seeded {v : Workspace (Dual Float)} {program : Program} {args : List Float} {i : Nat}
    (hread : i ∉ Code.readFirst program.code) :
    (v.pass program (seeded args i)).1 = (v.pass program (args.map Dual.constant)).1 := by
  have hlength : (seeded args i).length = (args.map Dual.constant).length := by simp [seeded]
  have hvalues (a : Nat) (ha : a ≠ i) : (seeded args i)[a]? = (args.map Dual.constant)[a]? := by
    simp [seeded, ha]
  -- the seed is the only difference, and it stands in variable `i`
  have hagree : (v.setFirst (seeded args i)).AgreeOn (· ≠ i)
      (v.setFirst (args.map Dual.constant)) := by
    refine ⟨rfl, rfl, ?_, fun a ha => ?_⟩
    · simp [setFirst, hlength]
    · show (seeded args i ++ _)[a]? = (args.map Dual.constant ++ _)[a]?
      rw [List.getElem?_append, List.getElem?_append, hlength, hvalues a ha]
  exact (evaluate_of_agreeOn hagree fun a ha heq => hread (heq ▸ ha)).1

end Workspace

/-! ## Programs -/

namespace PreparedProgram

variable {program : Program} {arity : Nat} {values : String → Float} {p : PreparedProgram}
  {options : Options} {table : NameTable} {source : String} {args : List Float} {value : Float}

/-- The pass for a derivative fails like the pass on doubles, whatever either of them finds in the
variables. -/
theorem seeded_pass_alike (hcompile : Program.compile options table source = .ok program)
    {w : Workspace Float} (hw : w.Serves program) (hfunctions : w.functions.BindsStandard)
    (hfit : args.length ≤ program.names.size) {v : Workspace (Dual Float)} (hv : v.Serves program)
    (hstandard : v.functions = .standard) (seed : Nat) :
    Alike (fun _ _ => True) (v.pass program (seeded args seed)).1 (w.pass program args).1 := by
  have harities : v.functions.SameArities w.functions := by
    rw [hstandard]
    exact (FunctionTable.standard_vals hfunctions).sameArities
  have hseeded : (seeded args seed).length ≤ program.names.size := by rwa [length_seeded]
  exact Workspace.Serves.pass_alike hcompile hv hw harities (length_seeded args seed) hseeded

/-- Where there is a value, there are derivatives. -/
theorem exists_slopesFrom (hcompile : Program.compile options table source = .ok program)
    {w : Workspace Float} (hw : w.Serves program) (hfunctions : w.functions.BindsStandard)
    (hfit : args.length ≤ program.names.size) (hvalue : (w.pass program args).1 = .ok value)
    {v : Workspace (Dual Float)} (hv : v.Serves program) (hstandard : v.functions = .standard)
    (seeds : List Nat) : ∃ slopes, (slopesFrom program args v seeds).1 = .ok slopes := by
  induction seeds generalizing v with
  | nil => exact ⟨[], rfl⟩
  | cons seed seeds ih =>
    have hseeded : (seeded args seed).length ≤ program.names.size := by rwa [length_seeded]
    -- each pass succeeds since the pass on doubles does, whatever the passes before have left
    have hpass := seeded_pass_alike hcompile hw hfunctions hfit hv hstandard seed
    rw [hvalue] at hpass
    generalize hfirst : (v.pass program (seeded args seed)).1 = first at hpass
    cases hpass with
    | @ok d =>
      obtain ⟨rest, hrest⟩ := ih (hv.pass hseeded) ((Workspace.functions_pass ..).trans hstandard)
      rw [slopesFrom_of_ok hfirst, hrest]
      exact ⟨d.eps :: rest, rfl⟩

/-- The derivative with respect to an argument that the code does not read first, where nothing was
left behind. -/
theorem Coherent.entry_of_not_read (h : p.Coherent arity) (hargs : args.length = arity)
    (hfunctions : p.workspace.functions.BindsStandard)
    (hvalue : (p.workspace.pass p.program args).1 = .ok value) {slopes : List Float}
    (hslopes : (slopesFrom p.program args p.slopeStart (List.range args.length)).1 = .ok slopes) :
    ∃ d : Probe, (p.workspace.probes.pass p.program (args.map Probe.constant)).1 = .ok d ∧
      d.val = value ∧ ∀ i < args.length, i ∉ Code.readFirst p.program.code →
        p.leaking arity = [] ∨ i = 0 ∧ p.slopeWorkspace = none →
        ∃ slope, slopes[i]? = some slope ∧ Marks d.lost slope := by
  obtain ⟨d, e, hd, hval, he, hforetells⟩ := Workspace.exists_probe hfunctions hvalue
  refine ⟨d, hd, hval, fun i hi hread hclean => ?_⟩
  obtain ⟨left, -, hleft, hentry⟩ := h.exists_entry hargs hslopes hi
  -- with nothing left behind, and the seed where it is not read, the pass is one on constants
  rw [overlay_leaking_eq hclean, Workspace.pass_seeded hread, he] at hleft
  obtain rfl : e = left := Except.ok.inj hleft
  obtain ⟨x, hmarks⟩ := hforetells
  exact ⟨_, hentry, hmarks⟩

end PreparedProgram

/-! ## Formulas -/

namespace BoundFormula

/-- A formula that has a value after some calls has derivatives, too. With respect to an argument that
it neither reads nor assigns the derivative is zero or NaN if nothing leaks, or on the first pass of
all: it is zero exactly if no slope is lost when the formula is computed from constants. -/
theorem gradient_of_unmentioned (source : String) (arguments : List String) (options : Options)
    (calls : List Call) {args : List Float} {value : Float}
    (hvalue : ((after { source, arguments, options } calls).evaluate args).1 = .ok value) :
    ∃ p, (after { source, arguments, options } calls).prepare = .ok p ∧
      ∃ (g : List Float) (d : Probe),
        ((after { source, arguments, options } calls).gradient args).1 = .ok g ∧
        (p.workspace.probes.pass p.program (args.map Probe.constant)).1 = .ok d ∧ d.val = value ∧
        ∀ (i : Nat) (name : String), arguments[i]? = some name →
          name ∉ p.program.formula.accesses.map Access.name →
          p.leaking args.length = [] ∨ i = 0 ∧ p.slopeWorkspace = none →
          ∃ slope, g[i]? = some slope ∧ (IsZero slope ↔ d.lost = false) ∧
            (slope.isNaN = true ↔ d.lost = true) := by
  let new : BoundFormula := { source, arguments, options }
  obtain ⟨hargs, p, hp, hpass⟩ := exists_of_evaluate_ok hvalue
  -- a formula that cannot be prepared has no value, so it was compiled before the calls or by them
  cases hnew : new.prepare with
  | error fault =>
    rw [show after { source, arguments, options } calls = new from after_of_error hnew calls,
      hnew] at hp
    cases hp
  | ok n =>
    have hnewSettled : new.Settled n.program arguments.length fun _ => 0 :=
      ⟨rfl, n, hnew, PreparedProgram.settled_build hnew⟩
    have hafter := hnewSettled.after calls
    obtain ⟨q, hq, hsettled⟩ := hafter.prepared
    obtain rfl : p = q := Except.ok.inj (hp.symm.trans hq)
    have harity : args.length = arguments.length := hargs.trans hafter.arity_eq
    obtain ⟨hcompile, hfit, -⟩ := PreparedProgram.compile_of_build hnew
    have hinitial := arguments_isPrefix_of_build hnew
    rw [← hsettled.program_eq] at hcompile hfit hinitial hsettled
    have hfunctions : p.workspace.functions.BindsStandard := by
      rw [hsettled.functions]
      exact FunctionTable.bindsStandard_extend
    obtain ⟨hstart, hstandard⟩ := hsettled.serves_slopeStart
    obtain ⟨g, hg⟩ := PreparedProgram.exists_slopesFrom hcompile hsettled.serves hfunctions
      (harity.trans_le hfit) hpass hstart hstandard (List.range args.length)
    have hgradient : ((after { source, arguments, options } calls).gradient args).1 = .ok g := by
      rw [gradient, slopes_of_prepare hp hargs]
      exact mapError_eq_ok.2 hg
    obtain ⟨d, hd, hval, hentries⟩ :=
      hsettled.coherent.entry_of_not_read harity hfunctions hpass hg
    refine ⟨p, hp, g, d, hgradient, hd, hval, fun i name hi hname hclean => ?_⟩
    have hlt : i < args.length := harity ▸ (List.getElem?_eq_some_iff.1 hi).1
    have haddress := NameTable.address?_argument hinitial hi
    rw [harity] at hclean
    obtain ⟨slope, hslope, hmarks⟩ :=
      hentries i hlt (Program.not_mem_readFirst hcompile haddress hname) hclean
    exact ⟨slope, hslope, hmarks.zero_iff, hmarks.nan_iff⟩

/-- A program that reads one of its two arguments. -/
def square : Program :=
  ⟨"x * x", ⟨[.result (.binary .mul (.var "x") (.var "x"))]⟩, [.load 0, .load 0, .binary .mul],
    .resolveAll .empty ["x", "y"]⟩

/-- The program as a formula with these two arguments prepares it. -/
def preparedSquare : PreparedProgram :=
  ⟨square, (Workspace.forProgram square).registerStandard, none⟩

set_option maxRecDepth 10000 in
/-- The square of three does not vary with `y`, also after a gradient at another point. -/
theorem gradient_of_unmentioned_of_square :
    let f := after { source := "x * x", arguments := ["x", "y"] } [.gradient [0, 1]]
    (f.evaluate [3, 5]).1 = .ok 9 ∧
      ∃ g slope, (f.gradient [3, 5]).1 = .ok g ∧ g[1]? = some slope ∧ IsZero slope := by
  intro f
  have hparse : Formula.parse square.source = .ok square.formula := by cbv
  have hnew : prepare { source := "x * x", arguments := ["x", "y"] } = .ok preparedSquare :=
    prepare_of_parse hparse (by rfl)
  let p := (preparedSquare.slopes [0, 1] [0, 1]).2
  have hf : f = ⟨"x * x", ["x", "y"], {}, some p⟩ :=
    congrArg Prod.snd (slopes_of_prepare hnew rfl [0, 1])
  have hprepare : f.prepare = .ok p := by
    rw [hf]
    rfl
  have hnine : (3 * 3 : Float) = 9 := by decide +kernel
  have hvalue : (f.evaluate [3, 5]).1 = .ok 9 := by
    rw [hf, ← hnine]
    rfl
  obtain ⟨q, hq, g, d, hg, hd, -, hentries⟩ :=
    gradient_of_unmentioned "x * x" ["x", "y"] {} [.gradient [0, 1]] hvalue
  obtain rfl : p = q := Except.ok.inj (hprepare.symm.trans hq)
  have hprobe : (⟨3 * 3, false⟩ : Probe) = d := Except.ok.inj hd
  obtain ⟨slope, hslope, hzero, -⟩ := hentries 1 "y" rfl (by decide) (.inl rfl)
  exact ⟨hvalue, g, slope, hg, hslope, hzero.2 (congrArg Probe.lost hprobe).symm⟩

/-! ## A slope that is lost -/

/-- A program that takes the root of one of its two arguments. -/
def root : Program :=
  ⟨"sqrt(x)", ⟨[.result (.call "sqrt" [.var "x"])]⟩, [.load 0, .call "sqrt" 1],
    .resolveAll .empty ["x", "y"]⟩

/-- The program as a formula with these two arguments prepares it. -/
def preparedRoot : PreparedProgram := ⟨root, (Workspace.forProgram root).registerStandard, none⟩

set_option maxRecDepth 10000 in
/-- The first call compiles the text to the program above. -/
theorem prepare_root :
    prepare { source := "sqrt(x)", arguments := ["x", "y"] } = .ok preparedRoot := by
  have hparse : Formula.parse root.source = .ok root.formula := by cbv
  exact prepare_of_parse hparse (by rfl)

/-- At zero the slope of `x`, which is zero in the pass for `y`, is multiplied by an infinity. -/
theorem gradient_of_root :
    let f : BoundFormula := { source := "sqrt(x)", arguments := ["x", "y"] }
    ∃ p, f.prepare = .ok p ∧ "y" ∉ p.program.formula.names ∧
      (∀ x ∈ [0, 1], Float.isFinite x = true) ∧ (f.evaluate [0, 1]).1 = .ok 0 ∧
      (f.gradient [0, 1]).1 = .ok [Binary64.infinity, Binary64.nan] ∧ ¬ IsZero Binary64.nan := by
  intro f
  refine ⟨preparedRoot, prepare_root, by decide, by decide, ?_, ?_, by decide +kernel⟩
  · rw [evaluate_of_prepare prepare_root rfl]
    rfl
  · rw [gradient, slopes_of_prepare prepare_root rfl]
    rfl

end BoundFormula

end FormulaMachine
