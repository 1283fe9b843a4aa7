import FormulaMachine.Proofs.Bound.Independence

/-!
# Whether there is an answer

A program has a slot for each of its names, whatever other names a workspace has, and the functions
are always the same. So it depends neither on the arguments nor on the history whether an evaluation
or a derivative succeeds, nor what it fails with.

* **`Workspace.Serves.pass_alike`**: passes in workspaces that serve the program.
* **`PreparedProgram.Settled.evaluate_alike`**, **`Settled.slopes_alike`**: at any time.
* **`BoundFormula.InUseFrom`**: what evaluations and derivatives leave of a formula, whatever the
  positions are at which derivatives were asked for.
-/

namespace FormulaMachine

/-- Outcomes that are alike with equal results are equal. -/
theorem Alike.eq_iff {ε α : Type} {x y : Except ε α} : Alike (· = ·) x y ↔ x = y := by
  constructor
  · rintro (fault | rfl) <;> rfl
  · rintro rfl
    cases x with
    | error fault => exact .error fault
    | ok a => exact .ok rfl

/-! ## Passes -/

namespace Workspace

variable {α β : Type} [Scalar α] [Scalar β] {w : Workspace α} {v : Workspace β}

/-- A pass leaves the functions. -/
theorem functions_pass (w : Workspace α) (program : Program) (values : List α) :
    (w.pass program values).2.functions = w.functions :=
  functions_evaluate _ program

omit [Scalar α] in
/-- With the names of the program alone there is a value for each of them. -/
theorem Serves.complete_restrict {program : Program} (h : w.Serves program) {values : List α}
    (hfit : values.length ≤ program.names.size) :
    ((w.setFirst values).restrict program.names).Complete := by
  show ((w.setFirst values).slots.take program.names.size).length = program.names.size
  rw [List.length_take, length_slots_setFirst (hfit.trans h.size_le)]
  exact Nat.min_eq_left h.size_le

/-- Passes of a compiled program fail alike wherever its names come first. -/
theorem Serves.pass_alike {options : Options} {table : NameTable} {source : String}
    {program : Program} (hcompile : Program.compile options table source = .ok program)
    (hw : w.Serves program) (hv : v.Serves program)
    (hfunctions : w.functions.SameArities v.functions) {values : List α} {others : List β}
    (hvalues : values.length = others.length) (hfit : values.length ≤ program.names.size) :
    Alike (fun _ _ => True) (w.pass program values).1 (v.pass program others).1 := by
  -- with the names of the program alone, both workspaces have the same size
  have hleft := hw.complete_restrict hfit
  have hright := hv.complete_restrict (hvalues ▸ hfit)
  rw [pass, pass, evaluate_restrict hcompile (w := w.setFirst values) hw.names,
    evaluate_restrict hcompile (w := v.setFirst others) hv.names]
  refine @evaluate_of_shape _ _ _ _ ((w.setFirst values).restrict program.names)
    ((v.setFirst others).restrict program.names) hfunctions ?_ program
  rw [hleft.slots_grow, hright.slots_grow, hleft, hright]
  rfl

/-- A workspace that serves the program does so after a pass. -/
theorem Serves.pass {program : Program} (h : w.Serves program) {values : List α}
    (hfit : values.length ≤ program.names.size) : (w.pass program values).2.Serves program := by
  refine ⟨h.complete.pass program (hfit.trans h.size_le), ?_⟩
  rw [Workspace.pass, names_evaluate]
  exact h.names

end Workspace

/-! ## Programs with a history -/

namespace PreparedProgram

variable {p q : PreparedProgram} {program : Program} {arity : Nat}
  {values values' : String → Float} {options : Options} {table : NameTable} {source : String}
  {args others : List Float}

/-- Derivatives at the same positions fail alike. -/
theorem slopesFrom_alike (hcompile : Program.compile options table source = .ok program)
    {w v : Workspace (Dual Float)} (hw : w.Serves program) (hv : v.Serves program)
    (hfunctions : w.functions = v.functions) (hargs : args.length = others.length)
    (hfit : args.length ≤ program.names.size) (seeds : List Nat) :
    Alike (fun _ _ => True) (slopesFrom program args w seeds).1
      (slopesFrom program others v seeds).1 := by
  let inv (w v : Workspace (Dual Float)) : Prop :=
    w.Serves program ∧ v.Serves program ∧ w.functions = v.functions
  refine (slopesFrom_side_by_side inv (r := fun _ _ => True) (fun w v seed hboth => ?_)
    ⟨hw, hv, hfunctions⟩ seeds).mono fun _ _ _ => trivial
  obtain ⟨hw, hv, hfunctions⟩ := hboth
  have hseeded : (seeded args seed).length = (seeded others seed).length := by
    rw [length_seeded, length_seeded, hargs]
  have hfirst : (seeded args seed).length ≤ program.names.size :=
    (length_seeded args seed).trans_le hfit
  have harities : w.functions.SameArities v.functions := fun _ => by rw [hfunctions]
  -- each pass fails alike, and leaves workspaces that serve the program with the same functions
  refine ⟨Workspace.Serves.pass_alike hcompile hw hv harities hseeded hfirst, hw.pass hfirst,
    hv.pass (hseeded ▸ hfirst), ?_⟩
  rw [Workspace.functions_pass, Workspace.functions_pass, hfunctions]

/-- Two histories, and perhaps different arguments: both values fail alike, or there are both. -/
theorem Settled.evaluate_alike (hcompile : Program.compile options table source = .ok program)
    (hfit : arity ≤ program.names.size) (hp : p.Settled program arity values)
    (hq : q.Settled program arity values') (hargs : args.length = arity)
    (hothers : others.length = arity) :
    Alike (fun _ _ => True) (p.evaluate args).1 (q.evaluate others).1 := by
  show Alike _ (p.workspace.pass p.program args).1 (q.workspace.pass q.program others).1
  rw [hp.program_eq, hq.program_eq]
  refine Workspace.Serves.pass_alike hcompile hp.serves hq.serves (fun _ => ?_)
    (hargs.trans hothers.symm) (hargs.trans_le hfit)
  rw [hp.functions, hq.functions]

/-- The workspace that derivatives begin with serves the program, and has the standard functions. -/
theorem Settled.serves_slopeStart (h : p.Settled program arity values) :
    p.slopeStart.Serves program ∧ p.slopeStart.functions = .standard := by
  have hstart := h.coherent.slopeStart
  refine ⟨⟨hstart.complete h.coherent.complete.constants, ?_⟩, hstart.functions⟩
  rw [hstart.names]
  exact h.names

/-- Passes for derivatives fail alike, whatever the arguments are and whatever came before. -/
theorem Settled.slopes_alike (hcompile : Program.compile options table source = .ok program)
    (hfit : arity ≤ program.names.size) (hp : p.Settled program arity values)
    (hq : q.Settled program arity values') (hargs : args.length = arity)
    (hothers : others.length = arity) (seeds : List Nat) :
    Alike (fun _ _ => True) (p.slopes args seeds).1 (q.slopes others seeds).1 := by
  show Alike _ (slopesFrom p.program args p.slopeStart seeds).1
    (slopesFrom q.program others q.slopeStart seeds).1
  obtain ⟨hpstart, hpfunctions⟩ := hp.serves_slopeStart
  obtain ⟨hqstart, hqfunctions⟩ := hq.serves_slopeStart
  rw [hp.program_eq, hq.program_eq]
  exact slopesFrom_alike hcompile hpstart hqstart (hpfunctions.trans hqfunctions.symm)
    (hargs.trans hothers.symm) (hargs.trans_le hfit) seeds

/-- Where the program assigns its variables before it reads them, each derivative is the slope of a
pass on the constants, whatever was left behind. -/
theorem Settled.slopes_entries (hassigns : program.AssignsFirst arity)
    (h : p.Settled program arity values) (hargs : args.length = arity) {seeds : List Nat}
    {slopes : List Float} (hslopes : (p.slopes args seeds).1 = .ok slopes) :
    slopes.length = seeds.length ∧ ∀ k, (hk : k < seeds.length) → ∃ d,
      (p.workspace.constants.pass program (seeded args seeds[k])).1 = .ok d ∧
        slopes[k]? = some d.eps := by
  have hcoherent := h.coherent
  obtain rfl := h.program_eq
  obtain ⟨hlength, hentries⟩ := slopesFrom_entries hslopes
  refine ⟨hlength, fun k hk => ?_⟩
  obtain ⟨d, hd, hentry⟩ := hentries k hk
  -- what the passes before have left is the constants, where nothing is assigned
  have hagree := hcoherent.afterPasses hargs (seeds.take k)
  have hread : ∀ a ∈ Code.readFirst p.program.code, (seeded args seeds[k]).length ≤ a →
      p.program.Untouched arity a := by
    intro a ha hfree
    rw [length_seeded, hargs] at hfree
    exact hassigns.untouched ha hfree
  exact ⟨d, (Workspace.pass_fst_of_agreeOn hagree hread).symm.trans hd, hentry⟩

end PreparedProgram

/-! ## Formulas with a history -/

namespace BoundFormula

/-- Past the check of their number, arguments are not counted again. -/
theorem withPrepared_ne_size {β : Type} (f : BoundFormula)
    (use : PreparedProgram → Except RunFault β × PreparedProgram) (counted : Counted)
    (expected found : Nat) : (f.withPrepared use).1 ≠ .error (.size counted expected found) := by
  cases hp : f.prepare with
  | error fault =>
    rw [withPrepared_of_error hp]
    exact nofun
  | ok p =>
    rw [withPrepared_of_prepare hp]
    cases (use p).1 with
    | error fault => exact nofun
    | ok b => exact nofun

/-- What becomes of a formula `new` in evaluations and derivatives: it stays as it is if it does not
compile, and else it is settled and no variable was set. -/
structure InUseFrom (new f : BoundFormula) : Prop where
  eq_of_error : ∀ fault, new.prepare = .error fault → f = new
  settled : ∀ p, new.prepare = .ok p → f.Settled p.program new.arity fun _ => 0

namespace InUseFrom

variable {new f g : BoundFormula} {args others : List Float} {seeds : List Nat}

/-- A new formula, before any use. -/
theorem refl (h : new.prepared? = none) : new.InUseFrom new := by
  refine ⟨fun _ _ => rfl, fun p hp => ⟨rfl, p, hp, ?_⟩⟩
  rw [prepare, h] at hp
  exact PreparedProgram.settled_build hp

/-- A call keeps the formula in use if what it does with the program keeps the program settled. -/
theorem withPrepared {β : Type} (h : new.InUseFrom f)
    {use : PreparedProgram → Except RunFault β × PreparedProgram}
    (huse : ∀ (p : PreparedProgram) (program : Program) (values : String → Float),
      p.Settled program new.arity values → (use p).2.Settled program new.arity values) :
    new.InUseFrom (f.withPrepared use).2 := by
  refine ⟨fun fault hfault => ?_, fun p hp => ?_⟩
  · obtain rfl := h.eq_of_error fault hfault
    rw [withPrepared_of_error hfault]
  · exact (h.settled p hp).withPrepared fun q hq => huse q _ _ hq

/-- The number of arguments stays. -/
theorem arity_eq (h : new.InUseFrom f) : f.arity = new.arity := by
  cases hp : new.prepare with
  | error fault => rw [h.eq_of_error fault hp]
  | ok p => exact (h.settled p hp).arity_eq

/-- The check of the arguments changes nothing, so what follows it decides. -/
theorem checkArity {β : Type} (h : new.InUseFrom f) {next : Except Fault β × BoundFormula}
    (hnext : args.length = new.arity → new.InUseFrom next.2) :
    new.InUseFrom (f.checkArity args next).2 := by
  by_cases hargs : args.length = f.arity
  · rw [BoundFormula.checkArity, if_pos hargs]
    exact hnext (hargs.trans h.arity_eq)
  · rw [checkArity_of_ne hargs]
    exact h

theorem compile (h : new.InUseFrom f) : new.InUseFrom f.compile.2 :=
  h.withPrepared fun _ _ _ hp => hp

theorem evaluate (h : new.InUseFrom f) (args : List Float) : new.InUseFrom (f.evaluate args).2 :=
  h.checkArity fun hargs => h.withPrepared fun _ _ _ hp => hp.evaluate hargs

theorem slopes (h : new.InUseFrom f) (args : List Float) (seeds : List Nat) :
    new.InUseFrom (f.slopes args seeds).2 :=
  h.checkArity fun hargs => h.withPrepared fun _ _ _ hp => hp.slopes hargs seeds

section

variable (hnew : new.prepared? = none) (hf : new.InUseFrom f) (hg : new.InUseFrom g)
  (hargs : args.length = new.arity)

include hnew hf hg hargs

/-- Two formulas in use answer alike, at perhaps different arguments, if settled programs do. -/
theorem answer_alike {β : Type} {r : β → β → Prop} (hothers : others.length = new.arity)
    {use use' : PreparedProgram → Except RunFault β × PreparedProgram}
    (huse : ∀ {program : Program} {table : NameTable},
      Program.compile new.options table new.source = .ok program →
      new.arity ≤ program.names.size → new.compile.1 = .ok program →
      ∀ p q : PreparedProgram, p.Settled program new.arity (fun _ => 0) →
        q.Settled program new.arity (fun _ => 0) → Alike r (use p).1 (use' q).1) :
    Alike r (f.checkArity args (f.withPrepared use)).1
      (g.checkArity others (g.withPrepared use')).1 := by
  rw [BoundFormula.checkArity, BoundFormula.checkArity, if_pos (hargs.trans hf.arity_eq.symm),
    if_pos (hothers.trans hg.arity_eq.symm)]
  -- a text that does not compile has the same fault both times
  cases hn : new.prepare with
  | error fault =>
    obtain rfl := hf.eq_of_error fault hn
    obtain rfl := hg.eq_of_error fault hn
    rw [withPrepared_of_error hn, withPrepared_of_error hn]
    exact .error _
  | ok n =>
    -- both formulas have the program that the new one is compiled to
    have hprogram : new.compile.1 = .ok n.program := by
      rw [BoundFormula.compile, withPrepared_of_prepare hn]
      rfl
    obtain ⟨p, hp, hpsettled⟩ := (hf.settled n hn).prepared
    obtain ⟨q, hq, hqsettled⟩ := (hg.settled n hn).prepared
    rw [prepare, hnew] at hn
    obtain ⟨hcompile, hfit, -⟩ := PreparedProgram.compile_of_build hn
    have hanswers := huse hcompile hfit hprogram p q hpsettled hqsettled
    rw [withPrepared_of_prepare hp, withPrepared_of_prepare hq]
    generalize (use p).1 = left, (use' q).1 = right at hanswers ⊢
    cases hanswers with
    | error fault => exact .error _
    | ok h => exact .ok h

/-- Whether there is a value depends neither on the arguments nor on what came before. -/
theorem evaluate_alike (hothers : others.length = new.arity) :
    Alike (fun _ _ => True) (f.evaluate args).1 (g.evaluate others).1 :=
  answer_alike hnew hf hg hargs hothers fun hcompile hfit _ _ _ hp hq =>
    hp.evaluate_alike hcompile hfit hq hargs hothers

/-- Whether there are derivatives depends neither on the arguments nor on what came before. -/
theorem slopes_alike (hothers : others.length = new.arity) (seeds : List Nat) :
    Alike (fun _ _ => True) (f.slopes args seeds).1 (g.slopes others seeds).1 :=
  answer_alike hnew hf hg hargs hothers fun hcompile hfit _ _ _ hp hq =>
    hp.slopes_alike hcompile hfit hq hargs hothers seeds

variable (hassigns : ∀ program, new.compile.1 = .ok program → program.AssignsFirst new.arity)

include hassigns

/-- The value itself does not depend on what came before if the program assigns its variables
before it reads them. -/
theorem evaluate_fst : (f.evaluate args).1 = (g.evaluate args).1 :=
  Alike.eq_iff.1 <| answer_alike hnew hf hg hargs hargs fun hcompile hfit hprogram _ _ hp hq =>
    Alike.eq_iff.2 (hp.evaluate_fst hcompile (hassigns _ hprogram) hfit hq hargs)

/-- The derivatives do not depend on what came before either if the program assigns before it reads.
-/
theorem slopes_fst (seeds : List Nat) : (f.slopes args seeds).1 = (g.slopes args seeds).1 :=
  Alike.eq_iff.1 <| answer_alike hnew hf hg hargs hargs fun hcompile hfit hprogram _ _ hp hq =>
    Alike.eq_iff.2 (hp.slopes_fst hcompile (hassigns _ hprogram) hfit hq hargs seeds)

end

end InUseFrom

end BoundFormula

end FormulaMachine
