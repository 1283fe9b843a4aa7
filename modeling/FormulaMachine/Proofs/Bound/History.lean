import FormulaMachine.Proofs.Names.Emission
import FormulaMachine.Proofs.Workspace.Relation

/-!
# Calls on a bound formula

A bound formula is handed from call to call. The workspace for derivatives is made once and then
goes its own way: evaluations on doubles do not reach it, and each pass leaves in it what the program
assigned. So the two workspaces stay in step only where nothing but `setVariable` writes.

* `Call`, `BoundFormula.after`: a formula after some calls.
* `PreparedProgram.ofFormula`: what a text is compiled to, given what it is parsed as.
* `PreparedProgram.Coherent`: what the two workspaces have in common at any time.
* **`PreparedProgram.slopesFrom_entries`**, **`slopesFrom_side_by_side`**: derivatives in terms of
  single passes.
* **`BoundFormula.coherent_after`**: no call breaks it.
-/

namespace FormulaMachine

/-- What can be asked of a bound formula. -/
inductive Call where
  | compile
  | evaluate (args : List Float)
  | gradient (args : List Float)
  | setVariable (name : String) (value : Float)
  | getVariable (name : String)

namespace BoundFormula

/-- The formula after a call, whether the call had an answer or not. -/
def perform (f : BoundFormula) : Call → BoundFormula
  | .compile => f.compile.2
  | .evaluate args => (f.evaluate args).2
  | .gradient args => (f.gradient args).2
  | .setVariable name value => (f.setVariable name value).2
  | .getVariable name => (f.getVariable name).2

/-- The formula after calls in order. -/
def after (f : BoundFormula) (calls : List Call) : BoundFormula := calls.foldl perform f

end BoundFormula

/-! ## Tables of arguments -/

/-- Names without repetition get the next free addresses in order. -/
theorem NameTable.names_resolveAll {table : NameTable} {arguments : List String}
    (h : firstRepeated? table.names arguments = none) :
    (table.resolveAll arguments).names = table.names ++ arguments := by
  induction arguments generalizing table with
  | nil => simp [resolveAll]
  | cons name rest ih =>
    rw [firstRepeated?] at h
    split at h
    · cases h
    · next hnew =>
      have hresolve := names_resolve_of_address?_eq_none (address?_eq_none_iff.2 hnew)
      -- the rest is new also beside the name that has been added
      have hrest := ih (hresolve ▸ h : firstRepeated? (table.resolve name).2.names rest = none)
      rw [hresolve] at hrest
      rw [resolveAll, List.foldl_cons]
      exact hrest.trans (List.append_assoc ..)

/-- The variables behind the first `count` that the program does not assign. -/
def Program.Untouched (program : Program) (count a : Nat) : Prop :=
  count ≤ a ∧ a ∉ Code.stored program.code

/-! ## Passes -/

namespace Workspace

variable {α : Type} [Scalar α]

/-- An evaluation with values handed over for the first variables. -/
def pass (w : Workspace α) (program : Program) (values : List α) :
    Except RunFault α × Workspace α :=
  (w.setFirst values).evaluate program

/-- A pass keeps the number of variables. -/
theorem Complete.pass {w : Workspace α} (h : w.Complete) (program : Program) {values : List α}
    (hlength : values.length ≤ w.slots.length) : (w.pass program values).2.Complete :=
  (h.setFirst hlength).evaluate program

/-- A pass keeps the variables that are neither handed over nor assigned. -/
theorem pass_agreeOn {w : Workspace α} (h : w.Complete) (program : Program) {values : List α}
    (hlength : values.length ≤ w.slots.length) :
    (w.pass program values).2.AgreeOn (program.Untouched values.length) w :=
  ((evaluate_agreeOn (h.setFirst hlength) program).mono fun _ ha => ha.2).trans
    ((setFirst_agreeOn hlength).mono fun _ ha => ha.1)

/-- Passes have the same result if the workspaces agree on all variables that are read before they
are handed over or assigned. -/
theorem pass_fst_of_agreeOn {q : Nat → Prop} {w v : Workspace α} (h : w.AgreeOn q v)
    {program : Program} {values : List α}
    (hread : ∀ a ∈ Code.readFirst program.code, values.length ≤ a → q a) :
    (w.pass program values).1 = (v.pass program values).1 := by
  refine (evaluate_of_agreeOn (h.setFirst values) fun a ha => ?_).1
  -- what is read first is handed over, or the workspaces agree on it
  rcases Nat.lt_or_ge a values.length with hlt | hge
  · exact .inl hlt
  · exact .inr (hread a ha hge)

/-- Passes in workspaces of the same size fail alike, whatever the values are. -/
theorem pass_of_shape {β : Type} [Scalar β] {w : Workspace α} {v : Workspace β}
    (hfunctions : w.functions.SameArities v.functions) (hnames : w.names = v.names)
    (hlength : w.slots.length = v.slots.length) (program : Program) {values : List α}
    {others : List β} (hvalues : values.length = others.length) :
    Alike (fun _ _ => True) (w.pass program values).1 (v.pass program others).1 := by
  have hgrow : (w.setFirst values).grow.slots.length = (v.setFirst others).grow.slots.length := by
    simp [Workspace.grow, Workspace.setFirst, hnames, hlength, hvalues]
  exact evaluate_of_shape (w := w.setFirst values) (v := v.setFirst others) hfunctions hgrow program

/-- Passes of programs whose code runs alike, in related workspaces and with related values. -/
theorem Related.pass {β : Type} [Scalar β] {r : α → β → Prop} {w : Workspace α} {v : Workspace β}
    (h : w.Related r v) (hzero : r Scalar.zero Scalar.zero) {program program' : Program}
    (hcode : Code.RelatedRuns r program.code program'.code) {values : List α} {others : List β}
    (hvalues : List.Forall₂ r values others) :
    Alike r (w.pass program values).1 (v.pass program' others).1 ∧
      (w.pass program values).2.Related r (v.pass program' others).2 :=
  (h.setFirst hvalues).evaluate hzero hcode

end Workspace

/-! ## New programs -/

/-- What a text that is parsed as `formula` is compiled to. -/
def PreparedProgram.ofFormula (options : Options) (arguments : List String) (source : String)
    (formula : Formula) : PreparedProgram :=
  let emitted := formula.emit options (NameTable.empty.resolveAll arguments)
  let program : Program := ⟨source, formula, emitted.1, emitted.2⟩
  ⟨program, (Workspace.forProgram program).registerStandard, none⟩

/-- A formula that parses, and whose arguments are distinct, is compiled to that. -/
theorem BoundFormula.prepare_of_parse {source : String} {arguments : List String}
    {options : Options} {formula : Formula} (hparse : Formula.parse source = .ok formula)
    (hrepeated : firstRepeated? [] arguments = none) :
    prepare { source, arguments, options } = .ok (.ofFormula options arguments source formula) := by
  show PreparedProgram.build options arguments source = _
  rw [PreparedProgram.build, hrepeated, Program.compile, hparse]
  rfl

/-! ## The invariant -/

namespace PreparedProgram

/-- What is true of a prepared program with `arity` arguments at any time: there is a value for
every name, and the workspace for derivatives, if it is there, holds the constants of the first
workspace in all variables that are neither arguments nor assigned by the program. -/
structure Coherent (arity : Nat) (p : PreparedProgram) : Prop where
  complete : p.workspace.Complete
  arguments : arity ≤ p.workspace.slots.length
  slopes : ∀ w, p.slopeWorkspace = some w →
    w.AgreeOn (p.program.Untouched arity) p.workspace.constants

variable {arity : Nat} {p : PreparedProgram}

/-- The workspace that the next request for derivatives begins with. -/
def slopeStart (p : PreparedProgram) : Workspace (Dual Float) :=
  p.slopeWorkspace.getD p.workspace.constants

/-- Whether the workspace for derivatives is there or has to be made, it holds these constants. -/
theorem Coherent.slopeStart (h : p.Coherent arity) :
    p.slopeStart.AgreeOn (p.program.Untouched arity) p.workspace.constants := by
  rw [PreparedProgram.slopeStart]
  cases hslope : p.slopeWorkspace with
  | none => exact .refl _ _
  | some w => exact h.slopes w hslope

/-- A newly built program is coherent: its arguments own the first addresses. -/
theorem coherent_build {options : Options} {arguments : List String} {source : String}
    (h : build options arguments source = .ok p) : p.Coherent arguments.length := by
  rw [build] at h
  split at h
  · cases h
  · next hrepeated =>
    split at h
    · cases h
    · next program hcompile =>
      cases h
      -- the arguments are resolved on the empty table, so they own the first addresses
      have hnames := @NameTable.names_resolveAll .empty _ hrepeated
      have hprefix := Program.names_isPrefix_of_compile hcompile
      rw [hnames] at hprefix
      refine ⟨List.length_replicate, ?_, nofun⟩
      show arguments.length ≤ (List.replicate program.names.size Scalar.zero).length
      rw [List.length_replicate]
      exact hprefix.length_le

/-- A value changes the doubles only. -/
theorem coherent_evaluate (h : p.Coherent arity) {args : List Float}
    (hargs : args.length = arity) : (p.evaluate args).2.Coherent arity := by
  have hlength : args.length ≤ p.workspace.slots.length := hargs ▸ h.arguments
  -- the values change at arguments and assigned variables only, where nothing is claimed
  have hkept := Workspace.pass_agreeOn h.complete p.program hlength
  rw [hargs] at hkept
  refine ⟨h.complete.pass p.program hlength, ?_, fun w hw => ?_⟩
  · exact h.arguments.trans_eq hkept.length.symm
  · exact (h.slopes w hw).trans hkept.constants.symm

theorem length_seeded (args : List Float) (seed : Nat) :
    (seeded args seed).length = args.length := by
  simp [seeded]

section

variable {program : Program} {args : List Float} {w : Workspace (Dual Float)} {seed : Nat}

/-- The pass that fails is the last one. -/
theorem slopesFrom_of_error {fault : RunFault}
    (h : (w.pass program (seeded args seed)).1 = .error fault) (seeds : List Nat) :
    slopesFrom program args w (seed :: seeds) =
      (.error fault, (w.pass program (seeded args seed)).2) := by
  have hpass : (w.setFirst (seeded args seed)).evaluate program =
      (.error fault, (w.pass program (seeded args seed)).2) := Prod.ext h rfl
  rw [slopesFrom, hpass]

/-- After a pass with a result the others go on where it has ended. -/
theorem slopesFrom_of_ok {d : Dual Float}
    (h : (w.pass program (seeded args seed)).1 = .ok d) (seeds : List Nat) :
    let rest := slopesFrom program args (w.pass program (seeded args seed)).2 seeds
    slopesFrom program args w (seed :: seeds) = (rest.1.map (d.eps :: ·), rest.2) := by
  intro rest
  have hpass : (w.setFirst (seeded args seed)).evaluate program =
      (.ok d, (w.pass program (seeded args seed)).2) := Prod.ext h rfl
  rw [slopesFrom, hpass]

/-- The workspace after passes with slope one at the positions `seeds`, one after the other. -/
def afterPasses (program : Program) (args : List Float) (w : Workspace (Dual Float))
    (seeds : List Nat) : Workspace (Dual Float) :=
  seeds.foldl (fun w seed => (w.pass program (seeded args seed)).2) w

/-- Passes leave what is neither handed over nor assigned, by induction on them. -/
theorem afterPasses_agreeOn (program : Program) (h : w.Complete)
    (hlength : args.length ≤ w.slots.length) (seeds : List Nat) :
    (afterPasses program args w seeds).AgreeOn (program.Untouched args.length) w := by
  induction seeds generalizing w with
  | nil => exact .refl _ _
  | cons seed seeds ih =>
    have hseeded : (seeded args seed).length ≤ w.slots.length := length_seeded args seed ▸ hlength
    have hpass := Workspace.pass_agreeOn h program hseeded
    rw [length_seeded] at hpass
    exact (ih (h.pass program hseeded) (hlength.trans_eq hpass.length.symm)).trans hpass

/-- Passes stop at the first that fails, and leave what the passes up to it have left. -/
theorem exists_slopesFrom_eq (program : Program) (args : List Float) (w : Workspace (Dual Float))
    (seeds : List Nat) :
    ∃ count, (slopesFrom program args w seeds).2 =
      afterPasses program args w (seeds.take count) := by
  induction seeds generalizing w with
  | nil => exact ⟨0, rfl⟩
  | cons seed seeds ih =>
    cases hresult : (w.pass program (seeded args seed)).1 with
    | error fault =>
      -- the first pass fails, but it has been made
      refine ⟨1, ?_⟩
      rw [slopesFrom_of_error hresult]
      rfl
    | ok d =>
      obtain ⟨count, hcount⟩ := ih (w.pass program (seeded args seed)).2
      refine ⟨count + 1, ?_⟩
      rw [slopesFrom_of_ok hresult]
      exact hcount

/-- Derivatives side by side, of the same program or of two: if passes in workspaces between which
`inv` holds have slopes that are alike, and keep `inv`, then all derivatives are alike. -/
theorem slopesFrom_side_by_side (inv : Workspace (Dual Float) → Workspace (Dual Float) → Prop)
    {r : Float → Float → Prop} {program' : Program} {others : List Float}
    (hpass : ∀ w v seed, inv w v →
      Alike (fun d e : Dual Float => r d.eps e.eps) (w.pass program (seeded args seed)).1
        (v.pass program' (seeded others seed)).1 ∧
      inv (w.pass program (seeded args seed)).2 (v.pass program' (seeded others seed)).2)
    {v : Workspace (Dual Float)} (h : inv w v) (seeds : List Nat) :
    Alike (List.Forall₂ r) (slopesFrom program args w seeds).1
      (slopesFrom program' others v seeds).1 := by
  -- each pass begins in what the one before has left, so the induction is for all workspaces
  induction seeds generalizing w v with
  | nil => exact .ok .nil
  | cons seed seeds ih =>
    obtain ⟨hfirst, hafter⟩ := hpass w v seed h
    generalize hleft : (w.pass program (seeded args seed)).1 = left,
      hright : (v.pass program' (seeded others seed)).1 = right at hfirst
    cases hfirst with
    | error fault =>
      rw [slopesFrom_of_error hleft, slopesFrom_of_error hright]
      exact .error fault
    | ok hslope =>
      rw [slopesFrom_of_ok hleft, slopesFrom_of_ok hright]
      have hrest := ih hafter
      generalize (slopesFrom program args _ seeds).1 = left,
        (slopesFrom program' others _ seeds).1 = right at hrest ⊢
      cases hrest with
      | error fault => exact .error fault
      | ok hrest => exact .ok (.cons hslope hrest)

/-- The slope at each position comes from a pass on what the passes before it have left. -/
theorem slopesFrom_entries {seeds : List Nat} {slopes : List Float}
    (h : (slopesFrom program args w seeds).1 = .ok slopes) :
    slopes.length = seeds.length ∧ ∀ k, (hk : k < seeds.length) → ∃ d,
      ((afterPasses program args w (seeds.take k)).pass program (seeded args seeds[k])).1 = .ok d ∧
        slopes[k]? = some d.eps := by
  induction seeds generalizing w slopes with
  | nil =>
    cases h
    exact ⟨rfl, fun k hk => absurd hk (Nat.not_lt_zero k)⟩
  | cons seed seeds ih =>
    cases hresult : (w.pass program (seeded args seed)).1 with
    | error fault =>
      rw [slopesFrom_of_error hresult] at h
      cases h
    | ok d =>
      rw [slopesFrom_of_ok hresult] at h
      cases hrest : (slopesFrom program args (w.pass program (seeded args seed)).2 seeds).1 with
      | error fault =>
        rw [hrest] at h
        cases h
      | ok rest =>
        rw [hrest] at h
        cases h
        obtain ⟨hlength, hentries⟩ := ih hrest
        refine ⟨congrArg (· + 1) hlength, fun k hk => ?_⟩
        -- the first slope comes from the pass at the start, any other one from a pass behind it
        cases k with
        | zero => exact ⟨d, hresult, rfl⟩
        | succ k => exact hentries k (Nat.lt_of_succ_lt_succ hk)

end

/-- Passes in the kept workspace leave the constants where nothing is handed over or assigned. -/
theorem Coherent.afterPasses (h : p.Coherent arity) {args : List Float}
    (hargs : args.length = arity) (seeds : List Nat) :
    (afterPasses p.program args p.slopeStart seeds).AgreeOn (p.program.Untouched arity)
      p.workspace.constants := by
  have hstart := h.slopeStart
  have hcomplete : p.slopeStart.Complete := hstart.complete h.complete.constants
  have hlength : args.length ≤ p.slopeStart.slots.length := by
    rw [hargs, hstart.length]
    exact h.arguments.trans_eq (List.length_map Dual.constant).symm
  have hpasses := afterPasses_agreeOn p.program hcomplete hlength seeds
  rw [hargs] at hpasses
  exact hpasses.trans hstart

/-- Derivatives change the kept workspace only, by passes. -/
theorem coherent_slopes (h : p.Coherent arity) {args : List Float} (hargs : args.length = arity)
    (seeds : List Nat) : (p.slopes args seeds).2.Coherent arity := by
  -- the doubles are left alone; the kept workspace has been through some of the passes
  refine ⟨h.complete, h.arguments, fun w hw => ?_⟩
  obtain rfl : (slopesFrom p.program args p.slopeStart seeds).2 = w := Option.some.inj hw
  obtain ⟨count, hcount⟩ := exists_slopesFrom_eq p.program args p.slopeStart seeds
  rw [hcount]
  exact h.afterPasses hargs (seeds.take count)

/-- Setting a variable keeps the two workspaces in step. -/
theorem coherent_setVariable (h : p.Coherent arity) (name : String) (value : Float) :
    (p.setVariable name value).Coherent arity := by
  refine ⟨Workspace.complete_set h.complete name value, ?_, fun w hw => ?_⟩
  · exact h.arguments.trans (p.workspace.length_slots_le_set name value)
  -- both workspaces get the value, one of them as a constant
  · obtain ⟨v, hv, rfl⟩ := Option.map_eq_some_iff.mp hw
    show Workspace.AgreeOn _ _ (p.workspace.set name value).2.constants
    rw [Workspace.constants_set]
    exact (h.slopes v hv).set name (.constant value)

end PreparedProgram

/-! ## Calls keep it -/

namespace BoundFormula

/-- A formula whose program, once there is one, is coherent. -/
def Coherent (f : BoundFormula) : Prop :=
  ∀ p, f.prepared? = some p → p.Coherent f.arity

variable {f : BoundFormula}

/-- The program that is found, or made now, is coherent. -/
theorem Coherent.prepare (h : f.Coherent) {p : PreparedProgram} (hp : f.prepare = .ok p) :
    p.Coherent f.arity := by
  rw [BoundFormula.prepare] at hp
  split at hp
  · next p' hprepared =>
    cases hp
    exact h p hprepared
  · exact PreparedProgram.coherent_build hp

/-- A call keeps the formula coherent if what it does with the program keeps the program so. -/
theorem Coherent.withPrepared {β : Type} (h : f.Coherent)
    {use : PreparedProgram → Except RunFault β × PreparedProgram}
    (huse : ∀ p : PreparedProgram, p.Coherent f.arity → (use p).2.Coherent f.arity) :
    (f.withPrepared use).2.Coherent := by
  rw [BoundFormula.withPrepared]
  split
  · exact h
  · next p hp =>
    intro p' hp'
    obtain rfl : (use p).2 = p' := Option.some.inj hp'
    exact huse p (h.prepare hp)

/-- The check of the arguments changes nothing. -/
theorem Coherent.checkArity {β : Type} (h : f.Coherent) {args : List Float}
    {next : Except Fault β × BoundFormula} (hnext : args.length = f.arity → next.2.Coherent) :
    (f.checkArity args next).2.Coherent := by
  rw [BoundFormula.checkArity]
  split
  · next hlength => exact hnext hlength
  · exact h

/-- One call. -/
theorem Coherent.perform (h : f.Coherent) (call : Call) : (f.perform call).Coherent := by
  cases call with
  | compile => exact h.withPrepared fun _ hp => hp
  | evaluate args =>
    exact h.checkArity fun hargs =>
      h.withPrepared fun _ hp => PreparedProgram.coherent_evaluate hp hargs
  | gradient args =>
    exact h.checkArity fun hargs =>
      h.withPrepared fun _ hp => PreparedProgram.coherent_slopes hp hargs _
  | setVariable name value => exact h.withPrepared fun _ hp =>
    PreparedProgram.coherent_setVariable hp name value
  | getVariable name => exact h.withPrepared fun _ hp => hp

/-- Any calls, by induction on them. -/
theorem Coherent.after (h : f.Coherent) (calls : List Call) : (f.after calls).Coherent := by
  induction calls generalizing f with
  | nil => exact h
  | cons call calls ih => exact ih (h.perform call)

/-- The invariant holds after all calls on a formula that is not compiled yet. -/
theorem coherent_after (source : String) (arguments : List String) (options : Options)
    (calls : List Call) : (after { source, arguments, options } calls).Coherent := by
  have hnew : ({ source, arguments, options } : BoundFormula).Coherent := nofun
  exact hnew.after calls

end BoundFormula

end FormulaMachine
