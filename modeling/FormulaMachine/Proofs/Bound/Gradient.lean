import FormulaMachine.Proofs.Bound.History

/-!
# What a gradient is computed from

The derivative with respect to an argument is the slope of one pass on the constants that the
variables hold. But passes share a workspace that is kept, so each one finds what the passes before
it have assigned. This shows in the variables that a program reads before it assigns them, and in no
others.

* `PreparedProgram.leaking`: the variables in which a pass finds what another one has left.
* **`BoundFormula.gradient_entries`**: each entry of a gradient is the slope on the constants, with
  what was left behind in the leaking variables; so it is the derivative if nothing leaks.
* **`BoundFormula.gradient_of_left_slope`**: a second gradient that is not the derivative.
-/

namespace FormulaMachine

theorem mapError_eq_ok {ε ε' α : Type} {g : ε → ε'} {outcome : Except ε α} {a : α} :
    outcome.mapError g = .ok a ↔ outcome = .ok a := by
  cases outcome <;> simp [Except.mapError]

namespace PreparedProgram

variable {arity : Nat} {p : PreparedProgram}

/-- The variables, apart from the arguments, that the program assigns and also reads before. -/
def leaking (p : PreparedProgram) (arity : Nat) : List Nat :=
  (Code.readFirst p.program.code).filter fun a => arity ≤ a ∧ a ∈ Code.stored p.program.code

/-- What leaks is read first, no argument, and assigned. -/
theorem mem_leaking {a : Nat} :
    a ∈ p.leaking arity ↔
      a ∈ Code.readFirst p.program.code ∧ arity ≤ a ∧ a ∈ Code.stored p.program.code := by
  simp [leaking]

/-- The workspace in which the pass for the argument at the position `i` runs: what earlier calls
and the passes for the arguments before it have left. -/
def passStart (p : PreparedProgram) (args : List Float) (i : Nat) : Workspace (Dual Float) :=
  afterPasses p.program args p.slopeStart (List.range i)

/-- What the passes before have left is the constants, where nothing is handed over or assigned. -/
theorem Coherent.passStart (h : p.Coherent arity) {args : List Float} (hargs : args.length = arity)
    (i : Nat) :
    (p.passStart args i).AgreeOn (p.program.Untouched arity) p.workspace.constants :=
  h.afterPasses hargs (List.range i)

/-- A pass on what was left behind is a pass on the constants, but for the leaking variables. -/
theorem Coherent.pass_passStart (h : p.Coherent arity) {args : List Float}
    (hargs : args.length = arity) (i : Nat) :
    ((p.passStart args i).pass p.program (seeded args i)).1 =
      ((p.workspace.constants.overlay (p.leaking arity) (p.passStart args i)).pass p.program
        (seeded args i)).1 := by
  have hagree := (h.passStart hargs i).overlay (p.leaking arity)
  refine Workspace.pass_fst_of_agreeOn hagree fun a hread hfree => ?_
  rw [length_seeded, hargs] at hfree
  -- what is read first is left alone, or it leaks
  by_cases hstored : a ∈ Code.stored p.program.code
  · exact .inr (mem_leaking.mpr ⟨hread, hfree, hstored⟩)
  · exact .inl ⟨hfree, hstored⟩

/-- Where one of two passes in the workspaces at hand has a result, so has the other. -/
theorem Coherent.exists_pass_constants (h : p.Coherent arity) {args : List Float}
    (hargs : args.length = arity) {i : Nat} {left : Dual Float}
    (hleft : ((p.passStart args i).pass p.program (seeded args i)).1 = .ok left) :
    ∃ d, (p.workspace.constants.pass p.program (seeded args i)).1 = .ok d := by
  have hagree := h.passStart hargs i
  have harities : (p.passStart args i).functions.SameArities p.workspace.constants.functions := by
    rw [hagree.functions]
    exact fun _ => rfl
  have hlength : (seeded args i).length = (seeded args i).length := rfl
  -- whether a pass has a result depends on sizes only, which are the same
  have halike := Workspace.pass_of_shape harities hagree.names hagree.length p.program hlength
  rw [hleft] at halike
  generalize (p.workspace.constants.pass p.program (seeded args i)).1 = outcome at halike ⊢
  cases halike with
  | ok => exact ⟨_, rfl⟩

/-- Nothing is left behind if nothing leaks, and on the first pass of all. -/
theorem overlay_leaking_eq {args : List Float} {i : Nat}
    (h : p.leaking arity = [] ∨ i = 0 ∧ p.slopeWorkspace = none) :
    p.workspace.constants.overlay (p.leaking arity) (p.passStart args i) =
      p.workspace.constants := by
  rcases h with hnone | ⟨rfl, hfirst⟩
  · rw [hnone, Workspace.overlay_nil]
  · have hstart : p.passStart args 0 = p.workspace.constants := by
      show p.slopeStart = _
      rw [slopeStart, hfirst, Option.getD_none]
    rw [hstart, Workspace.overlay_self]

/-- Each derivative is the slope of a pass on the constants, with what was left behind in the leaking
variables. -/
theorem Coherent.exists_entry (h : p.Coherent arity) {args slopes : List Float}
    (hargs : args.length = arity)
    (hslopes : (slopesFrom p.program args p.slopeStart (List.range args.length)).1 = .ok slopes)
    {i : Nat} (hi : i < args.length) :
    ∃ left, ((p.passStart args i).pass p.program (seeded args i)).1 = .ok left ∧
      ((p.workspace.constants.overlay (p.leaking arity) (p.passStart args i)).pass p.program
        (seeded args i)).1 = .ok left ∧ slopes[i]? = some left.eps := by
  have hrange : i < (List.range args.length).length := List.length_range.symm ▸ hi
  obtain ⟨left, hleft, hentry⟩ := (slopesFrom_entries hslopes).2 i hrange
  -- the passes before this one are those for the arguments before
  rw [List.take_range, Nat.min_eq_left hi.le, List.getElem_range] at hleft
  exact ⟨left, hleft, (h.pass_passStart hargs i).symm.trans hleft, hentry⟩

end PreparedProgram

namespace BoundFormula

open PreparedProgram (seeded)

/-- With the right number of arguments, the derivatives are those of the program, which is kept. -/
theorem slopes_of_prepare {f : BoundFormula} {p : PreparedProgram} (h : f.prepare = .ok p)
    {args : List Float} (hargs : args.length = f.arity) (seeds : List Nat) :
    f.slopes args seeds =
      ((p.slopes args seeds).1.mapError .run,
        { f with prepared? := some (p.slopes args seeds).2 }) := by
  rw [slopes, checkArity, if_pos hargs, withPrepared, h]

/-- The value is that of the prepared program. -/
theorem evaluate_of_prepare {f : BoundFormula} {p : PreparedProgram} (h : f.prepare = .ok p)
    {args : List Float} (hargs : args.length = f.arity) :
    f.evaluate args =
      ((p.evaluate args).1.mapError .run, { f with prepared? := some (p.evaluate args).2 }) := by
  rw [evaluate, checkArity, if_pos hargs, withPrepared, h]

/-- Answers are given for the right number of arguments, by the prepared program. -/
theorem exists_of_answer_ok {β : Type} {f : BoundFormula} {args : List Float}
    {use : PreparedProgram → Except RunFault β × PreparedProgram} {answer : β}
    (h : (f.checkArity args (f.withPrepared use)).1 = .ok answer) :
    args.length = f.arity ∧ ∃ p, f.prepare = .ok p ∧ (use p).1 = .ok answer := by
  -- an answer has passed the check of the arity and that of the text
  by_cases hargs : args.length = f.arity
  · rw [checkArity, if_pos hargs, withPrepared] at h
    cases hp : f.prepare with
    | error fault =>
      rw [hp] at h
      cases h
    | ok p =>
      rw [hp] at h
      exact ⟨hargs, p, rfl, mapError_eq_ok.1 h⟩
  · rw [checkArity, if_neg hargs] at h
    cases h

/-- A gradient comes from passes for all positions in order. -/
theorem exists_of_gradient_ok {f : BoundFormula} {args g : List Float}
    (h : (f.gradient args).1 = .ok g) :
    args.length = f.arity ∧ ∃ p, f.prepare = .ok p ∧
      (PreparedProgram.slopesFrom p.program args p.slopeStart (List.range args.length)).1 =
        .ok g :=
  exists_of_answer_ok h

/-- A value comes from one pass. -/
theorem exists_of_evaluate_ok {f : BoundFormula} {args : List Float} {value : Float}
    (h : (f.evaluate args).1 = .ok value) :
    args.length = f.arity ∧ ∃ p, f.prepare = .ok p ∧
      (p.workspace.pass p.program args).1 = .ok value :=
  exists_of_answer_ok h

/-- After any calls, each entry of a gradient is the slope of a pass on the constants that the
variables hold, except that the leaking ones hold what earlier passes have left in them. So the entry
is the derivative exactly if that makes no difference to the slope; and it makes none if nothing
leaks, or on the first pass of all. -/
theorem gradient_entries (source : String) (arguments : List String) (options : Options)
    (calls : List Call) {args g : List Float}
    (hg : ((after { source, arguments, options } calls).gradient args).1 = .ok g) :
    ∃ p, (after { source, arguments, options } calls).prepare = .ok p ∧ g.length = args.length ∧
      ∀ i < args.length, ∃ d left : Dual Float,
        (p.workspace.constants.pass p.program (seeded args i)).1 = .ok d ∧
        ((p.workspace.constants.overlay (p.leaking args.length) (p.passStart args i)).pass
          p.program (seeded args i)).1 = .ok left ∧
        g[i]? = some left.eps ∧
        (p.leaking args.length = [] ∨ i = 0 ∧ p.slopeWorkspace = none → left = d) := by
  have hcoherent := coherent_after source arguments options calls
  -- what the calls were makes no difference from here on, but for the invariant
  generalize after { source, arguments, options } calls = f at hg hcoherent ⊢
  obtain ⟨hargs, p, hp, hslopes⟩ := exists_of_gradient_ok hg
  have h := hcoherent.prepare hp
  have hlength := (PreparedProgram.slopesFrom_entries hslopes).1
  rw [List.length_range] at hlength
  refine ⟨p, hp, hlength, fun i hi => ?_⟩
  obtain ⟨left, hleft, hoverlay, hentry⟩ := h.exists_entry hargs hslopes hi
  obtain ⟨d, hd⟩ := h.exists_pass_constants hargs hleft
  rw [← hargs] at hoverlay
  refine ⟨d, left, hd, hoverlay, hentry, fun hclean => ?_⟩
  -- where nothing is left behind, both passes are the same one
  rw [PreparedProgram.overlay_leaking_eq hclean, hd] at hoverlay
  exact (Except.ok.inj hoverlay).symm

/-! ## A slope that is left behind -/

/-- A program that adds its argument to what it finds in another variable. -/
def running : Program :=
  ⟨"y = y + x; y", ⟨[.assign "y" (.binary .add (.var "y") (.var "x")), .result (.var "y")]⟩,
    [.load 1, .load 0, .binary .add, .store 1, .load 1], .resolveAll .empty ["x", "y"]⟩

/-- The program, newly built. -/
def preparedRunning : PreparedProgram :=
  ⟨running, (Workspace.forProgram running).registerStandard, none⟩

set_option maxRecDepth 10000 in
theorem parse_running : Formula.parse running.source = .ok running.formula := by
  cbv

/-- What it is compiled to, with a zero for `y`. -/
theorem prepare_running :
    prepare { source := "y = y + x; y", arguments := ["x"] } = .ok preparedRunning :=
  prepare_of_parse parse_running (by rfl)

/-- The variable `y` still holds zero, so the slope on the constants is one. But the first gradient
has left `y` with slope one, and the second gradient adds the slope of `x` to it. -/
theorem gradient_of_left_slope :
    let f := after { source := "y = y + x; y", arguments := ["x"] } [.gradient [1]]
    ∃ p, f.prepare = .ok p ∧ p.workspace.get? "y" = some 0 ∧
      (p.workspace.constants.pass p.program (seeded [1] 0)).1 = .ok ⟨1, 1⟩ ∧
      (f.gradient [1]).1 = .ok [2] ∧ (2 : Float) ≠ 1 := by
  intro f
  -- the first gradient has left the workspace of its only pass
  have hf : f = ⟨"y = y + x; y", ["x"], {}, some (preparedRunning.slopes [1] [0]).2⟩ :=
    congrArg Prod.snd (slopes_of_prepare prepare_running rfl [0])
  rw [hf]
  exact ⟨_, rfl, rfl, rfl, rfl, by decide +kernel⟩

/-- The first gradient of the same program is the derivative, also after an evaluation. -/
theorem gradient_entries_of_first :
    let f := after { source := "y = y + x; y", arguments := ["x"] } [.evaluate [2]]
    (f.gradient [3]).1 = .ok [1] ∧ ∃ p, f.prepare = .ok p ∧ p.workspace.get? "y" = some 2 ∧
      ∃ d, (p.workspace.constants.pass p.program (seeded [3] 0)).1 = .ok d ∧ d.eps = 1 := by
  intro f
  have hf : f = ⟨"y = y + x; y", ["x"], {}, some (preparedRunning.evaluate [2]).2⟩ :=
    congrArg Prod.snd (evaluate_of_prepare prepare_running rfl)
  have hg : (f.gradient [3]).1 = .ok [1] := by
    rw [hf]
    rfl
  have hprepare : f.prepare = .ok (preparedRunning.evaluate [2]).2 := by
    rw [hf]
    rfl
  obtain ⟨p, hp, _, hentries⟩ := gradient_entries "y = y + x; y" ["x"] {} [.evaluate [2]] hg
  obtain rfl : (preparedRunning.evaluate [2]).2 = p := Except.ok.inj (hprepare.symm.trans hp)
  obtain ⟨d, left, hd, _, hentry, hfirst⟩ := hentries 0 (by decide)
  -- on the first pass of all there is nothing left behind
  have heq : left = d := hfirst (.inr ⟨rfl, rfl⟩)
  have heps : (1 : Float) = left.eps := Option.some.inj hentry
  exact ⟨hg, _, hp, rfl, d, hd, by rw [← heq, heps]⟩

end BoundFormula

end FormulaMachine
