import FormulaMachine.Proofs.Bound.Lifecycle
import FormulaMachine.Proofs.Code.Literals
import FormulaMachine.Proofs.Dual.Shadow
import FormulaMachine.Proofs.Dual.Values
import FormulaMachine.Proofs.Grammar.Program

/-!
# Folding in derivatives

With folding on, the value of a part made of literals is a constant, with slope zero. With folding
off, the rules for slopes are applied to the literals, and the slope that they give is a zero or NaN.
So folding can show in a derivative in one way only: without it the derivative may be NaN.

* `Expr.KeepsSlope`: a part made of literals whose slope is not NaN.
* **`PreparedProgram.slopesFrom_related`**: passes of programs that run alike.
* **`BoundFormula.gradient_of_folding`**: the gradients with and without folding.
* **`BoundFormula.gradient_of_lost_slope`**: a gradient in which folding shows.
-/

namespace FormulaMachine

open Binary64 (IsZero SameNumber isZero_iff)

/-! ## Slopes of literals -/

namespace Expr

/-- If the expression is made of literals, the rules for slopes do not make a NaN of its slope. -/
def KeepsSlope (e : Expr) : Prop :=
  ∀ d, e.literalOn? (Dual Float) = some d → d.eps.isNaN = false

instance (e : Expr) : Decidable e.KeepsSlope :=
  decidable_of_iff (∀ d ∈ e.literalOn? (Dual Float), d.eps.isNaN = false) Iff.rfl

variable {e : Expr} {value : Float} {d : Dual Float}

/-- The value of literals is the same on dual numbers, and the slope is a zero or NaN. -/
theorem literalOn?_dual (hvalue : e.literalValue? = some value)
    (hd : e.literalOn? (Dual Float) = some d) :
    d.val = value ∧ (IsZero d.eps ∨ d.eps.isNaN = true) := by
  -- the value is that on doubles, and the slope is what a probe says
  have hval := e.literalOn?_related Dual.homomorphism_val.relates
  rw [literalOn?_float, hvalue, hd] at hval
  have hprobe := e.literalOn?_related Probe.relates_dual
  rw [hd] at hprobe
  generalize e.literalOn? Probe = probe at hprobe
  cases hval with
  | some hval =>
    cases hprobe with
    | some hprobe =>
      obtain @⟨_, lost, slope, hmarks⟩ := hprobe
      refine ⟨hval, ?_⟩
      cases lost with
      | false => exact .inl hmarks
      | true => exact .inr hmarks

/-- What unfolded code computes for literals follows the constant that folding makes of them, and
its slope gets lost if it is NaN only. -/
theorem foldsUpTo_follows {lossy : Bool} (h : lossy = false → e.KeepsSlope) :
    e.FoldsUpTo (Dual.Follows lossy) := by
  intro value d hvalue hd
  obtain ⟨rfl, hslope⟩ := literalOn?_dual hvalue hd
  refine .intro d.val ?_
  -- a zero follows the zero of the constant, and NaN may be lost if anything may
  obtain hzero | hnan := hslope
  · exact .inl (.of_isZero (isZero_iff.2 (by decide +kernel)) hzero)
  · cases lossy with
    | true => exact .inr ⟨rfl, hnan⟩
    | false =>
      rw [h rfl d hd] at hnan
      cases hnan

end Expr

/-! ## Passes of programs that run alike -/

namespace PreparedProgram

variable {lossy : Bool} {program program' : Program} {w v : Workspace (Dual Float)}
  {p q : PreparedProgram}

theorem follows_refl (values : List (Dual Float)) :
    List.Forall₂ (Dual.Follows lossy) values values :=
  List.forall₂_same.2 fun d _ => .refl d

/-- The slopes of one program are in the shadow of those of the other. -/
theorem slopesFrom_related
    (hcode : Code.RelatedRuns (Dual.Follows lossy) program.code program'.code)
    (h : w.Related (Dual.Follows lossy) v) (args : List Float) (seeds : List Nat) :
    Alike (List.Forall₂ (Shadows lossy)) (slopesFrom program args w seeds).1
      (slopesFrom program' args v seeds).1 := by
  refine slopesFrom_side_by_side (·.Related (Dual.Follows lossy)) (fun w v seed hrelated => ?_) h
    seeds
  obtain ⟨hanswers, hafter⟩ := hrelated.pass (.refl _) hcode (follows_refl (seeded args seed))
  exact ⟨hanswers.mono fun _ _ hfollows => hfollows.eps, hafter⟩

/-- Programs whose code runs alike, in the same workspace and before the first derivative. -/
structure FoldedAs (lossy : Bool) (p q : PreparedProgram) : Prop where
  code : Code.RelatedRuns (Dual.Follows lossy) p.program.code q.program.code
  workspace : p.workspace = q.workspace
  left : p.slopeWorkspace = none
  right : q.slopeWorkspace = none

/-- With and without folding, building a program finds the same fault or ends with programs whose
code runs alike, in the same workspace. -/
theorem build_folding {options : Options} {arguments : List String} {source : String}
    (h : ∀ formula, Formula.parse source = .ok formula →
      ∀ part ∈ formula.parts, part.FoldsUpTo (Dual.Follows lossy)) :
    Alike (FoldedAs lossy) (build { options with foldConstants := true } arguments source)
      (build { options with foldConstants := false } arguments source) := by
  rw [build, build]
  cases firstRepeated? [] arguments with
  | some name => exact .error _
  | none =>
    simp only [Program.compile]
    cases hparse : Formula.parse source with
    | error fault => exact .error _
    | ok formula =>
      -- folding changes the code only, so the workspaces are made for the same names
      obtain ⟨hruns, hnames⟩ := @Formula.related_emission _ _ _ _ _ options
        (Dual.relates_follows lossy) formula (h formula hparse) (NameTable.empty.resolveAll arguments)
      refine .ok ⟨hruns, ?_, rfl, rfl⟩
      simp only [Workspace.forProgram, hnames]

/-- Before the first derivative both programs start their passes from the same constants, and so the
slopes are related, pass by pass. -/
theorem FoldedAs.slopes (h : FoldedAs lossy p q) (args : List Float) (seeds : List Nat) :
    Alike (List.Forall₂ (Shadows lossy)) (p.slopes args seeds).1 (q.slopes args seeds).1 := by
  have hstart : p.slopeStart.Related (Dual.Follows lossy) q.slopeStart := by
    rw [slopeStart, slopeStart, h.left, h.right, h.workspace]
    exact ⟨rfl, follows_refl _, FunctionTable.standard_related (Dual.relates_follows lossy)⟩
  exact slopesFrom_related h.code hstart args seeds

end PreparedProgram

/-! ## Gradients -/

namespace BoundFormula

/-- With the checks of the arguments and of the text in front, which do not depend on folding,
gradients are related as the slopes of the programs are. -/
theorem gradient_related {lossy : Bool} {source : String} {arguments : List String}
    {options : Options} (h : ∀ formula, Formula.parse source = .ok formula →
      ∀ part ∈ formula.parts, part.FoldsUpTo (Dual.Follows lossy)) (args : List Float) :
    let variant (fold : Bool) : BoundFormula :=
      { source, arguments, options := { options with foldConstants := fold } }
    Alike (List.Forall₂ (Shadows lossy)) ((variant true).gradient args).1
      ((variant false).gradient args).1 := by
  intro variant
  by_cases hargs : args.length = arguments.length
  · have hprepared : Alike (PreparedProgram.FoldedAs lossy) (variant true).prepare
        (variant false).prepare := PreparedProgram.build_folding h
    generalize hleft : (variant true).prepare = left,
      hright : (variant false).prepare = right at hprepared
    -- either both have no program and the same fault, or both have one
    cases hprepared with
    | error fault =>
      have harity (fold : Bool) : args.length = (variant fold).arity := hargs
      rw [gradient, gradient, slopes, slopes, checkArity, checkArity, if_pos (harity true),
        if_pos (harity false), withPrepared_of_error hleft, withPrepared_of_error hright]
      exact .error _
    | @ok p q hpq =>
      rw [gradient, gradient, slopes_of_prepare hleft hargs, slopes_of_prepare hright hargs]
      have hslopes := hpq.slopes args (List.range args.length)
      generalize (p.slopes args (List.range args.length)).1 = left,
        (q.slopes args (List.range args.length)).1 = right at hslopes ⊢
      cases hslopes with
      | error fault => exact .error _
      | ok hentries => exact .ok hentries
  · have harity (fold : Bool) : args.length ≠ (variant fold).arity := hargs
    rw [gradient, gradient, slopes, slopes, checkArity_of_ne (harity true),
      checkArity_of_ne (harity false)]
    exact .error _

/-- With and without folding, the gradient of a new formula fails with the same fault or has entries
that are the same numbers, except that those without folding may be NaN instead. They are not if the
rules for slopes make no NaN of a part that is made of literals. -/
theorem gradient_of_folding (source : String) (arguments : List String) (options : Options)
    (args : List Float) :
    let gradientWith (fold : Bool) : Except Fault (List Float) :=
      (gradient { source, arguments, options := { options with foldConstants := fold } } args).1
    Alike (List.Forall₂ fun entry plain => SameNumber entry plain ∨ plain.isNaN = true)
        (gradientWith true) (gradientWith false) ∧
      ((∀ formula, Formula.parse source = .ok formula → ∀ part ∈ formula.parts, part.KeepsSlope) →
        Alike (List.Forall₂ SameNumber) (gradientWith true) (gradientWith false)) := by
  intro gradientWith
  constructor
  -- in general slopes may get lost on the way
  · have hlossy := @gradient_related true source arguments options
      (fun _ _ _ _ => Expr.foldsUpTo_follows fun hexact => (Bool.noConfusion hexact)) args
    refine hlossy.mono fun entries plain hentries => hentries.imp fun entry value hentry => ?_
    exact hentry.imp_right And.right
  · intro hkeeps
    -- if every part keeps its slope, none gets lost
    have hexact := @gradient_related false source arguments options
      (fun formula hformula part hpart =>
        Expr.foldsUpTo_follows fun _ => hkeeps formula hformula part hpart) args
    refine hexact.mono fun entries plain hentries => hentries.imp fun entry value hentry => ?_
    exact hentry.resolve_right fun hlost => Bool.false_ne_true hlost.1

/-! ## Derivatives with and without a lost slope -/

/-- A part made of literals, with a slope that stays zero. -/
def quotient : Formula :=
  ⟨[.result (.binary .mul (.binary .div (.number 2) (.number 5)) (.var "x"))]⟩

/-- The text is that of the formula above. The derivation is given, so that only the tokens have to be
read. -/
theorem parse_quotient : Formula.parse "2/5*x" = .ok quotient := by
  have hreads : Reads 0 ['2', '/', '5', '*', 'x']
      [.number 2, .slash, .number 5, .star, .identifier "x"] :=
    .front (Piece.front?_of_isDigit rfl _) <| .mark rfl <|
      .front (Piece.front?_of_isDigit rfl _) <| .mark rfl <|
      .front (Piece.front?_of_isIdentifierStart (by cbv) _) <| .nil 0
  let p : Grammar.ProgramTree := .last 0 (.result
    (.chain (.chain (.unsigned (.bare (.number 2)))
      (.link .div (by decide) (.unsigned (.bare (.number 5)))
        (.link .mul (by decide) (.unsigned (.bare (.name "x"))) .done))) .done))
  exact (@Formula.parse_of_reads "2/5*x" p hreads).1 (by decide)

/-- In `2/5*x` the quotient is folded, and its slope is zero without folding, too. -/
theorem gradient_of_folding_of_quotient :
    let variant (fold : Bool) : BoundFormula :=
      { source := "2/5*x", arguments := ["x"], options := { foldConstants := fold } }
    ((variant true).gradient [3]).1 = .ok [2 / 5] ∧
      Alike (List.Forall₂ SameNumber) ((variant true).gradient [3]).1
        ((variant false).gradient [3]).1 := by
  intro variant
  have hprepare : (variant true).prepare = .ok _ := prepare_of_parse parse_quotient (by rfl)
  have hgradient : ((variant true).gradient [3]).1 = .ok [2 / 5] := by
    rw [gradient, slopes_of_prepare hprepare rfl]
    rfl
  refine ⟨hgradient, (gradient_of_folding "2/5*x" ["x"] {} [3]).2 fun formula hformula => ?_⟩
  obtain rfl : quotient = formula := Except.ok.inj (parse_quotient.symm.trans hformula)
  decide +kernel

/-- The double that `1e-200` is read as. -/
def tiny : Float := Decimal.nearestScaled 1 (-200)

/-- A part made of literals, with a slope that gets lost. -/
def lostSlope : Formula :=
  ⟨[.result (.binary .add (.var "x") (.binary .div (.number 1) (.number tiny)))]⟩

/-- The derivation is given, since the power of ten is not computed on the way. -/
theorem parse_lostSlope : Formula.parse "x + 1/1e-200" = .ok lostSlope := by
  have hreads : Reads 0 ['x', ' ', '+', ' ', '1', '/', '1', 'e', '-', '2', '0', '0']
      [.identifier "x", .plus, .number 1, .slash, .number tiny] :=
    .front (Piece.front?_of_isIdentifierStart (by cbv) _) <| .space <| .mark rfl <| .space <|
      .front (Piece.front?_of_isDigit rfl _) <| .mark rfl <|
      .front (Piece.front?_of_isDigit rfl _) <| .nil 0
  let p : Grammar.ProgramTree := .last 0 (.result
    (.chain (.chain (.unsigned (.bare (.name "x"))) .done)
      (.link .add (by decide)
        (.chain (.unsigned (.bare (.number 1)))
          (.link .div (by decide) (.unsigned (.bare (.number tiny))) .done)) .done)))
  exact (@Formula.parse_of_reads "x + 1/1e-200" p hreads).1 (by decide)

set_option maxRecDepth 10000 in
/-- The slope of `1/1e-200` is computed with the square of the divisor, which is rounded to zero. So
the slope is NaN, and so is that of the sum, which should be one. -/
theorem gradient_of_lost_slope :
    let variant (fold : Bool) : BoundFormula :=
      { source := "x + 1/1e-200", arguments := ["x"], options := { foldConstants := fold } }
    ((variant true).gradient [1]).1 = .ok [1] ∧
      ((variant false).gradient [1]).1 = .ok [Binary64.nan] ∧
      ¬ Alike (List.Forall₂ SameNumber) ((variant true).gradient [1]).1
        ((variant false).gradient [1]).1 := by
  intro variant
  have hprepare (fold : Bool) : (variant fold).prepare = .ok _ :=
    prepare_of_parse parse_lostSlope (by rfl)
  have hfolded : ((variant true).gradient [1]).1 = .ok [1] := by
    rw [gradient, slopes_of_prepare (hprepare true) rfl]
    rfl
  have hplain : ((variant false).gradient [1]).1 = .ok [Binary64.nan] := by
    rw [gradient, slopes_of_prepare (hprepare false) rfl]
    rfl
  refine ⟨hfolded, hplain, fun halike => ?_⟩
  rw [hfolded, hplain] at halike
  cases halike with
  | ok hentries =>
    cases hentries with
    | cons hentry _ => exact absurd hentry (by decide +kernel)

end BoundFormula

end FormulaMachine
