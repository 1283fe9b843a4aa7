import FormulaMachine.Proofs.Binary64.Zeros
import FormulaMachine.Proofs.Workspace.Relation

/-!
# Slopes of constants

A constant has slope zero, and everything that is computed from constants should have. But a rule
multiplies the slope by a derivative and divides it by a square. A zero that is multiplied by an
infinity, or divided by zero, is NaN, and no rule for a sum, a product or a quotient gets rid of a NaN
again.

A probe is a double that notes whether this has happened. It is a scalar, so a program can be run on
probes; and such a run tells what a run on dual numbers makes of the slopes of constants.

* `Probe`: a value, and whether its slope is lost.
* `Marks`: a lost slope is NaN, and one that is not lost is zero.
* **`Probe.relates_dual`**: probes foretell the dual numbers that are computed from constants.
-/

namespace FormulaMachine

open Binary64 (Direction IsZero)

/-- A value that was computed from constants, and whether the rules for slopes make a NaN of its
slope. -/
structure Probe where
  val : Float
  lost : Bool

namespace Probe

/-- The slope of a constant is not lost. -/
def constant (x : Float) : Probe := ⟨x, false⟩

/-- Whether a slope is lost when it is multiplied by `factor`. -/
def timesFactor (factor : Float) (lost : Bool) : Bool := lost || !factor.isFinite

/-- Whether a slope is lost when it is divided by `divisor`. -/
def overDivisor (lost : Bool) (divisor : Float) : Bool :=
  lost || (divisor == 0 || divisor.isNaN)

/-- Each slope is multiplied by the value of the other operand. -/
def mul (a b : Probe) : Probe :=
  ⟨a.val * b.val, timesFactor a.val b.lost || timesFactor b.val a.lost⟩

/-- Both products are divided by the square of the divisor, which may be zero though the divisor is
not. -/
def div (a b : Probe) : Probe :=
  ⟨a.val / b.val,
    overDivisor (timesFactor b.val a.lost || timesFactor a.val b.lost) (b.val * b.val)⟩

instance : Add Probe := ⟨fun a b => ⟨a.val + b.val, a.lost || b.lost⟩⟩
instance : Sub Probe := ⟨fun a b => ⟨a.val - b.val, a.lost || b.lost⟩⟩
instance : Neg Probe := ⟨fun a => ⟨-a.val, a.lost⟩⟩
instance : Mul Probe := ⟨mul⟩
instance : Div Probe := ⟨div⟩

/-- A power has no term for an operand of slope zero, so nothing is lost at any point. -/
def pow (a b : Probe) : Probe := ⟨Scalar.pow a.val b.val, a.lost || b.lost⟩

/-- The slope is multiplied by the derivative at the value. -/
def smooth (f : Smooth) (d : Probe) : Probe :=
  ⟨Scalar.smooth f d.val, timesFactor (f.slope d.val) d.lost⟩

/-- What rounds to an integer is constant. -/
def integral (dir : Direction) (d : Probe) : Probe := constant (Scalar.integral dir d.val)

/-- Both products are divided by the square of the distance. -/
def atan2 (y x : Probe) : Probe :=
  ⟨Scalar.atan2 y.val x.val,
    overDivisor (timesFactor x.val y.lost || timesFactor y.val x.lost)
      (x.val * x.val + y.val * y.val)⟩

/-- At the origin the slope is zero, whatever the operands are. -/
def hypot (a b : Probe) : Probe :=
  let h := Scalar.hypot a.val b.val
  if h == 0 then constant 0
  else ⟨h, overDivisor (timesFactor a.val a.lost || timesFactor b.val b.lost) h⟩

/-- The slope of the divisor is multiplied by the quotient. -/
def fmod (a b : Probe) : Probe :=
  ⟨Scalar.fmod a.val b.val,
    a.lost || timesFactor (Scalar.integral .towardZero (a.val / b.val)) b.lost⟩

def remainder (a b : Probe) : Probe :=
  ⟨Scalar.remainder a.val b.val,
    a.lost || timesFactor (Scalar.integral .halfEven (a.val / b.val)) b.lost⟩

def positiveDifference (a b : Probe) : Probe :=
  if b.val < a.val then a - b else constant (Scalar.positiveDifference a.val b.val)

def max (a b : Probe) : Probe := if b.val.isNaN || decide (b.val ≤ a.val) then a else b

def min (a b : Probe) : Probe := if b.val.isNaN || decide (a.val ≤ b.val) then a else b

instance : Scalar Probe where
  zero := constant 0
  ofFloat := constant
  pow := pow
  smooth := smooth
  integral := integral
  abs d := ⟨Scalar.abs d.val, d.lost⟩
  atan2 := atan2
  hypot := hypot
  fmod := fmod
  remainder := remainder
  positiveDifference := positiveDifference
  max := max
  min := min

end Probe

/-! ## Marks -/

/-- A lost slope is NaN, and one that is not lost is zero. -/
def Marks (lost : Bool) (slope : Float) : Prop :=
  if lost then slope.isNaN = true else IsZero slope

namespace Marks

open Binary64
open Probe (timesFactor overDivisor)

variable {lost lost' : Bool} {slope slope' : Float}

/-- A zero slope is one that is not lost. -/
theorem zero_iff (h : Marks lost slope) : IsZero slope ↔ lost = false := by
  cases lost with
  | false => exact iff_of_true h rfl
  | true => exact iff_of_false (not_isZero_of_isNaN h) Bool.noConfusion

/-- A NaN is one that is. -/
theorem nan_iff (h : Marks lost slope) : slope.isNaN = true ↔ lost = true := by
  cases lost with
  | false => exact iff_of_false (fun hnan => not_isZero_of_isNaN hnan h) Bool.noConfusion
  | true => exact iff_of_true h rfl

theorem zero : Marks false 0 := isZero_iff.2 (by decide +kernel)

/-- A sign changes nothing about it. -/
theorem neg (h : Marks lost slope) : Marks lost (-slope) := by
  cases lost with
  | false => exact isZero_neg h
  | true => exact isNaN_neg h

/-- A sum is lost with either part of it. -/
theorem add (h : Marks lost slope) (h' : Marks lost' slope') :
    Marks (lost || lost') (slope + slope') := by
  cases lost with
  | true => exact isNaN_add (.inl h)
  | false =>
    cases lost' with
    | true => exact isNaN_add (.inr h')
    | false => exact isZero_add h h'

/-- The slope of a difference is lost if one of the two slopes is. -/
theorem sub (h : Marks lost slope) (h' : Marks lost' slope') :
    Marks (lost || lost') (slope - slope') := by
  cases lost with
  | true => exact isNaN_sub (.inl h)
  | false =>
    cases lost' with
    | true => exact isNaN_sub (.inr h')
    | false => exact isZero_sub h h'

/-- The factor may stand on either side. -/
theorem mul (h : Marks lost slope) (factor : Float) :
    Marks (timesFactor factor lost) (factor * slope) ∧
      Marks (timesFactor factor lost) (slope * factor) := by
  cases lost with
  | true => exact ⟨isNaN_mul (.inr h), isNaN_mul (.inl h)⟩
  | false =>
    cases hfactor : factor.isFinite with
    | true =>
      simp only [timesFactor, hfactor]
      exact isZero_mul h hfactor
    | false =>
      simp only [timesFactor, hfactor]
      exact isNaN_mul_of_isZero h hfactor

/-- A quotient is lost with what is divided, or if that is a zero divided by a zero or NaN. -/
theorem div (h : Marks lost slope) (divisor : Float) :
    Marks (overDivisor lost divisor) (slope / divisor) := by
  cases lost with
  | true => exact isNaN_div h
  | false =>
    cases hdivisor : divisor == 0 || divisor.isNaN with
    | true =>
      rw [overDivisor, hdivisor]
      rw [Bool.or_eq_true, ← isZero_iff] at hdivisor
      exact isNaN_div_of_isZero h hdivisor
    | false =>
      rw [overDivisor, hdivisor]
      rw [Bool.or_eq_false_iff, ← Bool.not_eq_true, ← isZero_iff] at hdivisor
      exact isZero_div h hdivisor.1 hdivisor.2

/-- A term that is left out where its slope is zero is lost with the slope only. -/
theorem addTerm (h : Marks lost slope) (h' : Marks lost' slope') (factor : Float) :
    Marks (lost || lost') (if slope' == 0 then slope else slope + factor * slope') := by
  cases lost' with
  | false =>
    rw [if_pos (isZero_iff.1 h'), Bool.or_false]
    exact h
  | true =>
    -- a NaN is no zero, so the term is there
    have hzero : ¬ (slope' == 0) = true := isZero_iff.not.1 (not_isZero_of_isNaN h')
    rw [if_neg hzero, Bool.or_true]
    exact isNaN_add (.inr (isNaN_mul (.inr h')))

/-- Whichever of two slopes is chosen. -/
theorem ite {p : Prop} [Decidable p] (h : Marks lost slope) (h' : Marks lost slope') :
    Marks lost (if p then slope else slope') := by
  split
  · exact h
  · exact h'

end Marks

/-! ## Probes and dual numbers -/

namespace Probe

/-- The dual number has the value of the probe, and a slope as the probe notes it. -/
inductive Foretells : Probe → Dual Float → Prop where
  | intro (x : Float) {lost : Bool} {slope : Float} (h : Marks lost slope) :
    Foretells ⟨x, lost⟩ ⟨x, slope⟩

theorem foretells_constant (x : Float) : (constant x).Foretells (.constant x) := .intro x .zero

/-- Probes of constants foretell the constants one by one. -/
theorem foretells_map (xs : List Float) :
    List.Forall₂ Foretells (xs.map constant) (xs.map Dual.constant) := by
  rw [List.forall₂_map_left_iff, List.forall₂_map_right_iff, List.forall₂_same]
  exact fun x _ => foretells_constant x

/-- Both sides choose alike. -/
theorem foretells_ite {a b : Probe} {c d : Dual Float} {p q : Prop} [Decidable p] [Decidable q]
    (hpq : p ↔ q) (h : a.Foretells c) (h' : b.Foretells d) :
    (if p then a else b).Foretells (if q then c else d) := by
  -- the conditions are equivalent, so the same branch is taken
  by_cases hp : p
  · rw [if_pos hp, if_pos (hpq.1 hp)]
    exact h
  · rw [if_neg hp, if_neg (hpq.not.1 hp)]
    exact h'

/-- The five operators, each by the rule for its slope. The power leaves terms out where their slope
is zero. -/
theorem foretells_operator (op : Operator) {a b : Probe} {c d : Dual Float} :
    a.Foretells c → b.Foretells d → (op.apply a b).Foretells (op.apply c d)
  | .intro x hs, .intro y ht =>
    match op with
    | .add => .intro (x + y) (hs.add ht)
    | .sub => .intro (x - y) (hs.sub ht)
    | .mul => .intro (x * y) ((ht.mul x).1.add (hs.mul y).2)
    | .div => .intro (x / y) (((hs.mul y).2.sub (ht.mul x).1).div (y * y))
    | .pow => .intro (Scalar.pow x y) ((Marks.zero.addTerm hs _).addTerm ht _)

/-- The test whether the length is zero is one of values, which are the same on both sides. -/
theorem foretells_hypot {a b : Probe} {c d : Dual Float} :
    a.Foretells c → b.Foretells d → (hypot a b).Foretells (Dual.hypot c d)
  | .intro x hs, .intro y ht => by
    simp only [hypot, Dual.hypot]
    exact foretells_ite Iff.rfl (foretells_constant 0)
      (.intro (Scalar.hypot x y) (((hs.mul x).1.add (ht.mul y).1).div _))

/-- The positive difference tests the values only, and so takes the same branch on both sides. -/
theorem foretells_positiveDifference {a b : Probe} {c d : Dual Float} :
    a.Foretells c → b.Foretells d →
      (positiveDifference a b).Foretells (Dual.positiveDifference c d)
  | .intro x hs, .intro y ht => by
    simp only [positiveDifference, Dual.positiveDifference]
    exact foretells_ite decide_eq_true_iff.symm (.intro (x - y) (hs.sub ht))
      (foretells_constant _)

/-- What a run on probes notes is what a run on dual numbers does. -/
theorem relates_dual : Scalar.Relates Foretells where
  ofFloat := foretells_constant
  operator := foretells_operator
  neg | .intro x hs => .intro (-x) hs.neg
  smooth g _ _ | .intro x hs => .intro (Scalar.smooth g x) (hs.mul _).1
  integral _ _ _ | .intro _ _ => foretells_constant _
  abs | .intro x hs => .intro (Scalar.abs x) (hs.ite hs.neg)
  atan2
    | .intro y hs, .intro x ht =>
      .intro (Scalar.atan2 y x) (((hs.mul x).1.sub (ht.mul y).1).div (x * x + y * y))
  hypot := foretells_hypot
  fmod | .intro x hs, .intro y ht => .intro (Scalar.fmod x y) (hs.sub (ht.mul _).1)
  remainder | .intro x hs, .intro y ht => .intro (Scalar.remainder x y) (hs.sub (ht.mul _).1)
  positiveDifference := foretells_positiveDifference
  max | .intro x hs, .intro y ht => foretells_ite Iff.rfl (.intro x hs) (.intro y ht)
  min | .intro x hs, .intro y ht => foretells_ite Iff.rfl (.intro x hs) (.intro y ht)

end Probe

end FormulaMachine
