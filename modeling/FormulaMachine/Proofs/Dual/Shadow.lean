import FormulaMachine.Proofs.Dual.Probe

/-!
# Slopes that may get lost

Two computations on dual numbers start with the same values and the same slopes, except that some
slopes of the second one are NaN or a zero of the other sign. The values stay the same then, since no
value depends on a slope, and a slope of the second one can only be the same number or NaN: slopes
are added, multiplied by values and divided by values, and a NaN stays a NaN in that.

* `Shadows`: the same number, or NaN on the right where slopes may get lost.
* **`Dual.relates_follows`**: every operation keeps values the same and slopes in the shadow.
-/

namespace FormulaMachine

open Binary64 (SameNumber)

/-- The same number, or, if slopes may get lost, a NaN. -/
def Shadows (lossy : Bool) (slope slope' : Float) : Prop :=
  SameNumber slope slope' ∨ lossy = true ∧ slope'.isNaN = true

namespace Shadows

open Binary64

variable {lossy : Bool} {a b a' b' : Float}

theorem refl (a : Float) : Shadows lossy a a := .inl (.refl a)

/-- A NaN stays one with the other sign. -/
theorem neg (h : Shadows lossy a a') : Shadows lossy (-a) (-a') :=
  h.imp SameNumber.neg fun hlost => ⟨hlost.1, isNaN_neg hlost.2⟩

/-- A sum with a lost slope is NaN; without one it is the same number. -/
theorem add (ha : Shadows lossy a a') (hb : Shadows lossy b b') :
    Shadows lossy (a + b) (a' + b') := by
  obtain ha | ⟨hlossy, ha⟩ := ha
  · exact hb.imp ha.add fun hlost => ⟨hlost.1, isNaN_add (.inr hlost.2)⟩
  · exact .inr ⟨hlossy, isNaN_add (.inl ha)⟩

/-- A difference with a lost slope is NaN; without one it is the same number. -/
theorem sub (ha : Shadows lossy a a') (hb : Shadows lossy b b') :
    Shadows lossy (a - b) (a' - b') := by
  obtain ha | ⟨hlossy, ha⟩ := ha
  · exact hb.imp ha.sub fun hlost => ⟨hlost.1, isNaN_sub (.inr hlost.2)⟩
  · exact .inr ⟨hlossy, isNaN_sub (.inl ha)⟩

/-- The factor may stand on either side. -/
theorem mul (h : Shadows lossy a a') (factor : Float) :
    Shadows lossy (factor * a) (factor * a') ∧ Shadows lossy (a * factor) (a' * factor) := by
  obtain h | ⟨hlossy, h⟩ := h
  · exact ⟨.inl (h.mul factor).1, .inl (h.mul factor).2⟩
  · exact ⟨.inr ⟨hlossy, isNaN_mul (.inr h)⟩, .inr ⟨hlossy, isNaN_mul (.inl h)⟩⟩

/-- The divisor is a value, and so the same on both sides. -/
theorem div (h : Shadows lossy a a') (divisor : Float) :
    Shadows lossy (a / divisor) (a' / divisor) :=
  h.imp (·.div divisor) fun hlost => ⟨hlost.1, isNaN_div hlost.2⟩

/-- A term that is left out where its slope is zero. -/
theorem addTerm (ha : Shadows lossy a a') (hb : Shadows lossy b b') (factor : Float) :
    Shadows lossy (if b == 0 then a else a + factor * b)
      (if b' == 0 then a' else a' + factor * b') := by
  obtain hsame | ⟨hlossy, hnan⟩ := hb
  -- both terms are left out, or neither is
  · by_cases hzero : (b == 0) = true
    · rw [if_pos hzero, if_pos (isZero_iff.1 (hsame.isZero_iff.1 (isZero_iff.2 hzero)))]
      exact ha
    · have hzero' : ¬ (b' == 0) = true := fun h =>
        hzero (isZero_iff.1 (hsame.isZero_iff.2 (isZero_iff.2 h)))
      rw [if_neg hzero, if_neg hzero']
      exact ha.add (.inl (hsame.mul factor).1)
  · have hzero : ¬ (b' == 0) = true := isZero_iff.not.1 (not_isZero_of_isNaN hnan)
    rw [if_neg hzero]
    exact .inr ⟨hlossy, isNaN_add (.inr (isNaN_mul (.inr hnan)))⟩

/-- Whichever of two slopes is chosen. -/
theorem ite {p : Prop} [Decidable p] (ha : Shadows lossy a a') (hb : Shadows lossy b b') :
    Shadows lossy (if p then a else b) (if p then a' else b') := by
  split
  · exact ha
  · exact hb

end Shadows

namespace Dual

/-- The same value, and a slope in the shadow of the other one. -/
inductive Follows (lossy : Bool) : Dual Float → Dual Float → Prop where
  | intro (x : Float) {slope slope' : Float} (h : Shadows lossy slope slope') :
    Follows lossy ⟨x, slope⟩ ⟨x, slope'⟩

variable {lossy : Bool} {a b c d : Dual Float}

theorem Follows.refl (d : Dual Float) : Follows lossy d d := .intro d.val (.refl d.eps)

theorem Follows.eps (h : Follows lossy a b) : Shadows lossy a.eps b.eps := by
  obtain ⟨x, hslope⟩ := h
  exact hslope

/-- Both sides choose alike, since conditions are about values. -/
theorem follows_ite {p : Prop} [Decidable p] (h : Follows lossy a c) (h' : Follows lossy b d) :
    Follows lossy (if p then a else b) (if p then c else d) := by
  split
  · exact h
  · exact h'

/-- The five operators, each by the rule for its slope. -/
theorem follows_operator (op : Operator) :
    Follows lossy a c → Follows lossy b d → Follows lossy (op.apply a b) (op.apply c d)
  | .intro x hs, .intro y ht =>
    match op with
    | .add => .intro (x + y) (hs.add ht)
    | .sub => .intro (x - y) (hs.sub ht)
    | .mul => .intro (x * y) ((ht.mul x).1.add (hs.mul y).2)
    | .div => .intro (x / y) (((hs.mul y).2.sub (ht.mul x).1).div (y * y))
    | .pow => .intro (Scalar.pow x y) (((Shadows.refl 0).addTerm hs _).addTerm ht _)

/-- At the origin both slopes are zero; elsewhere the rule is one of products, a sum and a quotient.
-/
theorem follows_hypot :
    Follows lossy a c → Follows lossy b d → Follows lossy (hypot a b) (hypot c d)
  | .intro x hs, .intro y ht => by
    simp only [hypot]
    exact follows_ite (.refl _)
      (.intro (Scalar.hypot x y) (((hs.mul x).1.add (ht.mul y).1).div _))

/-- The difference, or a constant. -/
theorem follows_positiveDifference :
    Follows lossy a c → Follows lossy b d →
      Follows lossy (positiveDifference a b) (positiveDifference c d)
  | .intro x hs, .intro y ht => by
    simp only [positiveDifference]
    exact follows_ite (.intro (x - y) (hs.sub ht)) (.refl _)

/-- Slopes get lost at most: whatever is computed from dual numbers of which one follows the other
follows too. -/
theorem relates_follows (lossy : Bool) : Scalar.Relates (Follows lossy) where
  ofFloat _ := .refl _
  operator op _ _ _ _ := follows_operator op
  neg | .intro x hs => .intro (-x) hs.neg
  smooth g _ _ | .intro x hs => .intro (Scalar.smooth g x) (hs.mul _).1
  integral _ _ _ | .intro _ _ => .refl _
  abs | .intro x hs => .intro (Scalar.abs x) (hs.ite hs.neg)
  atan2
    | .intro y hs, .intro x ht =>
      .intro (Scalar.atan2 y x) (((hs.mul x).1.sub (ht.mul y).1).div (x * x + y * y))
  hypot := follows_hypot
  fmod | .intro x hs, .intro y ht => .intro (Scalar.fmod x y) (hs.sub (ht.mul _).1)
  remainder | .intro x hs, .intro y ht => .intro (Scalar.remainder x y) (hs.sub (ht.mul _).1)
  positiveDifference := follows_positiveDifference
  max | .intro x hs, .intro y ht => follows_ite (.intro x hs) (.intro y ht)
  min | .intro x hs, .intro y ht => follows_ite (.intro x hs) (.intro y ht)

end Dual

end FormulaMachine
