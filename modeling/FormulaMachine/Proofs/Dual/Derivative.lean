import FormulaMachine.Proofs.ByName.Ratio
import FormulaMachine.Proofs.Dual.Field

/-!
# Slopes are derivatives

A formula of literals, variables, signs and the four operations computes a rational expression in
its variables. Such an expression is a fraction of two polynomials, and has a formal derivative as
one. On dual numbers over a field, with slope one on a variable and zero on the others, the machine
computes that derivative beside the value: exactly, wherever no divisor is zero.

* `Fraction`: fractions of polynomials, their values and formal derivatives.
* `Fraction.Represents`: a dual number that has both. Each operation on dual numbers is that on
  fractions, which is where the product rule and the quotient rule come in.
* **`Ratio.represents_eval`**: a rational expression on dual numbers, by induction on it.
* **`Workspace.evaluate_eq_derivative`**: the run of a compiled formula.
-/

namespace FormulaMachine

open Elementary MvPolynomial

variable {ρ : Type} [Field ρ]

/-! ## Fractions -/

/-- A fraction of polynomials in the variables of a formula. -/
structure Fraction (ρ : Type) [Field ρ] where
  num : MvPolynomial String ρ
  den : MvPolynomial String ρ

namespace Fraction

noncomputable section

/-- A polynomial over one. -/
def ofPolynomial (p : MvPolynomial String ρ) : Fraction ρ := ⟨p, 1⟩

instance : Neg (Fraction ρ) := ⟨fun f => ⟨-f.num, f.den⟩⟩
instance : Add (Fraction ρ) := ⟨fun f g => ⟨f.num * g.den + g.num * f.den, f.den * g.den⟩⟩
instance : Sub (Fraction ρ) := ⟨fun f g => ⟨f.num * g.den - g.num * f.den, f.den * g.den⟩⟩
instance : Mul (Fraction ρ) := ⟨fun f g => ⟨f.num * g.num, f.den * g.den⟩⟩
instance : Div (Fraction ρ) := ⟨fun f g => ⟨f.num * g.den, f.den * g.num⟩⟩

/-- The value at a point. -/
def value (point : String → ρ) (f : Fraction ρ) : ρ := eval point f.num / eval point f.den

/-- The formal derivative with respect to `x`, at a point. -/
def derivative (x : String) (point : String → ρ) (f : Fraction ρ) : ρ :=
  (eval point (pderiv x f.num) * eval point f.den -
    eval point f.num * eval point (pderiv x f.den)) / eval point f.den ^ 2

end

theorem neg_def (f : Fraction ρ) : -f = ⟨-f.num, f.den⟩ := rfl

theorem add_def (f g : Fraction ρ) :
    f + g = ⟨f.num * g.den + g.num * f.den, f.den * g.den⟩ := rfl

theorem sub_def (f g : Fraction ρ) :
    f - g = ⟨f.num * g.den - g.num * f.den, f.den * g.den⟩ := rfl

theorem mul_def (f g : Fraction ρ) : f * g = ⟨f.num * g.num, f.den * g.den⟩ := rfl

theorem div_def (f g : Fraction ρ) : f / g = ⟨f.num * g.den, f.den * g.num⟩ := rfl

/-- The fraction is defined at the point, and the dual number has its value there with its
derivative as the slope. -/
structure Represents (x : String) (point : String → ρ) (f : Fraction ρ) (d : Dual ρ) : Prop where
  den : eval point f.den ≠ 0
  val : d.val = f.value point
  eps : d.eps = f.derivative x point

namespace Represents

variable {x : String} {point : String → ρ} {f g : Fraction ρ} {a b : Dual ρ}

/-- A polynomial is a fraction over one, and its derivative is that of the numerator. -/
theorem ofPolynomial (p : MvPolynomial String ρ) :
    (ofPolynomial p).Represents x point ⟨eval point p, eval point (pderiv x p)⟩ where
  den := by simp [Fraction.ofPolynomial]
  val := by simp [Fraction.ofPolynomial, value]
  eps := by simp [Fraction.ofPolynomial, derivative]

variable [LinearOrder ρ] [Elementary ρ]

/-- The rule for a sign. -/
theorem neg (h : f.Represents x point a) : (-f).Represents x point (-a) := by
  rw [Dual.neg_def, neg_def]
  constructor
  · exact h.den
  · simp only [h.val, value, map_neg]
    ring
  · simp only [h.eps, derivative, map_neg]
    ring

/-- The sum rule, over the product of the denominators. -/
theorem add (h : f.Represents x point a) (h' : g.Represents x point b) :
    (f + g).Represents x point (a + b) := by
  have hf := h.den
  have hg := h'.den
  rw [Dual.add_def, add_def]
  constructor
  · simp [hf, hg]
  · simp only [h.val, h'.val, value, map_add, map_mul]
    field_simp
  · simp only [h.eps, h'.eps, derivative, map_add, map_mul, pderiv_mul]
    field_simp
    ring

/-- The derivative of a difference is the difference of the derivatives. -/
theorem sub (h : f.Represents x point a) (h' : g.Represents x point b) :
    (f - g).Represents x point (a - b) := by
  have hf := h.den
  have hg := h'.den
  rw [Dual.sub_def, sub_def]
  constructor
  · simp [hf, hg]
  · simp only [h.val, h'.val, value, map_sub, map_mul]
    field_simp
  · simp only [h.eps, h'.eps, derivative, map_add, map_sub, map_mul, pderiv_mul]
    field_simp
    ring

/-- The product rule. -/
theorem mul (h : f.Represents x point a) (h' : g.Represents x point b) :
    (f * g).Represents x point (a * b) := by
  have hf := h.den
  have hg := h'.den
  rw [Dual.mul_def, mul_def]
  constructor
  · simp [hf, hg]
  · simp only [h.val, h'.val, value, map_mul]
    field_simp
  · simp only [h.val, h.eps, h'.val, h'.eps, value, derivative, map_add, map_mul, pderiv_mul]
    field_simp
    ring

/-- The quotient rule. The numerator of the divisor comes into the denominator. -/
theorem div (h : f.Represents x point a) (h' : g.Represents x point b) (hb : b.val ≠ 0) :
    (f / g).Represents x point (a / b) := by
  have hf := h.den
  have hg := h'.den
  -- the value of the divisor is not zero, so its numerator is not
  have hnum : eval point g.num ≠ 0 := by
    rw [h'.val] at hb
    exact (div_ne_zero_iff.1 hb).1
  rw [Dual.div_def, div_def]
  constructor
  · simp [hf, hnum]
  · simp only [h.val, h'.val, value, map_mul]
    field_simp
  · simp only [h.val, h.eps, h'.val, h'.eps, value, derivative, map_add, map_mul, pderiv_mul]
    field_simp
    ring

end Represents

end Fraction

/-! ## Rational expressions on dual numbers -/

/-- Dual numbers with slope one on `x` and zero elsewhere. -/
def seed (x : String) (point : String → ρ) (name : String) : Dual ρ :=
  ⟨point name, if name = x then 1 else 0⟩

namespace Ratio

variable [Elementary ρ]

/-- The expression as a fraction of polynomials. -/
noncomputable def fraction : Ratio → Fraction ρ
  | literal value => .ofPolynomial (C (ofFloat value))
  | var name => .ofPolynomial (X name)
  | neg a => -a.fraction
  | add a b => a.fraction + b.fraction
  | sub a b => a.fraction - b.fraction
  | mul a b => a.fraction * b.fraction
  | div a b => a.fraction / b.fraction

variable [LinearOrder ρ] {x : String} {point : String → ρ}

/-- No divisor in the expression has the value zero. -/
def Defined (point : String → ρ) : Ratio → Prop
  | literal _ | var _ => True
  | neg a => a.Defined point
  | add a b | sub a b | mul a b => a.Defined point ∧ b.Defined point
  | div a b => a.Defined point ∧ b.Defined point ∧ b.eval point ≠ 0

/-- Slopes do not show in values. -/
theorem val_eval_seed (r : Ratio) : (r.eval (seed x point)).val = r.eval point := by
  induction r with
  | literal value => rfl
  | var name => rfl
  | neg a ih => exact congrArg (-·) ih
  | add a b iha ihb => exact congrArg₂ (· + ·) iha ihb
  | sub a b iha ihb => exact congrArg₂ (· - ·) iha ihb
  | mul a b iha ihb => exact congrArg₂ (· * ·) iha ihb
  | div a b iha ihb => exact congrArg₂ (· / ·) iha ihb

/-- On dual numbers with these seeds, the value of a rational expression comes with its formal
derivative. Its divisors are the only places where it could fail. -/
theorem represents_eval {r : Ratio} (h : r.Defined point) :
    r.fraction.Represents x point (r.eval (seed x point)) := by
  induction r with
  | literal value =>
    -- the derivative of a literal is zero
    have hliteral : Fraction.Represents x point _ _ := .ofPolynomial (C (ofFloat value))
    rw [eval_C, pderiv_C, map_zero] at hliteral
    exact hliteral
  | var name =>
    -- that of a variable is one for `x` and zero for the others
    have hvar : Fraction.Represents x point _ _ := .ofPolynomial (X name)
    rw [eval_X, pderiv_X, Pi.single_apply, apply_ite (MvPolynomial.eval point), map_one,
      map_zero] at hvar
    exact hvar
  | neg a ih => exact (ih h).neg
  | add a b iha ihb => exact (iha h.1).add (ihb h.2)
  | sub a b iha ihb => exact (iha h.1).sub (ihb h.2)
  | mul a b iha ihb => exact (iha h.1).mul (ihb h.2)
  | div a b iha ihb =>
    -- the divisor has the same value with slopes as without
    have hdivisor : (b.eval (seed x point)).val ≠ 0 := by
      rw [val_eval_seed]
      exact h.2.2
    exact (iha h.1).div (ihb h.2.1) hdivisor

end Ratio

/-! ## Compiled formulas -/

variable [LinearOrder ρ] [Elementary ρ]

/-- A compiled formula of literals, variables, signs and the four operations, in a workspace with
slope one on `x` and zero everywhere else, computes the value of a rational expression, that of the
formula with its assignments substituted. If no divisor in it is zero, the slope is the formal
derivative of the expression with respect to `x`. -/
theorem Workspace.evaluate_eq_derivative {options : Options} {table : NameTable} {source : String}
    {program : Program} (hcompile : Program.compile options table source = .ok program)
    (harithmetic : program.formula.Arithmetic) (w : Workspace (Dual ρ))
    (hnames : program.names.names <+: w.names.names) {x : String} {point : String → ρ}
    (hseed : w.values = seed x point) :
    ∃ r d, (program.formula.folded options).ratio? options table.names = some r ∧
      (w.evaluate program).1 = .ok d ∧ d.val = r.eval point ∧
      (r.Defined point →
        d.val = r.fraction.value point ∧ d.eps = r.fraction.derivative x point) := by
  obtain ⟨r, hr, heval⟩ := w.evaluate_eq_ratio hcompile harithmetic hnames
  rw [hseed] at heval
  refine ⟨r, _, hr, heval, r.val_eval_seed, fun hdefined => ?_⟩
  have hrepresents : r.fraction.Represents x point _ := Ratio.represents_eval hdefined
  exact ⟨hrepresents.val, hrepresents.eps⟩

/-- A formula whose first statement carries a slope to the second one. -/
def squaredQuotient : Program :=
  ⟨"y = a / b; y * y - a", ⟨[.assign "y" (.binary .div (.var "a") (.var "b")),
      .result (.binary .sub (.binary .mul (.var "y") (.var "y")) (.var "a"))]⟩,
    [.load 0, .load 1, .binary .div, .store 2, .load 2, .load 2, .binary .mul, .load 0,
      .binary .sub], ⟨["a", "b", "y"], by decide⟩⟩

set_option maxRecDepth 10000 in
/-- What the text is compiled to. -/
theorem compile_squaredQuotient :
    Program.compile {} ⟨["a", "b"], by decide⟩ "y = a / b; y * y - a" = .ok squaredQuotient := by
  have hparse : Formula.parse squaredQuotient.source = .ok squaredQuotient.formula := by cbv
  show Program.compile {} ⟨["a", "b"], by decide⟩ squaredQuotient.source = _
  rw [Program.compile, hparse]
  rfl

/-- The square of `a / b` without `a`, and its derivative with respect to `b`. -/
theorem Workspace.evaluate_eq_derivative_of_quotient :
    let w : Workspace (Dual ℚ) :=
      ⟨[], ⟨["a", "b", "y"], by decide⟩, [⟨3, 0⟩, ⟨2, 1⟩, ⟨0, 0⟩], .empty⟩
    let point : String → ℚ := fun name => if name = "a" then 3 else if name = "b" then 2 else 0
    let quotient : Ratio := .div (.var "a") (.var "b")
    let r : Ratio := .sub (.mul quotient quotient) (.var "a")
    Program.compile {} ⟨["a", "b"], by decide⟩ "y = a / b; y * y - a" = .ok squaredQuotient ∧
      squaredQuotient.formula.Arithmetic ∧ w.values = seed "b" point ∧ r.Defined point ∧
      (w.evaluate squaredQuotient).1 = .ok ⟨-3 / 4, -9 / 4⟩ ∧
      r.fraction.derivative "b" point = -9 / 4 := by
  intro w point quotient r
  have hseed : w.values = seed "b" point := by
    funext name
    by_cases ha : name = "a"
    · subst ha; rfl
    by_cases hb : name = "b"
    · subst hb; rfl
    by_cases hy : name = "y"
    · subst hy; rfl
    have hnone : w.names.address? name = none := by
      rw [NameTable.address?_eq_none_iff]
      simp [w, ha, hb, hy]
    have hvalue : w.values name = ⟨0, 0⟩ := by
      show ((w.names.address? name).bind _).getD _ = _
      rw [hnone]
      rfl
    rw [hvalue, seed, if_neg hb]
    simp [point, ha, hb]
  have harithmetic : squaredQuotient.formula.Arithmetic := by
    refine ⟨?_, _, List.mem_cons_of_mem _ (List.mem_singleton_self _)⟩
    simp [squaredQuotient, Statement.expr, Expr.Arithmetic]
  obtain ⟨r', d, hr', hd, -, hderivative⟩ := w.evaluate_eq_derivative compile_squaredQuotient
    harithmetic (List.prefix_refl _) hseed
  obtain rfl : r = r' := Option.some.inj hr'
  have hdefined : r.Defined point := by
    simp [r, quotient, Ratio.Defined, Ratio.eval, point]
  have hrun : (w.evaluate squaredQuotient).1 = .ok ⟨-3 / 4, -9 / 4⟩ := by
    -- the value and the slope of `y`
    let v : ℚ := 3 / 2
    let e : ℚ := (0 * 2 - 3 * 1) / (2 * 2)
    show Except.ok (Dual.mk (v * v - 3) (v * e + e * v - 0)) = _
    norm_num [v, e]
  obtain rfl : ⟨-3 / 4, -9 / 4⟩ = d := Except.ok.inj (hrun.symm.trans hd)
  exact ⟨compile_squaredQuotient, harithmetic, hseed, hdefined, hrun,
    (hderivative hdefined).2.symm⟩

end FormulaMachine
