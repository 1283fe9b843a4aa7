import FormulaMachine.Proofs.ByName.Simulation
import FormulaMachine.Proofs.Code.FoldedFormula
import FormulaMachine.Proofs.Names.Session

/-!
# Formulas as rational expressions

A formula of literals, variables, signs and the four operations computes a rational expression in
the values that its variables have at the start. The expression is what is left when every
assignment is substituted for the readings behind it; it can be computed on any scalar type.

* `Ratio`: rational expressions.
* `Formula.ratio?`: the expression that a formula computes.
* **`Workspace.evaluate_eq_ratio`**: a compiled formula evaluates to the value of its expression.
-/

namespace FormulaMachine

/-! ## Rational expressions -/

/-- Literals and variables under the four operations. -/
inductive Ratio where
  | literal (value : Float)
  | var (name : String)
  | neg (operand : Ratio)
  | add (left right : Ratio)
  | sub (left right : Ratio)
  | mul (left right : Ratio)
  | div (left right : Ratio)

/-- The value of a rational expression, for given values of the variables. -/
def Ratio.eval {α : Type} [Scalar α] (values : String → α) : Ratio → α
  | literal value => Scalar.ofFloat value
  | var name => values name
  | neg a => -a.eval values
  | add a b => a.eval values + b.eval values
  | sub a b => a.eval values - b.eval values
  | mul a b => a.eval values * b.eval values
  | div a b => a.eval values / b.eval values

/-- Two rational expressions under an operator; a power is none. -/
def Operator.ratio? : Operator → Ratio → Ratio → Option Ratio
  | add, a, b => some (.add a b)
  | sub, a, b => some (.sub a b)
  | mul, a, b => some (.mul a b)
  | div, a, b => some (.div a b)
  | pow, _, _ => none

namespace Expr

/-- Whether the expression is built from literals and variables with signs and the four
operations. -/
def Arithmetic : Expr → Prop
  | number _ | var _ => True
  | binary op left right => op ≠ .pow ∧ left.Arithmetic ∧ right.Arithmetic
  | negate operand => operand.Arithmetic
  | call _ _ => False

/-- The rational expression for the value, where each variable stands for the expression that `σ`
has for it. The names in `known` stand for no constant. -/
def ratio? (options : Options) (known : List String) (σ : String → Ratio) : Expr → Option Ratio
  | number value => some (.literal value)
  | var name =>
    match constantBeside? options known name with
    | some value => some (.literal value)
    | none => some (σ name)
  | binary op left right =>
    match left.ratio? options known σ, right.ratio? options known σ with
    | some a, some b => op.ratio? a b
    | _, _ => none
  | negate operand => (operand.ratio? options known σ).map .neg
  | call _ _ => none

end Expr

namespace Statement

/-- The rational expressions for the results, each assignment substituted in what follows. -/
def ratios? (options : Options) (known : List String) (σ : String → Ratio) :
    List Statement → Option (List Ratio)
  | [] => some []
  | result value :: rest =>
    match value.ratio? options known σ with
    | some r => (ratios? options known σ rest).map (r :: ·)
    | none => none
  | assign name value :: rest =>
    match value.ratio? options known σ with
    | some r => ratios? options (name :: known) (Function.update σ name r) rest
    | none => none

end Statement

/-- The rational expression that a formula computes, in the variables as they are at the start: that
of its last result. -/
def Formula.ratio? (options : Options) (known : List String) (formula : Formula) : Option Ratio :=
  (Statement.ratios? options known .var formula.statements).bind List.getLast?

/-! ## Formulas that compute one -/

/-- Whether the formula has a result and all its expressions are arithmetic. -/
structure Formula.Arithmetic (formula : Formula) : Prop where
  exprs : ∀ s ∈ formula.statements, s.expr.Arithmetic
  result : ∃ e, .result e ∈ formula.statements

namespace Expr

variable {options : Options}

/-- Every arithmetic expression has a rational expression for its value: a name stands for a
constant or for what has been substituted for it. -/
theorem exists_ratio? (options : Options) (known : List String) (σ : String → Ratio) {e : Expr}
    (h : e.Arithmetic) : ∃ r, e.ratio? options known σ = some r := by
  induction e using nested_induction with
  | number value => exact ⟨_, rfl⟩
  | var name =>
    rw [ratio?]
    split <;> exact ⟨_, rfl⟩
  | binary op left right ihl ihr =>
    obtain ⟨hop, hleft, hright⟩ := h
    obtain ⟨a, ha⟩ := ihl hleft
    obtain ⟨b, hb⟩ := ihr hright
    simp only [ratio?, ha, hb]
    cases op with
    | pow => exact absurd rfl hop
    | add | sub | mul | div => exact ⟨_, rfl⟩
  | negate operand ih =>
    obtain ⟨a, ha⟩ := ih h
    exact ⟨.neg a, by rw [ratio?, ha]; rfl⟩
  | call function arguments => exact h.elim

/-- Folding puts literals in the place of operations, so what was arithmetic stays so. -/
theorem Arithmetic.folded {e : Expr} (h : e.Arithmetic) : (e.folded options).Arithmetic := by
  -- either the whole expression becomes a literal, or folding goes on in its parts
  induction e using nested_induction with
  | number value =>
    unfold Expr.folded
    split <;> trivial
  | var name =>
    unfold Expr.folded
    split <;> trivial
  | binary op left right ihl ihr =>
    unfold Expr.folded
    split
    · trivial
    · exact ⟨h.1, ihl h.2.1, ihr h.2.2⟩
  | negate operand ih =>
    unfold Expr.folded
    split
    · trivial
    · exact ih h
  | call function arguments => exact h.elim

end Expr

namespace Statement

/-- Arithmetic statements have rational expressions for their results, one at least if there is a
result. -/
theorem exists_ratios? (options : Options) (known : List String) (σ : String → Ratio)
    {ss : List Statement} (h : ∀ s ∈ ss, s.expr.Arithmetic) :
    ∃ rs, ratios? options known σ ss = some rs ∧ ((∃ e, .result e ∈ ss) → rs ≠ []) := by
  induction ss generalizing known σ with
  | nil => exact ⟨[], rfl, fun ⟨_, he⟩ => nomatch he⟩
  | cons s rest ih =>
    obtain ⟨hvalue, hrest⟩ := List.forall_mem_cons.1 h
    cases s with
    | assign name value =>
      obtain ⟨r, hr⟩ := value.exists_ratio? options known σ hvalue
      obtain ⟨rs, hrs, hne⟩ := ih (name :: known) (Function.update σ name r) hrest
      refine ⟨rs, by rw [ratios?, hr]; exact hrs, fun ⟨e, he⟩ => hne ⟨e, ?_⟩⟩
      -- an assignment is no result, so the result is among the rest
      exact (List.mem_cons.1 he).resolve_left fun heq => nomatch heq
    | result value =>
      obtain ⟨r, hr⟩ := value.exists_ratio? options known σ hvalue
      obtain ⟨rs, hrs, -⟩ := ih known σ hrest
      exact ⟨r :: rs, by rw [ratios?, hr, hrs]; rfl, fun _ => List.cons_ne_nil r rs⟩

end Statement

namespace Formula.Arithmetic

variable {options : Options} {known : List String} {formula : Formula}

/-- Folding keeps the statements and their kinds, and arithmetic expressions arithmetic. -/
theorem folded (h : formula.Arithmetic) : (formula.folded options).Arithmetic := by
  refine ⟨fun s' hs' => ?_, ?_⟩
  · obtain ⟨s, hs, rfl⟩ := List.mem_map.1 hs'
    rw [Statement.expr_folded]
    exact (h.exprs s hs).folded
  · obtain ⟨e, he⟩ := h.result
    exact ⟨_, List.mem_map_of_mem he⟩

/-- An arithmetic formula computes a rational expression, that of its last result. -/
theorem exists_ratio? (h : formula.Arithmetic) : ∃ r, formula.ratio? options known = some r := by
  obtain ⟨rs, hrs, hne⟩ := Statement.exists_ratios? options known .var h.exprs
  refine ⟨rs.getLast (hne h.result), ?_⟩
  rw [ratio?, hrs]
  exact List.getLast?_eq_some_getLast (hne h.result)

end Formula.Arithmetic

/-! ## Their values -/

section

variable {α : Type} [Scalar α] {options options' : Options} {functions : FunctionTable α}
  {values start : String → α} {vars known : List String} {σ : String → Ratio}

/-- Beside the variables of an evaluation the same names are constants as beside those in `known`,
with the options of the one and of the other. -/
def LeavesSame (options' options : Options) (vars known : List String) : Prop :=
  ∀ name, constantBeside? options' vars name = constantBeside? options known name

/-- A name that becomes a variable on both sides is no constant on either. About all other names
both sides agree as before. -/
theorem LeavesSame.insert {known' : List String} {name : String}
    (h : LeavesSame options' options vars known)
    (hsame : ∀ other, other ≠ name →
      constantBeside? options known' other = constantBeside? options known other)
    (hname : constantBeside? options known' name = none) :
    LeavesSame options' options (vars.insert name) known' := by
  intro other
  by_cases hother : other = name
  · rw [hother, hname]
    exact constantBeside?_of_mem (List.mem_insert_self ..)
  · rw [hsame other hother, ← h other]
    exact constantBeside?_congr (by rw [List.mem_insert_iff, or_iff_right hother])

/-- An operator on rational expressions has the value of the operator on their values. -/
theorem Operator.eval_ratio? {op : Operator} {a b r : Ratio} (h : op.ratio? a b = some r) :
    r.eval start = op.apply (a.eval start) (b.eval start) := by
  cases op <;> cases h <;> rfl

/-- By name, too, an expression has the value of its rational expression. -/
theorem Expr.eval_of_ratio? (functions : FunctionTable α) {e : Expr} {r : Ratio}
    (hvalues : ∀ name, values name = (σ name).eval start)
    (h : e.ratio? options known σ = some r) (hleaves : LeavesSame options' options vars known) :
    ∃ vars', e.eval options' functions values vars = .ok (r.eval start, vars') ∧
      LeavesSame options' options vars' known := by
  induction e using nested_induction generalizing r vars with
  | number value =>
    cases h
    exact ⟨vars, rfl, hleaves⟩
  | var name =>
    rw [eval, hleaves name]
    rw [ratio?] at h
    cases hconstant : constantBeside? options known name with
    | some value =>
      rw [hconstant] at h
      cases h
      exact ⟨vars, rfl, hleaves⟩
    | none =>
      rw [hconstant] at h
      cases h
      -- a name that is read and no constant is a variable from then on
      exact ⟨vars.insert name, by rw [hvalues], hleaves.insert (fun _ _ => rfl) hconstant⟩
  | binary op left right ihl ihr =>
    rw [ratio?] at h
    split at h
    · next a b ha hb =>
      obtain ⟨vars₁, hleft, hleaves₁⟩ := ihl ha hleaves
      obtain ⟨vars₂, hright, hleaves₂⟩ := ihr hb hleaves₁
      exact ⟨vars₂, by simp only [eval, hleft, hright, Operator.eval_ratio? h], hleaves₂⟩
    · cases h
  | negate operand ih =>
    obtain ⟨a, ha, rfl⟩ := Option.map_eq_some_iff.1 h
    obtain ⟨vars', hoperand, hleaves'⟩ := ih ha hleaves
    exact ⟨vars', by simp only [eval, hoperand, Ratio.eval], hleaves'⟩
  | call function arguments => cases h

/-- By name, statements have the values of their rational expressions, if the variables have the
values of what is substituted for them. An assignment changes both: the variable, and what stands
for it. -/
theorem Statement.evalAll_of_ratios? {ss : List Statement} {rs : List Ratio} {env : Environment α}
    (hvalues : ∀ name, env.values name = (σ name).eval start)
    (h : ratios? options known σ ss = some rs)
    (hleaves : LeavesSame options' options env.vars known) :
    (evalAll options' functions env ss).1 = .ok (rs.map (Ratio.eval start)) := by
  induction ss generalizing known σ rs env with
  | nil =>
    cases h
    rfl
  | cons s rest ih =>
    cases s with
    | result value =>
      rw [ratios?] at h
      split at h
      · next r hr =>
        obtain ⟨rs', hrs', rfl⟩ := Option.map_eq_some_iff.1 h
        obtain ⟨vars', hvalue, hleaves'⟩ := Expr.eval_of_ratio? functions hvalues hr hleaves
        have hrest : (evalAll options' functions { env with vars := vars' } rest).1 =
            .ok (rs'.map (Ratio.eval start)) := ih hvalues hrs' hleaves'
        simp only [evalAll, hvalue, hrest]
        rfl
      · cases h
    | assign name value =>
      rw [ratios?] at h
      split at h
      · next r hr =>
        obtain ⟨vars', hvalue, hleaves'⟩ := Expr.eval_of_ratio? functions hvalues hr hleaves
        have hassigned : ∀ other, (Environment.assign { env with vars := vars' } name
            (r.eval start)).values other = (Function.update σ name r other).eval start := by
          intro other
          -- at the assigned name both are the new value, elsewhere both are as before
          by_cases hother : other = name <;>
            simp [Environment.assign, Function.update, hother, hvalues]
        have hknown : LeavesSame options' options (vars'.insert name) (name :: known) :=
          hleaves'.insert
            (fun _ hother => constantBeside?_cons_of_ne hother)
            (constantBeside?_of_mem (List.mem_cons_self ..))
        simp only [evalAll, hvalue]
        exact ih hassigned h hknown
      · cases h

/-- Where evaluation by name succeeds, code that was not folded leaves its results on the stack. -/
theorem Workspace.run_of_eval {formula : Formula} {table : NameTable} {program : Program}
    {w : Workspace α} {results : List α} (hfold : options.foldConstants = false)
    (hemit : formula.emit options table = (program.code, program.names))
    (hnames : program.names.names <+: w.names.names)
    (heval : (formula.eval options w.functions ⟨w.values, table.names⟩).1 = .ok results) :
    (w.run program).1 = .ok () ∧ (w.run program).2.stack = results.reverse := by
  obtain ⟨hcode, hprogram⟩ := Prod.mk.inj hemit
  have hends : EndsAs w.names [] (Machine.exec w.functions ⟨[], w.grow.slots⟩ _)
      (formula.eval options w.functions ⟨w.values, table.names⟩) :=
    Statement.exec_emitAll hfold formula.statements table ⟨w.values, table.names⟩ [] w.grow.slots
      (fun _ => Iff.rfl) w.holds_grow (hprogram ▸ hnames)
  rcases hev : formula.eval options w.functions ⟨w.values, table.names⟩ with ⟨outcome, env⟩
  rw [hev] at hends heval
  obtain rfl : outcome = .ok results := heval
  rw [run_eq_exec, ← hcode]
  exact ⟨hends.1, hends.2.1.trans (List.append_nil _)⟩

/-- A compiled formula evaluates to the value of its rational expression, whatever the scalars
are. -/
theorem Workspace.evaluate_eq_ratio {table : NameTable} {source : String} {program : Program}
    (hcompile : Program.compile options table source = .ok program)
    (harithmetic : program.formula.Arithmetic) (w : Workspace α)
    (hnames : program.names.names <+: w.names.names) :
    ∃ r, (program.formula.folded options).ratio? options table.names = some r ∧
      (w.evaluate program).1 = .ok (r.eval w.values) := by
  obtain ⟨r, hr⟩ := harithmetic.folded.exists_ratio?
  refine ⟨r, hr, ?_⟩
  obtain ⟨rs, hrs, hlast⟩ := Option.bind_eq_some_iff.1 hr
  -- folded or not, the code is that of the folded formula without folding
  have hemit : (program.formula.folded options).emit options.unfolding table =
      (program.code, program.names) :=
    (program.formula.emit_folded options table).trans (Program.eq_emit_of_compile hcompile).symm
  have heval : ((program.formula.folded options).eval options.unfolding w.functions
      ⟨w.values, table.names⟩).1 = .ok (rs.map (Ratio.eval w.values)) :=
    Statement.evalAll_of_ratios? (fun _ => rfl) hrs fun _ => rfl
  obtain ⟨hok, hstack⟩ := run_of_eval rfl hemit hnames heval
  rw [evaluate_of_run_ok hok, hstack, List.head?_reverse, List.getLast?_map, hlast]
  rfl

end

end FormulaMachine
