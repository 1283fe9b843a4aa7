import FormulaMachine.Proofs.Machine.Dependence
import FormulaMachine.Proofs.Names.Emission

/-!
# Literals on scalars

An expression without names has a value on every scalar type: its literals are constants of that
type, and its operations are those of that type. Unfolded code computes this value; folded code has
the value on doubles in its place, as a constant. So folding shows in a run as far as the one differs
from the other, and nowhere else.

* `Expr.literalOn?`: the value of an expression without names on a scalar type.
* **`Expr.emit_literal`**: unfolded code leaves this value on the stack and does nothing else.
* **`Expr.related_emission`**, **`Formula.related_emission`**: with and without folding, emission
  leaves the same table and code that runs alike, up to a relation between a folded constant and the
  value in its place.
-/

namespace FormulaMachine

variable {α β : Type} [Scalar α] [Scalar β] {r : α → β → Prop}

namespace Expr

/-! ## Values of literals -/

/-- The value of an expression whose leaves are all literals on a scalar type. -/
def literalOn? (α : Type) [Scalar α] : Expr → Option α
  | number value => some (Scalar.ofFloat value)
  | binary op left right =>
    match left.literalOn? α, right.literalOn? α with
    | some a, some b => some (op.apply a b)
    | _, _ => none
  | negate operand => (operand.literalOn? α).map (-·)
  | var _ | call _ _ => none

/-- A value under an operator comes from values of both operands. -/
theorem literalOn?_binary {op : Operator} {left right : Expr} {value : α}
    (h : (binary op left right).literalOn? α = some value) :
    ∃ a b, left.literalOn? α = some a ∧ right.literalOn? α = some b ∧ op.apply a b = value := by
  rw [literalOn?] at h
  split at h
  · next a b ha hb => exact ⟨a, b, ha, hb, Option.some.inj h⟩
  · cases h

/-- On doubles it is the value that folding computes. -/
theorem literalOn?_float (e : Expr) : e.literalOn? Float = e.literalValue? := by
  induction e using nested_induction with
  | number value => rfl
  | var name => rfl
  | call function arguments => rfl
  | negate operand ih => rw [literalOn?, literalValue?, ih]
  | binary op left right ihl ihr =>
    rw [literalOn?, literalValue?, ihl, ihr]
    cases left.literalValue? <;> cases right.literalValue? <;> rfl

/-- Related scalars give related values. -/
theorem literalOn?_related (hr : Scalar.Relates r) (e : Expr) :
    Option.Rel r (e.literalOn? α) (e.literalOn? β) := by
  induction e using nested_induction with
  | number value => exact .some (hr.ofFloat value)
  | var name => exact .none
  | call function arguments => exact .none
  | negate operand ih =>
    rw [literalOn?, literalOn?]
    generalize operand.literalOn? α = a, operand.literalOn? β = b at ih ⊢
    cases ih with
    | none => exact .none
    | some h => exact .some (hr.neg h)
  | binary op left right ihl ihr =>
    rw [literalOn?, literalOn?]
    generalize left.literalOn? α = a, left.literalOn? β = b at ihl ⊢
    generalize right.literalOn? α = a', right.literalOn? β = b' at ihr ⊢
    -- there is a value if both operands have one, on either scalar type
    cases ihl with
    | none => exact .none
    | some hleft =>
      cases ihr with
      | none => exact .none
      | some hright => exact .some (hr.operator op hleft hright)

variable {options : Options}

/-- Unfolded code computes the value, whatever else the machine holds, and resolves no name. -/
theorem emit_literal (hplain : options.foldConstants = false) (e : Expr) {value : α}
    (h : e.literalOn? α = some value) (table : NameTable) :
    (e.emit options table).2 = table ∧ ∀ (functions : FunctionTable α) (m : Machine α),
      m.exec functions (e.emit options table).1 = (.ok (), ⟨value :: m.stack, m.slots⟩) := by
  induction e using nested_induction generalizing value table with
  | number literal =>
    obtain rfl : Scalar.ofFloat literal = value := Option.some.inj h
    rw [emit_number]
    exact ⟨rfl, fun _ _ => rfl⟩
  | var name => cases h
  | call function arguments => cases h
  | negate operand ih =>
    obtain ⟨a, ha, rfl⟩ := Option.map_eq_some_iff.1 h
    obtain ⟨htable, hruns⟩ := ih ha table
    rw [emit_negate (folded?_eq_none_of_not_fold hplain)]
    refine ⟨htable, fun functions m => ?_⟩
    rw [Machine.exec_append, hruns]
    rfl
  | binary op left right ihl ihr =>
    obtain ⟨a, b, ha, hb, rfl⟩ := literalOn?_binary h
    obtain ⟨hleft, hleftRuns⟩ := ihl ha table
    obtain ⟨hright, hrightRuns⟩ := ihr hb (left.emit options table).2
    rw [emit_binary (folded?_eq_none_of_not_fold hplain)]
    refine ⟨hright.trans hleft, fun functions m => ?_⟩
    -- the left value is on the stack when the right one is computed, and the operator finds both
    rw [Machine.exec_append, Machine.exec_append, hleftRuns]
    simp only [hrightRuns]
    rfl

end Expr

/-! ## Emission up to a relation -/

/-- Code that runs alike up to a relation, and the same table of names. -/
structure RelatedEmission (r : α → β → Prop) (folded plain : List Instr × NameTable) : Prop where
  runs : Code.RelatedRuns r folded.1 plain.1
  names : folded.2 = plain.2

theorem RelatedEmission.refl (hr : Scalar.Relates r) (emission : List Instr × NameTable) :
    RelatedEmission r emission emission :=
  ⟨.refl hr _, rfl⟩

/-- Code emitted on the table that other code has left. -/
theorem RelatedEmission.andThen {folded plain : List Instr × NameTable}
    {next next' : NameTable → List Instr × NameTable} (h : RelatedEmission r folded plain)
    (hnext : ∀ table, RelatedEmission r (next table) (next' table)) :
    RelatedEmission r (folded.1 ++ (next folded.2).1, (next folded.2).2)
      (plain.1 ++ (next' plain.2).1, (next' plain.2).2) := by
  obtain ⟨hruns, hnames⟩ := h
  rw [hnames]
  exact ⟨hruns.append (hnext plain.2).runs, (hnext plain.2).names⟩

namespace Expr

/-- If the expression has a value, the constant that folding makes of it is related to what unfolded
code computes. -/
def FoldsUpTo (r : α → β → Prop) (e : Expr) : Prop :=
  ∀ value value', e.literalValue? = some value → e.literalOn? β = some value' →
    r (Scalar.ofFloat value) value'

variable {options : Options}

/-- An expression that has a name somewhere is not folded, whatever the options. -/
theorem folded?_eq_none_of_literalValue? {e : Expr} (h : e.literalValue? = none) :
    e.folded? options = none := by
  rw [folded?, h, ite_self]

/-- An expression has a value on every scalar type or on none. -/
theorem exists_literalOn? {e : Expr} {value : Float} (h : e.literalValue? = some value) :
    ∃ value', e.literalOn? β = some value' := by
  have hrelated := @literalOn?_related Float β _ _ _ Scalar.relates_true e
  rw [literalOn?_float, h] at hrelated
  generalize e.literalOn? β = other at hrelated ⊢
  cases hrelated with
  | some => exact ⟨_, rfl⟩

/-- Where folding applies: one `push` of the folded value, beside code that computes the value on
the other scalars. Neither resolves a name, and one value is left on either stack. -/
theorem related_emission_of_literalValue? {e : Expr} (hfolds : e.FoldsUpTo r) {value : Float}
    (h : e.literalValue? = some value) (table : NameTable) :
    RelatedEmission r (e.emit { options with foldConstants := true } table)
      (e.emit { options with foldConstants := false } table) := by
  have hfolded : e.folded? { options with foldConstants := true } = some value := by
    rw [folded?, if_pos rfl, h]
  obtain ⟨value', hvalue'⟩ := @exists_literalOn? β _ e value h
  obtain ⟨hnames, hruns⟩ :=
    @emit_literal β _ { options with foldConstants := false } rfl e value' hvalue' table
  rw [emit_of_folded? hfolded]
  refine ⟨fun functions others _ m n hmachines => ?_, hnames.symm⟩
  rw [hruns]
  exact ⟨rfl, .cons (hfolds value value' h hvalue') hmachines.stack, hmachines.slots⟩

section

variable (hr : Scalar.Relates r)

include hr

/-- Arguments are emitted one after the other, each on the table that the one before has left. -/
theorem related_emission_all {es : List Expr}
    (h : ∀ e ∈ es, ∀ table, RelatedEmission r (e.emit { options with foldConstants := true } table)
      (e.emit { options with foldConstants := false } table)) (table : NameTable) :
    RelatedEmission r (emitAll { options with foldConstants := true } table es)
      (emitAll { options with foldConstants := false } table es) := by
  induction es generalizing table with
  | nil =>
    rw [emitAll_nil, emitAll_nil]
    exact .refl hr _
  | cons e es ih =>
    rw [emitAll_cons, emitAll_cons]
    exact (h e (by simp) table).andThen (ih fun e' he' => h e' (by simp [he']))

/-- The two emissions part only at subtrees without names. Everywhere else they meet the same table
and emit the same instructions. -/
theorem related_emission {e : Expr} (hparts : ∀ part ∈ e.parts, part.FoldsUpTo r)
    (table : NameTable) :
    RelatedEmission r (e.emit { options with foldConstants := true } table)
      (e.emit { options with foldConstants := false } table) := by
  induction e using nested_induction generalizing table with
  | number value =>
    exact related_emission_of_literalValue? (hparts _ (by simp [parts])) rfl table
  | var name =>
    -- folding has no say in what is a constant
    have hsame : table.constant? { options with foldConstants := true } name =
        table.constant? { options with foldConstants := false } name := rfl
    cases hconst : table.constant? { options with foldConstants := false } name with
    | some value =>
      rw [emit_var_of_constant hconst, emit_var_of_constant (hsame.trans hconst)]
      exact .refl hr _
    | none =>
      rw [emit_var_of_variable hconst, emit_var_of_variable (hsame.trans hconst)]
      exact .refl hr _
  | binary op left right ihl ihr =>
    -- either the whole is folded, or neither emission folds here and both go on in the operands
    cases hlit : (binary op left right).literalValue? with
    | some value =>
      exact related_emission_of_literalValue? (hparts _ (by simp [parts])) hlit table
    | none =>
      rw [emit_binary (folded?_eq_none_of_literalValue? hlit),
        emit_binary (folded?_eq_none_of_literalValue? hlit)]
      have hleft := ihl (fun part hpart => hparts part (by simp [parts, hpart])) table
      have hboth := hleft.andThen (ihr fun part hpart => hparts part (by simp [parts, hpart]))
      exact ⟨hboth.runs.append (.refl hr _), hboth.names⟩
  | negate operand ih =>
    cases hlit : (negate operand).literalValue? with
    | some value =>
      exact related_emission_of_literalValue? (hparts _ (by simp [parts])) hlit table
    | none =>
      rw [emit_negate (folded?_eq_none_of_literalValue? hlit),
        emit_negate (folded?_eq_none_of_literalValue? hlit)]
      have hoperand := ih (fun part hpart => hparts part (by simp [parts, hpart])) table
      exact ⟨hoperand.runs.append (.refl hr _), hoperand.names⟩
  | call function arguments ih =>
    have hargs := related_emission_all hr (fun e he => ih e he fun part hpart => hparts part
      (by rw [parts]; exact List.mem_cons_of_mem _ (mem_partsAll.2 ⟨e, he, hpart⟩))) table
    rw [emit_call, emit_call]
    exact ⟨hargs.runs.append (.refl hr _), hargs.names⟩

end

end Expr

/-! ## Statements and formulas -/

/-- The value of a statement, and behind it, for an assignment, the store to its target. -/
theorem Statement.related_emission {options : Options} (hr : Scalar.Relates r) {s : Statement}
    (hparts : ∀ part ∈ s.expr.parts, part.FoldsUpTo r) (table : NameTable) :
    RelatedEmission r (s.emit { options with foldConstants := true } table)
      (s.emit { options with foldConstants := false } table) := by
  cases s with
  | result value => exact Expr.related_emission hr hparts table
  | assign name value =>
    -- the target gets its address on the table that the value has left
    have htarget (t : NameTable) : RelatedEmission r
        ([.store (t.resolve name).1], (t.resolve name).2)
        ([.store (t.resolve name).1], (t.resolve name).2) := .refl hr _
    exact (Expr.related_emission hr hparts table).andThen htarget

/-- With and without folding, the statements of a formula leave the same table and code that runs
alike, if each part that is folded does. -/
theorem Formula.related_emission {options : Options} (hr : Scalar.Relates r) {formula : Formula}
    (hparts : ∀ part ∈ formula.parts, part.FoldsUpTo r) (table : NameTable) :
    RelatedEmission r (formula.emit { options with foldConstants := true } table)
      (formula.emit { options with foldConstants := false } table) := by
  obtain ⟨ss⟩ := formula
  show RelatedEmission r (Statement.emitAll _ table ss) (Statement.emitAll _ table ss)
  induction ss generalizing table with
  | nil => exact .refl hr _
  | cons s rest ih =>
    have hboth : ∀ part, part ∈ s.expr.parts ∨ part ∈ Formula.parts ⟨rest⟩ → part.FoldsUpTo r :=
      fun part hpart => hparts part (by simpa [Formula.parts, exprs] using hpart)
    exact (Statement.related_emission hr (fun part hpart => hboth part (.inl hpart)) table).andThen
      fun next => ih next fun part hpart => hboth part (.inr hpart)

end FormulaMachine
