import FormulaMachine.Machine.Step
import Mathlib

/-!
# Runs on scalars that are related

Two scalar types may be compared value by value: dual numbers with the same value and slopes that are
close in some sense, or dual numbers and a record of what has become of them. If every operation
keeps such a relation, every run does: the machine makes the same moves on either side.

* `Alike`: outcomes that fail in the same way or have related results.
* `Scalar.Relates`: a relation that every operation keeps.
* **`FunctionTable.standard_related`**: the standard functions keep every such relation.
* **`Instr.step_related`**, **`Machine.exec_related`**: one instruction, and a run.
* `Code.RelatedRuns`: different pieces of code that run alike up to the relation.
-/

namespace FormulaMachine

open Binary64 (Direction)

/-! ## Outcomes side by side -/

/-- Two outcomes are alike: the same fault, or two results that are related. -/
inductive Alike {ε α β : Type} (r : α → β → Prop) : Except ε α → Except ε β → Prop where
  | error (fault : ε) : Alike r (.error fault) (.error fault)
  | ok {a : α} {b : β} (h : r a b) : Alike r (.ok a) (.ok b)

/-- Outcomes that are alike up to one relation are alike up to every weaker one. -/
theorem Alike.mono {ε α β : Type} {r s : α → β → Prop} {x : Except ε α} {y : Except ε β}
    (h : Alike r x y) (himp : ∀ a b, r a b → s a b) : Alike s x y := by
  cases h with
  | error fault => exact .error fault
  | ok hr => exact .ok (himp _ _ hr)

variable {α β : Type} [Scalar α] [Scalar β] {r : α → β → Prop}

/-- Literals are related, and related operands have related results. -/
structure Scalar.Relates (r : α → β → Prop) : Prop where
  ofFloat (x : Float) : r (Scalar.ofFloat x) (Scalar.ofFloat x)
  operator (op : Operator) {a b : α} {a' b' : β} :
    r a a' → r b b' → r (op.apply a b) (op.apply a' b')
  neg {a : α} {a' : β} : r a a' → r (-a) (-a')
  smooth (g : Smooth) {a : α} {a' : β} : r a a' → r (Scalar.smooth g a) (Scalar.smooth g a')
  integral (dir : Direction) {a : α} {a' : β} :
    r a a' → r (Scalar.integral dir a) (Scalar.integral dir a')
  abs {a : α} {a' : β} : r a a' → r (Scalar.abs a) (Scalar.abs a')
  atan2 {a b : α} {a' b' : β} : r a a' → r b b' → r (Scalar.atan2 a b) (Scalar.atan2 a' b')
  hypot {a b : α} {a' b' : β} : r a a' → r b b' → r (Scalar.hypot a b) (Scalar.hypot a' b')
  fmod {a b : α} {a' b' : β} : r a a' → r b b' → r (Scalar.fmod a b) (Scalar.fmod a' b')
  remainder {a b : α} {a' b' : β} :
    r a a' → r b b' → r (Scalar.remainder a b) (Scalar.remainder a' b')
  positiveDifference {a b : α} {a' b' : β} :
    r a a' → r b b' → r (Scalar.positiveDifference a b) (Scalar.positiveDifference a' b')
  max {a b : α} {a' b' : β} : r a a' → r b b' → r (Scalar.max a b) (Scalar.max a' b')
  min {a b : α} {a' b' : β} : r a a' → r b b' → r (Scalar.min a b) (Scalar.min a' b')

omit [Scalar β] in
theorem Scalar.relates_eq : Scalar.Relates fun a b : α => a = b := by
  constructor <;> intros <;> subst_vars <;> rfl

/-! ## Functions -/

/-- Functions of as many arguments that have related results for related arguments. -/
structure HostFunction.Related (r : α → β → Prop) (g : HostFunction α) (h : HostFunction β) :
    Prop where
  arity : g.arity = h.arity
  body {arguments : List α} {others : List β} :
    List.Forall₂ r arguments others → r (g.body arguments) (h.body others)

namespace FunctionTable

/-- The same names are bound, to related functions. -/
def Related (r : α → β → Prop) (table : FunctionTable α) (other : FunctionTable β) : Prop :=
  ∀ name, Option.Rel (HostFunction.Related r) (table.get? name) (other.get? name)

/-- A function of one argument is related to another one if their bodies are. On lists of any other
length both give NaN. -/
theorem unary_related (hr : Scalar.Relates r) {g : α → α} {h : β → β}
    (hbody : ∀ {a : α} {a' : β}, r a a' → r (g a) (h a')) :
    HostFunction.Related r (unary g) (unary h) := by
  refine ⟨rfl, fun harguments => ?_⟩
  match harguments with
  | .cons ha .nil => exact hbody ha
  | .nil | .cons _ (.cons _ _) => exact hr.ofFloat _

/-- A function of two arguments is related to another one if their bodies are. On lists of any other
length both give NaN. -/
theorem binary_related (hr : Scalar.Relates r) {g : α → α → α} {h : β → β → β}
    (hbody : ∀ {a b : α} {a' b' : β}, r a a' → r b b' → r (g a b) (h a' b')) :
    HostFunction.Related r (binary g) (binary h) := by
  refine ⟨rfl, fun harguments => ?_⟩
  match harguments with
  | .cons ha (.cons hb .nil) => exact hbody ha hb
  | .nil | .cons _ .nil | .cons _ (.cons _ (.cons _ _)) => exact hr.ofFloat _

omit [Scalar α] [Scalar β] in
/-- Bindings of the same names in the same order to related functions. -/
theorem lookup_related {bindings : List (String × HostFunction α)}
    {others : List (String × HostFunction β)}
    (h : List.Forall₂ (fun b c => b.1 = c.1 ∧ HostFunction.Related r b.2 c.2) bindings others)
    (name : String) :
    Option.Rel (HostFunction.Related r) (bindings.lookup name) (others.lookup name) := by
  induction h with
  | nil => exact .none
  | @cons b c bindings others hhead _ ih =>
    obtain ⟨key, g⟩ := b
    obtain ⟨key', h⟩ := c
    obtain ⟨rfl, hrelated⟩ : key = key' ∧ HostFunction.Related r g h := hhead
    rw [List.lookup_cons, List.lookup_cons]
    split
    · exact .some hrelated
    · exact ih

/-- The standard functions keep every relation that the operations keep. -/
theorem standard_related (hr : Scalar.Relates r) :
    (standard : FunctionTable α).Related r standard := by
  refine lookup_related ?_
  simp only [standard, standardBindings]
  -- one goal for each of the forty bindings
  repeat' first
    | exact List.Forall₂.nil
    | refine List.Forall₂.cons ⟨rfl, ?_⟩ ?_
  all_goals first
    | exact unary_related hr (hr.smooth _)
    | exact unary_related hr (hr.integral _)
    | exact unary_related hr hr.abs
    | exact binary_related hr (hr.operator .pow)
    | exact binary_related hr hr.atan2
    | exact binary_related hr hr.hypot
    | exact binary_related hr hr.fmod
    | exact binary_related hr hr.remainder
    | exact binary_related hr hr.positiveDifference
    | exact binary_related hr hr.max
    | exact binary_related hr hr.min

end FunctionTable

/-! ## Runs -/

/-- Stacks and variables that are related value by value. -/
structure Machine.Related (r : α → β → Prop) (m : Machine α) (n : Machine β) : Prop where
  stack : List.Forall₂ r m.stack n.stack
  slots : List.Forall₂ r m.slots n.slots

omit [Scalar α] [Scalar β] in
/-- Storing related values at the same place keeps lists related, also where there is no such place.
-/
theorem forall₂_set {xs : List α} {ys : List β} {a : α} {b : β} (h : List.Forall₂ r xs ys)
    (hab : r a b) (k : Nat) : List.Forall₂ r (xs.set k a) (ys.set k b) := by
  induction h generalizing k with
  | nil => exact .nil
  | cons hhead htail ih =>
    cases k with
    | zero => exact .cons hab htail
    | succ k => exact .cons hhead (ih k)

variable {functions : FunctionTable α} {others : FunctionTable β}

/-- One instruction does the same on both sides. -/
theorem Instr.step_related (hr : Scalar.Relates r) (hfunctions : functions.Related r others)
    {m : Machine α} {n : Machine β} (h : m.Related r n) (instr : Instr) :
    Alike (Machine.Related r) (instr.step functions m) (instr.step others n) := by
  obtain ⟨stack, slots⟩ := m
  obtain ⟨stack', slots'⟩ := n
  obtain ⟨hstack, hslots⟩ := h
  simp only at hstack hslots
  cases instr with
  | push value => exact .ok ⟨.cons (hr.ofFloat value) hstack, hslots⟩
  | load address =>
    simp only [step]
    -- both sides have as many variables, so the address is within both or within neither
    rcases Nat.lt_or_ge address slots.length with hlt | hge
    · have hlt' : address < slots'.length := hslots.length_eq ▸ hlt
      rw [List.getElem?_eq_getElem hlt, List.getElem?_eq_getElem hlt']
      exact .ok ⟨.cons (hslots.get hlt hlt') hstack, hslots⟩
    · rw [List.getElem?_eq_none hge, List.getElem?_eq_none (hslots.length_eq ▸ hge)]
      exact .error _
  | store address =>
    cases hstack with
    | nil => exact .error _
    | cons hvalue hrest =>
      simp only [step, hslots.length_eq]
      split
      · exact .ok ⟨hrest, forall₂_set hslots hvalue address⟩
      · exact .error _
  | call name arity =>
    have hname := hfunctions name
    simp only [step]
    generalize functions.get? name = function, others.get? name = other at hname ⊢
    cases hname with
    | none => exact .error _
    | some hrelated =>
      -- the arities and the stack heights are the same, so the checks end alike
      simp only [hrelated.arity, hstack.length_eq]
      split
      · exact .error _
      · split
        · exact .error _
        · exact .ok ⟨.cons (hrelated.body (List.rel_reverse (List.forall₂_take arity hstack)))
            (List.forall₂_drop arity hstack), hslots⟩
  | binary op =>
    cases hstack with
    | nil => exact .error _
    | cons hright hrest =>
      cases hrest with
      | nil => exact .error _
      | cons hleft hrest => exact .ok ⟨.cons (hr.operator op hleft hright) hrest, hslots⟩
  | negate =>
    cases hstack with
    | nil => exact .error _
    | cons hvalue hrest => exact .ok ⟨.cons (hr.neg hvalue) hrest, hslots⟩

namespace Machine

/-- Runs of the same code end alike, with related stacks and variables. -/
theorem exec_related (hr : Scalar.Relates r) (hfunctions : functions.Related r others)
    {m : Machine α} {n : Machine β} (h : m.Related r n) (code : List Instr) :
    (m.exec functions code).1 = (n.exec others code).1 ∧
      (m.exec functions code).2.Related r (n.exec others code).2 := by
  induction code generalizing m n with
  | nil => exact ⟨rfl, h⟩
  | cons instr code ih =>
    have hstep := Instr.step_related hr hfunctions h instr
    rw [exec, exec]
    generalize instr.step functions m = left, instr.step others n = right at hstep ⊢
    cases hstep with
    | error fault => exact ⟨rfl, h⟩
    | ok hnext => exact ih hnext

end Machine

/-- Two pieces of code end alike, with related stacks and variables, wherever they start related. -/
def Code.RelatedRuns (r : α → β → Prop) (code code' : List Instr) : Prop :=
  ∀ (functions : FunctionTable α) (others : FunctionTable β), functions.Related r others →
    ∀ (m : Machine α) (n : Machine β), m.Related r n →
      (m.exec functions code).1 = (n.exec others code').1 ∧
        (m.exec functions code).2.Related r (n.exec others code').2

namespace Code.RelatedRuns

variable {code code' more more' : List Instr}

theorem refl (hr : Scalar.Relates r) (code : List Instr) : RelatedRuns r code code :=
  fun _ _ hfunctions _ _ h => Machine.exec_related hr hfunctions h code

/-- Code that runs alike can be put behind code that runs alike. If the first part fails, it does so
on both sides. -/
theorem append (h : RelatedRuns r code code') (hmore : RelatedRuns r more more') :
    RelatedRuns r (code ++ more) (code' ++ more') := by
  intro functions others hfunctions m n hmachines
  obtain ⟨houtcome, hrelated⟩ := h functions others hfunctions m n hmachines
  rw [Machine.exec_append, Machine.exec_append]
  generalize m.exec functions code = left, n.exec others code' = right at houtcome hrelated ⊢
  obtain ⟨outcome, next⟩ := left
  obtain ⟨outcome', next'⟩ := right
  obtain rfl : outcome = outcome' := houtcome
  cases outcome with
  | error fault => exact ⟨rfl, hrelated⟩
  | ok => exact hmore functions others hfunctions next next' hrelated

end Code.RelatedRuns

end FormulaMachine
