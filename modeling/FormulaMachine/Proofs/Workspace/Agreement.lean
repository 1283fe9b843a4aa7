import FormulaMachine.BoundFormula
import FormulaMachine.Proofs.Machine.Dependence

/-!
# Workspaces that agree on some variables

What a program finds in a workspace, and what it leaves there, is compared variable by variable. The
stack plays no part, since every evaluation starts from an empty one.

* `Workspace.AgreeOn`: the same names and functions, and the same values at some addresses.
* **`Workspace.evaluate_of_agreeOn`**: the result depends on the variables that the program reads
  before it assigns them, and on no others.
* **`Workspace.evaluate_agreeOn`**: variables that the program does not assign keep their values.
* **`Workspace.evaluate_of_shape`**: whether there is a result does not depend on any value.
-/

namespace FormulaMachine

variable {α β : Type} [Scalar α] [Scalar β]

/-! ## Answers of a machine -/

namespace Machine

/-- The value on top of the stack that a run ends with. -/
def answer : Except RunFault Unit → List α → Except RunFault α
  | .error fault, _ => .error fault
  | .ok (), [] => .error .emptyStack
  | .ok (), value :: _ => .ok value

omit [Scalar α] [Scalar β] in
/-- The answers are related if the stacks are. -/
theorem answer_related {r : α → β → Prop} {stack : List α} {stack' : List β}
    (h : List.Forall₂ r stack stack') (outcome : Except RunFault Unit) :
    Alike r (answer outcome stack) (answer outcome stack') := by
  cases outcome with
  | error fault => exact .error fault
  | ok =>
    cases h with
    | nil => exact .error _
    | cons hvalue _ => exact .ok hvalue

omit [Scalar α] [Scalar β] in
/-- Whether there is an answer depends on the outcome and on the height of the stack. -/
theorem answer_of_length {stack : List α} {stack' : List β} (h : stack.length = stack'.length)
    (outcome : Except RunFault Unit) :
    Alike (fun _ _ => True) (answer outcome stack) (answer outcome stack') :=
  answer_related (forall₂_true_iff.2 h) outcome

end Machine

namespace Workspace

/-- The machine that a run in the workspace starts with. -/
def start (w : Workspace α) : Machine α := ⟨[], w.grow.slots⟩

/-- An evaluation is a run of the machine: it takes the answer from it and keeps its variables. -/
theorem evaluate_eq (w : Workspace α) (program : Program) :
    let run := w.start.exec w.functions program.code
    ∃ stack, w.evaluate program =
      (Machine.answer run.1 run.2.stack, ⟨stack, w.names, run.2.slots, w.functions⟩) := by
  intro run
  -- a run and an evaluation differ only in what they make of the stack
  have hrun : w.run program = (run.1, (grow { w with stack := [] }).withMachine run.2) := rfl
  rw [evaluate, hrun]
  obtain ⟨outcome, ⟨stack, slots⟩⟩ := run
  rcases outcome with fault | ⟨⟩
  · exact ⟨stack, rfl⟩
  · cases stack with
    | nil => exact ⟨[], rfl⟩
    | cons value rest => exact ⟨[], rfl⟩

/-- The result of an evaluation is the answer of the run. -/
theorem evaluate_fst (w : Workspace α) (program : Program) :
    (w.evaluate program).1 = Machine.answer (w.start.exec w.functions program.code).1
      (w.start.exec w.functions program.code).2.stack := by
  obtain ⟨stack, heq⟩ := w.evaluate_eq program
  rw [heq]

/-- The variables after an evaluation are those after the run, whether it has an answer or not. -/
theorem slots_evaluate (w : Workspace α) (program : Program) :
    (w.evaluate program).2.slots = (w.start.exec w.functions program.code).2.slots := by
  obtain ⟨stack, heq⟩ := w.evaluate_eq program
  rw [heq]

/-- An evaluation leaves the names, and the functions too. -/
theorem names_evaluate (w : Workspace α) (program : Program) :
    (w.evaluate program).2.names = w.names := by
  obtain ⟨stack, heq⟩ := w.evaluate_eq program
  rw [heq]

theorem functions_evaluate (w : Workspace α) (program : Program) :
    (w.evaluate program).2.functions = w.functions := by
  obtain ⟨stack, heq⟩ := w.evaluate_eq program
  rw [heq]

/-! ## One value for each name -/

/-- There are as many values as names. -/
def Complete (w : Workspace α) : Prop := w.slots.length = w.names.size

omit [Scalar α] in
/-- The workspace with no value to add. -/
theorem Complete.names_le {w : Workspace α} (h : w.Complete) :
    w.names.size - w.slots.length = 0 := by
  rw [Complete] at h
  omega

/-- Where every name has its value there is none to add. -/
theorem Complete.slots_grow {w : Workspace α} (h : w.Complete) : w.grow.slots = w.slots := by
  simp [grow, h.names_le]

/-- Growing gives every name a value. -/
theorem complete_grow {w : Workspace α} (h : w.slots.length ≤ w.names.size) :
    w.grow.Complete := by
  show (w.slots ++ List.replicate (w.names.size - w.slots.length) Scalar.zero).length =
    w.names.size
  rw [List.length_append, List.length_replicate]
  omega

/-- An evaluation keeps the number of variables. -/
theorem Complete.evaluate {w : Workspace α} (h : w.Complete) (program : Program) :
    (w.evaluate program).2.Complete := by
  rw [Complete, slots_evaluate, names_evaluate, Machine.length_slots_exec, ← h]
  exact congrArg List.length h.slots_grow

/-! ## Agreement -/

/-- The same names, the same functions, the same number of variables, and the same values at the
addresses where `q` holds. -/
structure AgreeOn (q : Nat → Prop) (w v : Workspace α) : Prop where
  names : w.names = v.names
  functions : w.functions = v.functions
  length : w.slots.length = v.slots.length
  slots : ∀ a, q a → w.slots[a]? = v.slots[a]?

namespace AgreeOn

variable {q p : Nat → Prop} {w v u : Workspace α}

omit [Scalar α]

theorem refl (q : Nat → Prop) (w : Workspace α) : w.AgreeOn q w :=
  ⟨rfl, rfl, rfl, fun _ _ => rfl⟩

theorem symm (h : w.AgreeOn q v) : v.AgreeOn q w :=
  ⟨h.names.symm, h.functions.symm, h.length.symm, fun a ha => (h.slots a ha).symm⟩

theorem trans (h : w.AgreeOn q v) (h' : v.AgreeOn q u) : w.AgreeOn q u :=
  ⟨h.names.trans h'.names, h.functions.trans h'.functions, h.length.trans h'.length,
    fun a ha => (h.slots a ha).trans (h'.slots a ha)⟩

theorem mono (h : w.AgreeOn q v) (himp : ∀ a, p a → q a) : w.AgreeOn p v :=
  ⟨h.names, h.functions, h.length, fun a ha => h.slots a (himp a ha)⟩

/-- Whether every name has a value is told by what both sides share. -/
theorem complete (h : w.AgreeOn q v) (hv : v.Complete) : w.Complete := by
  rw [Complete, h.length, h.names]
  exact hv

end AgreeOn

/-- Growing adds the same zeros to both. -/
theorem AgreeOn.grow {q : Nat → Prop} {w v : Workspace α} (h : w.AgreeOn q v) :
    w.grow.AgreeOn q v.grow := by
  refine ⟨h.names, h.functions, ?_, fun a ha => ?_⟩
  · simp [Workspace.grow, h.names, h.length]
  · show (w.slots ++ _)[a]? = (v.slots ++ _)[a]?
    rw [List.getElem?_append, List.getElem?_append, h.names, h.length, h.slots a ha]

/-! ## Evaluations -/

/-- Workspaces that agree on all variables that the program reads before it assigns them give the
same result, and agree as much as before. -/
theorem evaluate_of_agreeOn {q : Nat → Prop} {w v : Workspace α} (h : w.AgreeOn q v)
    {program : Program} (hread : ∀ a ∈ Code.readFirst program.code, q a) :
    (w.evaluate program).1 = (v.evaluate program).1 ∧
      (w.evaluate program).2.AgreeOn q (v.evaluate program).2 := by
  -- both runs start from the empty stack, so the variables are all that can differ
  have hstart : w.start.Agree q v.start := ⟨rfl, h.grow.length, h.grow.slots⟩
  obtain ⟨houtcome, -, hend⟩ := Machine.exec_of_agree w.functions hstart hread
  constructor
  · rw [evaluate_fst, evaluate_fst, houtcome, hend.stack, h.functions]
  · refine ⟨?_, ?_, ?_, fun a ha => ?_⟩
    · rw [names_evaluate, names_evaluate, h.names]
    · rw [functions_evaluate, functions_evaluate, h.functions]
    · rw [slots_evaluate, slots_evaluate, hend.length, h.functions]
    · rw [slots_evaluate, slots_evaluate, hend.slots a (.inl ha), h.functions]

/-- Variables that the program does not assign keep their values, also if it fails. -/
theorem evaluate_agreeOn {w : Workspace α} (hw : w.Complete) (program : Program) :
    (w.evaluate program).2.AgreeOn (· ∉ Code.stored program.code) w := by
  refine ⟨w.names_evaluate program, w.functions_evaluate program, ?_, fun a ha => ?_⟩
  · rw [hw.evaluate program, hw, w.names_evaluate]
  · rw [slots_evaluate, Machine.slots_exec_of_not_mem_stored ha]
    exact congrArg (·[a]?) hw.slots_grow

/-- Evaluations in workspaces of the same size fail alike, whatever the values are. -/
theorem evaluate_of_shape {w : Workspace α} {v : Workspace β}
    (hfunctions : w.functions.SameArities v.functions)
    (hlength : w.grow.slots.length = v.grow.slots.length) (program : Program) :
    Alike (fun _ _ => True) (w.evaluate program).1 (v.evaluate program).1 := by
  have hstart : w.start.SameShape v.start := ⟨rfl, hlength⟩
  obtain ⟨houtcome, hend⟩ := Machine.exec_of_shape hfunctions hstart program.code
  rw [evaluate_fst, evaluate_fst, houtcome]
  exact Machine.answer_of_length hend.stack _

/-! ## Values from outside -/

section

variable {q : Nat → Prop} {w v : Workspace α}

omit [Scalar α]

/-- As many values are handed over as are dropped. -/
theorem length_slots_setFirst {values : List α} (h : values.length ≤ w.slots.length) :
    (w.setFirst values).slots.length = w.slots.length := by
  simp only [setFirst, List.length_append, List.length_drop]
  omega

/-- Handing values over keeps the number of variables. -/
theorem Complete.setFirst {values : List α} (h : w.Complete)
    (hlength : values.length ≤ w.slots.length) : (w.setFirst values).Complete := by
  rw [Complete, length_slots_setFirst hlength]
  exact h

/-- Behind the values that are handed over everything stays. -/
theorem setFirst_agreeOn {values : List α} (h : values.length ≤ w.slots.length) :
    (w.setFirst values).AgreeOn (values.length ≤ ·) w := by
  refine ⟨rfl, rfl, length_slots_setFirst h, fun a ha => ?_⟩
  show (values ++ w.slots.drop values.length)[a]? = w.slots[a]?
  rw [List.getElem?_append_right ha, List.getElem?_drop, Nat.add_sub_cancel' ha]

/-- Values that are handed over to both sides make them agree there. -/
theorem AgreeOn.setFirst (h : w.AgreeOn q v) (values : List α) :
    (w.setFirst values).AgreeOn (fun a => a < values.length ∨ q a) (v.setFirst values) := by
  refine ⟨h.names, h.functions, ?_, fun a ha => ?_⟩
  · simp [Workspace.setFirst, h.length]
  · show (values ++ w.slots.drop values.length)[a]? = (values ++ v.slots.drop values.length)[a]?
    -- among the values themselves, or behind them where the workspaces agreed
    rcases Nat.lt_or_ge a values.length with hlt | hge
    · rw [List.getElem?_append_left hlt, List.getElem?_append_left hlt]
    · have hq : q a := ha.resolve_left (Nat.not_lt.mpr hge)
      rw [List.getElem?_append_right hge, List.getElem?_append_right hge, List.getElem?_drop,
        List.getElem?_drop, Nat.add_sub_cancel' hge, h.slots a hq]

end

/-- Setting a variable: the name gets an address, missing values are filled in, and the value is
put in its place. -/
theorem set_snd (w : Workspace α) (name : String) (value : α) :
    (w.set name value).2 =
      ((grow { w with names := (w.names.resolve name).2 }).setAt (w.names.resolve name).1
        value).2 :=
  rfl

/-- Giving a variable a value by name gives every name a value. -/
theorem complete_set {w : Workspace α} (h : w.Complete) (name : String) (value : α) :
    (w.set name value).2.Complete := by
  -- the name is new, or nothing changes but its value
  have hprefix : w.names.size ≤ (w.names.resolve name).2.size :=
    (w.names.resolve_names_isPrefix name).length_le
  have hgrow : (grow { w with names := (w.names.resolve name).2 }).Complete :=
    complete_grow (h.trans_le hprefix)
  rw [set_snd]
  show (List.set _ _ _).length = _
  rw [List.length_set]
  exact hgrow

/-- Setting a variable loses none. -/
theorem length_slots_le_set (w : Workspace α) (name : String) (value : α) :
    w.slots.length ≤ (w.set name value).2.slots.length := by
  rw [set_snd]
  show w.slots.length ≤ (List.set (w.slots ++ _) _ _).length
  rw [List.length_set, List.length_append]
  omega

omit [Scalar α] in
/-- One value put in the same place on both sides. -/
theorem AgreeOn.setAt {q : Nat → Prop} {w v : Workspace α} (h : w.AgreeOn q v) (address : Nat)
    (value : α) : (w.setAt address value).2.AgreeOn q (v.setAt address value).2 := by
  refine ⟨h.names, h.functions, ?_, fun a ha => ?_⟩
  · simp [Workspace.setAt, h.length]
  · show (w.slots.set address value)[a]? = (v.slots.set address value)[a]?
    rw [List.getElem?_set, List.getElem?_set, h.length, h.slots a ha]

/-- The name gets the same address on both sides, since the names are the same. -/
theorem AgreeOn.set {q : Nat → Prop} {w v : Workspace α} (h : w.AgreeOn q v) (name : String)
    (value : α) : (w.set name value).2.AgreeOn q (v.set name value).2 := by
  rw [set_snd, set_snd, h.names]
  refine AgreeOn.setAt (AgreeOn.grow ?_) _ _
  exact ⟨rfl, h.functions, h.length, h.slots⟩

/-! ## Constants -/

/-- Passing to constants keeps the number of variables. -/
theorem Complete.constants {w : Workspace Float} (h : w.Complete) : w.constants.Complete := by
  show (w.slots.map Dual.constant).length = w.names.size
  rw [List.length_map]
  exact h

/-- Where the doubles agree, the constants do. -/
theorem AgreeOn.constants {q : Nat → Prop} {w v : Workspace Float} (h : w.AgreeOn q v) :
    w.constants.AgreeOn q v.constants := by
  refine ⟨h.names, rfl, ?_, fun a ha => ?_⟩
  · simp [Workspace.constants, h.length]
  · show (w.slots.map Dual.constant)[a]? = (v.slots.map Dual.constant)[a]?
    rw [List.getElem?_map, List.getElem?_map, h.slots a ha]

/-- Setting a variable and passing to constants commute. -/
theorem constants_set (w : Workspace Float) (name : String) (value : Float) :
    (w.set name value).2.constants = (w.constants.set name (.constant value)).2 := by
  simp only [Workspace.set, Workspace.resolve, Workspace.grow, Workspace.constants, List.map_set,
    List.map_append, List.map_replicate, List.length_map]
  rfl

/-! ## Values taken over -/

/-- The workspace with the values of another one at some addresses. -/
def overlay (w : Workspace α) (addresses : List Nat) (other : Workspace α) : Workspace α :=
  { w with slots := w.slots.mapIdx fun a value =>
      if a ∈ addresses then other.slots[a]?.getD value else value }

omit [Scalar α] in
/-- Nothing is taken over. -/
theorem overlay_nil (w other : Workspace α) : w.overlay [] other = w := by
  have hslots : w.slots.mapIdx (fun _ value => value) = w.slots := by
    apply List.ext_getElem?
    simp
  simp [overlay, hslots]

omit [Scalar α] in
/-- A workspace has its own values already. -/
theorem overlay_self (w : Workspace α) (addresses : List Nat) : w.overlay addresses w = w := by
  have hslots : w.slots.mapIdx (fun a value =>
      if a ∈ addresses then w.slots[a]?.getD value else value) = w.slots := by
    apply List.ext_getElem?
    intro a
    rw [List.getElem?_mapIdx]
    cases w.slots[a]? <;> simp
  rw [overlay, hslots]

omit [Scalar α] in
/-- A workspace agrees with one that has taken over the values where they differed. -/
theorem AgreeOn.overlay {q : Nat → Prop} {w v : Workspace α} (h : w.AgreeOn q v)
    (addresses : List Nat) :
    w.AgreeOn (fun a => q a ∨ a ∈ addresses) (v.overlay addresses w) := by
  refine ⟨h.names, h.functions, ?_, fun a ha => ?_⟩
  · simp [Workspace.overlay, h.length]
  · show w.slots[a]? = (v.slots.mapIdx _)[a]?
    rw [List.getElem?_mapIdx]
    -- a value that was taken over, or one on which both agreed before
    by_cases hmem : a ∈ addresses
    · rcases Nat.lt_or_ge a w.slots.length with hlt | hge
      · rw [List.getElem?_eq_getElem hlt, List.getElem?_eq_getElem (h.length ▸ hlt)]
        simp [hmem]
      · rw [List.getElem?_eq_none hge, List.getElem?_eq_none (h.length ▸ hge)]
        rfl
    · rw [h.slots a (ha.resolve_right hmem)]
      simp [hmem]

end Workspace

end FormulaMachine
