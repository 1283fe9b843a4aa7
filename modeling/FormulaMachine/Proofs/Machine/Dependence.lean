import FormulaMachine.Proofs.Machine.Relation

/-!
# Which variables a run depends on

Code has no jumps. So the variables that it can change, and those whose old value it can see, are
read off its text, and a run needs no more than these.

* `Code.stored`, `Code.readFirst`: the addresses of both.
* `Instr.step_mirrored`: one instruction does the same on two machines that give it the same to read.
* **`Machine.slots_exec_of_not_mem_stored`**: no other variable changes.
* `Machine.completed`: the instructions of a run that have run.
* **`Machine.exec_of_agree`**: runs that start with the same stack, and with the same values in all
  variables that are read before they are stored to, end alike, and with the same values in all
  variables that they have stored to.
* **`Machine.exec_of_shape`**: whether a run fails, and how, is decided by the number of values on
  the stack, the number of variables, and the arities of the functions.
-/

namespace FormulaMachine

/-! ## Reading code -/

namespace Instr

/-- The address that the instruction stores at. -/
def target? : Instr → Option Nat
  | store address => some address
  | _ => none

/-- The address that the instruction loads from. -/
def source? : Instr → Option Nat
  | load address => some address
  | _ => none

end Instr

namespace Code

/-- The addresses that code stores at. -/
def stored (code : List Instr) : List Nat := code.filterMap Instr.target?

/-- The addresses that code loads from at a place with no store to them before it. -/
def readFirst : List Instr → List Nat
  | [] => []
  | instr :: code => instr.source?.toList ++ (readFirst code).filter (instr.target? ≠ some ·)

theorem mem_stored_cons {instr : Instr} {code : List Instr} {a : Nat} :
    a ∈ stored (instr :: code) ↔ instr.target? = some a ∨ a ∈ stored code := by
  simp [stored]

/-- An address is read first by the first instruction, or by the code behind it, unless the first
instruction stores there. -/
theorem mem_readFirst_cons {instr : Instr} {code : List Instr} {a : Nat} :
    a ∈ readFirst (instr :: code) ↔
      instr.source? = some a ∨ a ∈ readFirst code ∧ instr.target? ≠ some a := by
  simp [readFirst]

end Code

variable {α β : Type} [Scalar α] [Scalar β]

/-! ## What a run changes -/

/-- An instruction changes no variable but the one it stores at. -/
theorem Instr.slots_step {functions : FunctionTable α} {m next : Machine α} {instr : Instr}
    (h : instr.step functions m = .ok next) {a : Nat} (ha : instr.target? ≠ some a) :
    next.slots[a]? = m.slots[a]? := by
  cases instr with
  | store address =>
    -- it stores at another address
    have hne : address ≠ a := fun heq => ha (by rw [target?, heq])
    simp only [step] at h
    split at h
    · cases h
    · split at h
      · cases h
        exact List.getElem?_set_ne hne
      · cases h
  | push | load | call | binary | negate =>
    simp only [step] at h
    repeat' split at h
    all_goals cases h
    all_goals rfl

namespace Machine

/-- A run changes no variable that its code does not store at, also if it fails. -/
theorem slots_exec_of_not_mem_stored {functions : FunctionTable α} {code : List Instr} {a : Nat}
    (ha : a ∉ Code.stored code) (m : Machine α) :
    (m.exec functions code).2.slots[a]? = m.slots[a]? := by
  induction code generalizing m with
  | nil => rfl
  | cons instr code ih =>
    rw [Code.mem_stored_cons, not_or] at ha
    rw [exec]
    cases hstep : instr.step functions m with
    | error fault => rfl
    | ok next =>
      show (next.exec functions code).2.slots[a]? = m.slots[a]?
      rw [ih ha.2 next, Instr.slots_step hstep ha.1]

/-! ## What a run sees -/

/-- The same stack, the same number of variables, and the same values at the addresses where `q`
holds. -/
structure Agree (q : Nat → Prop) (m n : Machine α) : Prop where
  stack : m.stack = n.stack
  length : m.slots.length = n.slots.length
  slots : ∀ a, q a → m.slots[a]? = n.slots[a]?

omit [Scalar α] in
/-- Machines that agree still do so after a store, then also at its address. -/
theorem Agree.store {q : Nat → Prop} {m n : Machine α} (h : m.Agree q n) (rest : List α)
    (address : Nat) (value : α) :
    Agree (fun a => q a ∨ address = a) ⟨rest, m.slots.set address value⟩
      ⟨rest, n.slots.set address value⟩ := by
  refine ⟨rfl, by simp [h.length], fun a ha => ?_⟩
  show (m.slots.set address value)[a]? = (n.slots.set address value)[a]?
  rw [List.getElem?_set, List.getElem?_set, h.length]
  split
  · rfl
  · next hne => exact h.slots a (ha.resolve_right hne)

omit [Scalar α] in
theorem Agree.mono {q q' : Nat → Prop} {m n : Machine α} (h : m.Agree q n)
    (himp : ∀ a, q' a → q a) : m.Agree q' n :=
  ⟨h.stack, h.length, fun a ha => h.slots a (himp a ha)⟩

end Machine

/-- Two machines after an instruction that has done the same on `m` and `n`: the stacks are the same,
and the variables are unchanged, or the same value has been stored at the same address. -/
structure Instr.Mirrored (instr : Instr) (m n next next' : Machine α) : Prop where
  stack : next.stack = next'.stack
  slots : instr.target? = none ∧ next.slots = m.slots ∧ next'.slots = n.slots ∨
    ∃ a value, instr.target? = some a ∧ next.slots = m.slots.set a value ∧
      next'.slots = n.slots.set a value

/-- An instruction does the same on machines with the same stack, if it loads the same value from
both and there is a variable to store at in both or in neither. -/
theorem Instr.step_mirrored (functions : FunctionTable α) {m n : Machine α} {instr : Instr}
    (hstack : m.stack = n.stack)
    (hload : ∀ a, instr.source? = some a → m.slots[a]? = n.slots[a]?)
    (hstore : ∀ a, instr.target? = some a → (a < m.slots.length ↔ a < n.slots.length)) :
    Alike (instr.Mirrored m n) (instr.step functions m) (instr.step functions n) := by
  obtain ⟨stack, slots⟩ := m
  obtain ⟨stack', slots'⟩ := n
  obtain rfl : stack = stack' := hstack
  -- an instruction that leaves the variables alone
  have hkeep (result : List α) (htarget : instr.target? = none) :
      instr.Mirrored ⟨stack, slots⟩ ⟨stack, slots'⟩ ⟨result, slots⟩ ⟨result, slots'⟩ :=
    ⟨rfl, .inl ⟨htarget, rfl, rfl⟩⟩
  cases instr with
  | push value => exact .ok (hkeep _ rfl)
  | load address =>
    have hslot : slots[address]? = slots'[address]? := hload address rfl
    simp only [step, hslot]
    cases slots'[address]? with
    | some value => exact .ok (hkeep _ rfl)
    | none => exact .error _
  | store address =>
    have hinside : address < slots.length ↔ address < slots'.length := hstore address rfl
    cases stack with
    | nil => exact .error _
    | cons value rest =>
      simp only [step, hinside]
      split
      · exact .ok ⟨rfl, .inr ⟨address, value, rfl, rfl, rfl⟩⟩
      · exact .error _
  | call name arity =>
    simp only [step]
    split
    · exact .error _
    · split
      · exact .error _
      · split
        · exact .error _
        · exact .ok (hkeep _ rfl)
  | binary op =>
    rcases stack with _ | ⟨right, _ | ⟨left, rest⟩⟩
    · exact .error _
    · exact .error _
    · exact .ok (hkeep _ rfl)
  | negate =>
    cases stack with
    | nil => exact .error _
    | cons value rest => exact .ok (hkeep _ rfl)

/-- An instruction does the same on machines that agree where it loads from. Afterwards they also
agree where it has stored. -/
theorem Instr.step_of_agree (functions : FunctionTable α) {q : Nat → Prop} {m n : Machine α}
    (h : m.Agree q n) {instr : Instr} (hsource : ∀ a, instr.source? = some a → q a) :
    Alike (Machine.Agree fun a => q a ∨ instr.target? = some a) (instr.step functions m)
      (instr.step functions n) := by
  have hmirrored : Alike (instr.Mirrored m n) (instr.step functions m) (instr.step functions n) :=
    step_mirrored functions h.stack (fun a ha => h.slots a (hsource a ha)) fun a _ => by
      rw [h.length]
  refine hmirrored.mono fun next next' hnext => ?_
  -- the instruction has changed no variable, or the same one on both sides
  obtain ⟨htarget, hm, hn⟩ | ⟨a, value, htarget, hm, hn⟩ := hnext.slots
  · refine ⟨hnext.stack, by rw [hm, hn, h.length], fun b hb => ?_⟩
    rw [hm, hn]
    rw [htarget] at hb
    exact h.slots b (hb.resolve_right nofun)
  · have hstored := h.store next.stack a value
    refine ⟨hnext.stack, by rw [hm, hn]; exact hstored.length, fun b hb => ?_⟩
    rw [hm, hn]
    rw [htarget] at hb
    exact hstored.slots b (hb.imp_right Option.some.inj)

namespace Machine

/-- The instructions that a run gets through: all of them, or those before the one that fails. -/
def completed (functions : FunctionTable α) (m : Machine α) : List Instr → List Instr
  | [] => []
  | instr :: code =>
    match instr.step functions m with
    | .error _ => []
    | .ok next => instr :: completed functions next code

/-- Runs on machines that agree on all variables that are read before they are stored to have the
same outcome, get through the same instructions, and leave machines that agree as much, and also on
all variables that have been stored to. -/
theorem exec_of_agree (functions : FunctionTable α) {code : List Instr} {q : Nat → Prop}
    {m n : Machine α} (h : m.Agree q n) (hread : ∀ a ∈ Code.readFirst code, q a) :
    (m.exec functions code).1 = (n.exec functions code).1 ∧
      m.completed functions code = n.completed functions code ∧
      Agree (fun a => q a ∨ a ∈ Code.stored (m.completed functions code))
        (m.exec functions code).2 (n.exec functions code).2 := by
  -- what agrees grows with every store, so the induction is for all `q`
  induction code generalizing q m n with
  | nil => exact ⟨rfl, rfl, h.mono fun a ha => ha.resolve_right (List.not_mem_nil)⟩
  | cons instr code ih =>
    have hsource (a : Nat) (ha : instr.source? = some a) : q a :=
      hread a (Code.mem_readFirst_cons.mpr (.inl ha))
    have hstep := Instr.step_of_agree functions h hsource
    rw [exec, exec, completed, completed]
    generalize instr.step functions m = left, instr.step functions n = right at hstep ⊢
    cases hstep with
    | error fault =>
      exact ⟨rfl, rfl, h.mono fun a ha => ha.resolve_right (List.not_mem_nil)⟩
    | ok hnext =>
      -- what the rest reads first is read first by the whole, or the first instruction has just
      -- stored there
      have hrest (a : Nat) (ha : a ∈ Code.readFirst code) : q a ∨ instr.target? = some a := by
        rcases eq_or_ne instr.target? (some a) with htarget | htarget
        · exact .inr htarget
        · exact .inl (hread a (Code.mem_readFirst_cons.mpr (.inr ⟨ha, htarget⟩)))
      obtain ⟨houtcome, hcompleted, hagree⟩ := ih hnext hrest
      refine ⟨houtcome, congrArg (instr :: ·) hcompleted, hagree.mono fun a ha => ?_⟩
      rw [Code.mem_stored_cons, ← or_assoc] at ha
      exact ha

end Machine

/-! ### Functions -/

section

variable {functions others : FunctionTable α}

/-- Of the functions an instruction sees no more than what the names are bound to. -/
theorem Instr.step_of_get?_eq (h : ∀ name, functions.get? name = others.get? name)
    (m : Machine α) (instr : Instr) : instr.step functions m = instr.step others m := by
  cases instr with
  | call name arity => simp only [step, h]
  | push | load | store | binary | negate => rfl

/-- Nor does a run see more of the functions than an instruction does, or get further with the one
table than with the other. -/
theorem Machine.exec_of_get?_eq (h : ∀ name, functions.get? name = others.get? name)
    (m : Machine α) (code : List Instr) :
    m.exec functions code = m.exec others code ∧
      m.completed functions code = m.completed others code := by
  induction code generalizing m with
  | nil => exact ⟨rfl, rfl⟩
  | cons instr code ih =>
    rw [exec, exec, completed, completed, Instr.step_of_get?_eq h]
    cases instr.step others m with
    | error fault => exact ⟨rfl, rfl⟩
    | ok next => exact ⟨(ih next).1, congrArg (instr :: ·) (ih next).2⟩

end

/-! ## What decides whether a run fails -/

/-- The same names are bound, to functions of the same arities. -/
def FunctionTable.SameArities (functions : FunctionTable α) (others : FunctionTable β) : Prop :=
  ∀ name, (functions.get? name).map (·.arity) = (others.get? name).map (·.arity)

/-- As many values on the stack, and as many variables. -/
structure Machine.SameShape (m : Machine α) (n : Machine β) : Prop where
  stack : m.stack.length = n.stack.length
  slots : m.slots.length = n.slots.length

omit [Scalar α] [Scalar β] in
/-- Lists are related value by value, with nothing asked of the values, if they are of one length.
-/
theorem forall₂_true_iff {xs : List α} {ys : List β} :
    List.Forall₂ (fun _ _ => True) xs ys ↔ xs.length = ys.length := by
  rw [List.forall₂_iff_zip]
  simp

omit [Scalar α] [Scalar β] in
/-- The shape of a machine is what is left of it if nothing is asked of its values. -/
theorem Machine.sameShape_iff {m : Machine α} {n : Machine β} :
    m.SameShape n ↔ m.Related (fun _ _ => True) n :=
  ⟨fun h => ⟨forall₂_true_iff.2 h.stack, forall₂_true_iff.2 h.slots⟩,
    fun h => ⟨forall₂_true_iff.1 h.stack, forall₂_true_iff.1 h.slots⟩⟩

omit [Scalar α] [Scalar β] in
/-- Tables with the same arities are related if nothing is asked of the results. -/
theorem FunctionTable.SameArities.related {functions : FunctionTable α} {others : FunctionTable β}
    (h : functions.SameArities others) : functions.Related (fun _ _ => True) others := by
  intro name
  have hname := h name
  generalize functions.get? name = function, others.get? name = other at hname ⊢
  rcases function with _ | function <;> rcases other with _ | other
  · exact .none
  · simp at hname
  · simp at hname
  · exact .some ⟨by simpa using hname, fun _ => trivial⟩

theorem Scalar.relates_true : Scalar.Relates fun (_ : α) (_ : β) => True := by
  constructor <;> intros <;> trivial

/-- Runs on machines of the same shape have the same outcome and leave machines of the same
shape. -/
theorem Machine.exec_of_shape {functions : FunctionTable α} {others : FunctionTable β}
    (hfunctions : functions.SameArities others) {m : Machine α} {n : Machine β}
    (h : m.SameShape n) (code : List Instr) :
    (m.exec functions code).1 = (n.exec others code).1 ∧
      (m.exec functions code).2.SameShape (n.exec others code).2 :=
  (exec_related Scalar.relates_true hfunctions.related (sameShape_iff.1 h) code).imp_right
    sameShape_iff.2

end FormulaMachine
