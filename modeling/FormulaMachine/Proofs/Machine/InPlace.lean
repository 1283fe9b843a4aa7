import FormulaMachine.Proofs.Machine.Dependence
import FormulaMachine.Proofs.Steps

/-!
# Instructions access by access

An instruction looks a function up, counts the values on the stack, reads some of them by position,
cuts the stack off and puts a result on it, one access after the other on one memory. An access may
ask for a place that is not there, and what has been changed before a fault stays changed. The step
of the machine shows neither; here the accesses are spelled out, and it turns out that no instruction
asks for such a place, and that none changes anything before it is sure to succeed.

* `Memory`, `InPlace`: what is accessed, and sequences of accesses.
* `Instr.execute`, `Code.execute`: an instruction and code as such sequences.
* **`Instr.execute_memory`**, **`Code.execute_memory`**: they do what the machine does.
* `Instr.Effect`: what an instruction that succeeds has done, as its pops and pushes declare.
* `FunctionTable.TakenApart`: the arguments that a standard function can read.
* **`Code.execute_safe`**: what holds of every instruction and of every run, on any memory.
-/

namespace FormulaMachine

/-! ## Accesses -/

/-- The stack, its bottom first, the variables, and the calls made so far: for each of them the
function and the arguments it was handed. -/
structure Memory (α : Type) where
  stack : List α
  slots : List α
  calls : List (HostFunction α × List α)

/-- What ends a sequence of accesses early. -/
inductive Abort where
  | fault (fault : RunFault)
  /-- an access to a place that is not there -/
  | outside

/-- A sequence of accesses with a result. An aborted one leaves the memory as its last access has
left it. -/
abbrev InPlace (α β : Type) := Steps Abort (Memory α) β

namespace InPlace

open Steps

variable {α β : Type} {memory : Memory α}

/-! ### Single accesses -/

/-- Ends the accesses with a fault of the machine. -/
def fail (fault : RunFault) : InPlace α β := throw (.fault fault)

/-- How many values are on the stack. -/
def depth : InPlace α Nat := do
  return (← get).stack.length

/-- The position `count` places below another one. -/
def below (position count : Nat) : InPlace α Nat :=
  if count ≤ position then pure (position - count) else throw .outside

/-- The value at a position of the stack, its bottom at zero. -/
def read (position : Nat) : InPlace α α := do
  match (← get).stack[position]? with
  | some value => pure value
  | none => throw .outside

/-- The values from a position to the top. -/
def readFrom (position : Nat) : InPlace α (List α) := do
  let memory ← get
  if position ≤ memory.stack.length then pure (memory.stack.drop position) else throw .outside

/-- Drops all values from a position on, if there are any. -/
def truncate (position : Nat) : InPlace α Unit :=
  modify fun memory => { memory with stack := memory.stack.take position }

/-- Puts a value on top of the stack. -/
def push (value : α) : InPlace α Unit :=
  modify fun memory => { memory with stack := memory.stack ++ [value] }

/-- Takes the value on top off the stack, if there is one. -/
def pop? : InPlace α (Option α) := do
  let memory ← get
  set { memory with stack := memory.stack.dropLast }
  return memory.stack.getLast?

/-- Changes the value on top of the stack, if there is one. -/
def modifyTop (f : α → α) : InPlace α Unit :=
  modify fun memory => match memory.stack.getLast? with
    | some value => { memory with stack := memory.stack.dropLast ++ [f value] }
    | none => memory

/-- The variable at an address, if there is one. -/
def slot? (address : Nat) : InPlace α (Option α) := do
  return (← get).slots[address]?

/-- Puts a value into the slot at an address. -/
def assign (address : Nat) (value : α) : InPlace α Unit := do
  let memory ← get
  if address < memory.slots.length then set { memory with slots := memory.slots.set address value }
  else throw .outside

/-- Calls a function and notes the call. -/
def invoke (function : HostFunction α) (arguments : List α) : InPlace α α := do
  modify fun memory => { memory with calls := memory.calls ++ [(function, arguments)] }
  return function.body arguments

/-! ### What they do -/

/-- A fault leaves the memory as it is. -/
theorem apply_fail (fault : RunFault) :
    (fail fault : InPlace α β).apply memory = (.error (.fault fault), memory) := rfl

theorem apply_depth : (depth : InPlace α Nat).apply memory = (.ok memory.stack.length, memory) := rfl

/-- A position further down is there if there are as many places below. -/
theorem apply_below {position count : Nat} (h : count ≤ position) :
    (below position count : InPlace α Nat).apply memory = (.ok (position - count), memory) := by
  rw [below, if_pos h, apply_pure]

theorem apply_read {position : Nat} {value : α} (h : memory.stack[position]? = some value) :
    (read position).apply memory = (.ok value, memory) := by
  rw [read, apply_get_bind, h, apply_pure]

/-- The values from a position up to the top, where that position is not beyond it. -/
theorem apply_readFrom {position : Nat} (h : position ≤ memory.stack.length) :
    (readFrom position).apply memory = (.ok (memory.stack.drop position), memory) := by
  rw [readFrom, apply_get_bind, if_pos h, apply_pure]

theorem apply_truncate (position : Nat) : (truncate position).apply memory =
    (.ok (), { memory with stack := memory.stack.take position }) := rfl

theorem apply_push (value : α) : (push value).apply memory =
    (.ok (), { memory with stack := memory.stack ++ [value] }) := rfl

theorem apply_pop? : (pop? : InPlace α (Option α)).apply memory =
    (.ok memory.stack.getLast?, { memory with stack := memory.stack.dropLast }) := rfl

/-- The value on top is exchanged if there is one. -/
theorem apply_modifyTop {f : α → α} {value : α} (h : memory.stack.getLast? = some value) :
    (modifyTop f).apply memory =
      (.ok (), { memory with stack := memory.stack.dropLast ++ [f value] }) := by
  show (Except.ok (), match memory.stack.getLast? with
    | some value => { memory with stack := memory.stack.dropLast ++ [f value] }
    | none => memory) = _
  rw [h]

theorem apply_slot? (address : Nat) :
    (slot? address).apply memory = (.ok memory.slots[address]?, memory) := rfl

/-- A slot that is there is written. -/
theorem apply_assign {address : Nat} {value : α} (h : address < memory.slots.length) :
    (assign address value).apply memory =
      (.ok (), { memory with slots := memory.slots.set address value }) := by
  rw [assign, apply_get_bind, if_pos h]
  rfl

theorem apply_invoke (function : HostFunction α) (arguments : List α) :
    (invoke function arguments).apply memory =
      (.ok (function.body arguments),
        { memory with calls := memory.calls ++ [(function, arguments)] }) := rfl

end InPlace

variable {α : Type} [Scalar α]

/-! ## Instructions as sequences of accesses -/

namespace Instr

open InPlace Steps

/-- Fails unless there are `needed` values on the stack. -/
def require (instr : Instr) (available needed : Nat) : InPlace α Unit :=
  if available < needed then fail (.stackUnderflow instr needed available) else pure ()

/-- An instruction, access by access, in the order in which it makes them. -/
def execute (functions : FunctionTable α) (instr : Instr) : InPlace α Unit :=
  match instr with
  | push value => InPlace.push (Scalar.ofFloat value)
  | load address => do
    match ← slot? address with
    | some value => InPlace.push value
    | none => fail (.unboundAddress address)
  | store address => do
    instr.require (← depth) 1
    match ← slot? address with
    | none => fail (.unboundAddress address)
    | some _ =>
      match ← pop? with
      | some value => assign address value
      | none => pure ()
  | call name arity =>
    match functions.get? name with
    | none => fail (.unknownFunction name)
    | some function =>
      if function.arity ≠ arity then fail (.arityMismatch name function.arity arity)
      else do
        instr.require (← depth) arity
        let start ← below (← depth) arity
        let result ← invoke function (← readFrom start)
        truncate start
        InPlace.push result
  | binary op => do
    instr.require (← depth) 2
    let n ← depth
    let left ← read (← below n 2)
    let right ← read (← below n 1)
    truncate (← below n 2)
    InPlace.push (op.apply left right)
  | negate => do
    instr.require (← depth) 1
    modifyTop (-·)

end Instr

/-- Code, instruction by instruction, up to the first that is aborted. -/
def Code.execute (functions : FunctionTable α) : List Instr → InPlace α Unit
  | [] => pure ()
  | instr :: code => do
    instr.execute functions
    execute functions code

/-! ## They do what the machine does -/

/-- The machine that works on a memory. -/
def Memory.machine (memory : Memory α) : Machine α := ⟨memory.stack.reverse, memory.slots⟩

/-- The memory that a machine has, after some calls. -/
def Machine.memory (m : Machine α) (calls : List (HostFunction α × List α)) : Memory α :=
  ⟨m.stack.reverse, m.slots, calls⟩

omit [Scalar α] in
theorem Memory.memory_machine (memory : Memory α) :
    memory.machine.memory memory.calls = memory := by
  simp [machine, Machine.memory]

omit [Scalar α] in
theorem Machine.machine_memory (m : Machine α) (calls : List (HostFunction α × List α)) :
    (m.memory calls).machine = m := by
  simp [memory, Memory.machine]

section

omit [Scalar α]

variable (m : Machine α) (calls : List (HostFunction α × List α))

theorem Machine.length_memory_stack : (m.memory calls).stack.length = m.stack.length :=
  List.length_reverse

/-- Counted from the top of the memory, as its machine does. -/
theorem Machine.take_memory_stack {count : Nat} (h : count ≤ m.stack.length) :
    (m.memory calls).stack.take ((m.memory calls).stack.length - count) =
      (m.stack.drop count).reverse := by
  rw [m.length_memory_stack]
  show m.stack.reverse.take (m.stack.length - count) = _
  rw [List.take_reverse, Nat.sub_sub_self h]

/-- The values at the top of the machine are the last ones in the memory, in the order in which they
were pushed. -/
theorem Machine.drop_memory_stack {count : Nat} (h : count ≤ m.stack.length) :
    (m.memory calls).stack.drop ((m.memory calls).stack.length - count) =
      (m.stack.take count).reverse := by
  rw [m.length_memory_stack]
  show m.stack.reverse.drop (m.stack.length - count) = _
  rw [List.drop_reverse, Nat.sub_sub_self h]

end

namespace Instr

open InPlace Steps

/-- The call that an instruction makes if it succeeds. -/
def call? (functions : FunctionTable α) (m : Machine α) : Instr → Option (HostFunction α × List α)
  | call name arity => (functions.get? name).map (·, (m.stack.take arity).reverse)
  | _ => none

section

omit [Scalar α]

variable {instr : Instr} {needed : Nat} {next : Unit → InPlace α Unit} {memory : Memory α}

/-- With enough values on the stack, the check makes no difference. -/
theorem apply_require_of_le (h : needed ≤ memory.stack.length) :
    (depth >>= fun available => instr.require available needed >>= next).apply memory =
      (next ()).apply memory := by
  rw [apply_bind_of_ok apply_depth, require, if_neg (Nat.not_lt.2 h)]
  exact apply_bind_of_ok (apply_pure ())

/-- With too few values, the instruction ends there, and nothing has been changed. -/
theorem apply_require_of_lt (h : memory.stack.length < needed) :
    (depth >>= fun available => instr.require available needed >>= next).apply memory =
      (.error (.fault (.stackUnderflow instr needed memory.stack.length)), memory) := by
  rw [apply_bind_of_ok apply_depth, require, if_pos h]
  exact apply_bind_of_error (apply_fail _)

end

section

variable (functions : FunctionTable α) (stack slots : List α)
  (calls : List (HostFunction α × List α))

/-- A store takes the value on top of the stack to its slot, which is there. -/
theorem execute_store (value : α) {address : Nat} (h : address < slots.length) :
    ((store address).execute functions).apply ⟨stack ++ [value], slots, calls⟩ =
      (.ok (), ⟨stack, slots.set address value, calls⟩) := by
  have hdepth : 1 ≤ (stack ++ [value]).length := by simp
  rw [execute, apply_require_of_le hdepth, apply_bind_of_ok (apply_slot? address)]
  simp only [List.getElem?_eq_getElem h]
  rw [apply_bind_of_ok apply_pop?]
  simp only [List.getLast?_concat, List.dropLast_concat]
  exact apply_assign h

/-- A call whose function is found with its arity takes the arguments off, notes the call and puts
the result on top. -/
theorem execute_call {name : String} {function : HostFunction α} (arguments : List α)
    (hname : functions.get? name = some function) (harity : function.arity = arguments.length) :
    ((call name arguments.length).execute functions).apply ⟨stack ++ arguments, slots, calls⟩ =
      (.ok (), ⟨stack ++ [function.body arguments], slots, calls ++ [(function, arguments)]⟩) := by
  have hdepth : (stack ++ arguments).length = stack.length + arguments.length := List.length_append
  -- the arguments lie on top, so they start where the rest of the stack ends
  have henough : arguments.length ≤ (stack ++ arguments).length := by omega
  have hstart : (stack ++ arguments).length - arguments.length = stack.length := by omega
  simp only [execute, hname, harity, ne_eq, not_true_eq_false, if_false]
  rw [apply_require_of_le henough, apply_bind_of_ok apply_depth,
    apply_bind_of_ok (apply_below henough), hstart,
    apply_bind_of_ok (apply_readFrom (hdepth ▸ Nat.le_add_right _ _)), List.drop_left,
    apply_bind_of_ok (apply_invoke function arguments), apply_bind_of_ok (apply_truncate _),
    List.take_left, apply_push]

/-- A binary operation reads the left operand below the right one and puts the result in their
place. -/
theorem execute_binary (op : Operator) (left right : α) :
    ((binary op).execute functions).apply ⟨stack ++ [left, right], slots, calls⟩ =
      (.ok (), ⟨stack ++ [op.apply left right], slots, calls⟩) := by
  have hdepth : (stack ++ [left, right]).length = stack.length + 2 := List.length_append
  -- the two operands are the two last values
  have hleft : (stack ++ [left, right])[stack.length]? = some left := by simp
  have hright : (stack ++ [left, right])[stack.length + 1]? = some right := by simp
  rw [execute, apply_require_of_le (hdepth ▸ Nat.le_add_left 2 _),
    apply_bind_of_ok apply_depth, hdepth, apply_bind_of_ok (apply_below (Nat.le_add_left 2 _)),
    Nat.add_sub_cancel, apply_bind_of_ok (apply_read hleft),
    apply_bind_of_ok (apply_below (Nat.le_add_left 1 _)), Nat.add_sub_cancel,
    apply_bind_of_ok (apply_read hright), apply_bind_of_ok (apply_below (Nat.le_add_left 2 _)),
    Nat.add_sub_cancel, apply_bind_of_ok (apply_truncate _), List.take_left, apply_push]

/-- A negation changes the value on top. -/
theorem execute_negate (value : α) :
    (negate.execute functions).apply ⟨stack ++ [value], slots, calls⟩ =
      (.ok (), ⟨stack ++ [-value], slots, calls⟩) := by
  have hdepth : 1 ≤ (stack ++ [value]).length := by simp
  rw [execute, apply_require_of_le hdepth, apply_modifyTop List.getLast?_concat, List.dropLast_concat]

end

/-- A call does what it does in one step. The machine keeps its stack top first, so the arguments
come out of it reversed; in the memory they stand in order. -/
theorem execute_memory_call (functions : FunctionTable α) (name : String) (arity : Nat)
    (stack slots : List α) (calls : List (HostFunction α × List α)) :
    ((call name arity).execute functions).apply ⟨stack.reverse, slots, calls⟩ =
      match (call name arity).step functions ⟨stack, slots⟩ with
      | .error fault => (.error (.fault fault), ⟨stack.reverse, slots, calls⟩)
      | .ok next => (.ok (), ⟨next.stack.reverse, next.slots,
          calls ++ ((call name arity).call? functions ⟨stack, slots⟩).toList⟩) := by
  cases hname : functions.get? name with
  | none =>
    simp only [execute, step, hname]
    rfl
  | some function =>
    by_cases harity : function.arity = arity
    · by_cases hdepth : stack.length < arity
      · have hmemory : stack.reverse.length < arity := List.length_reverse.trans_lt hdepth
        -- too few values: both fail in the same way, before anything is read
        simp only [execute, step, hname, harity, ne_eq, not_true_eq_false, if_false, hdepth,
          if_true]
        rw [apply_require_of_lt hmemory, List.length_reverse]
      · -- the arguments are what is on top, in the order in which they were pushed
        have hsplit : stack.reverse = (stack.drop arity).reverse ++ (stack.take arity).reverse := by
          rw [← List.reverse_append, List.take_append_drop]
        have hlength : (stack.take arity).reverse.length = arity := by simp; omega
        have hcall := execute_call functions (stack.drop arity).reverse slots calls
          (stack.take arity).reverse hname (harity.trans hlength.symm)
        rw [hlength, ← hsplit] at hcall
        rw [hcall]
        simp [step, call?, hname, harity, hdepth]
    · simp only [execute, step, hname, harity, ne_eq, not_false_eq_true, if_true]
      rfl

/-- Access by access, an instruction does what it does in one step; a call that succeeds calls its
function once. -/
theorem execute_memory (functions : FunctionTable α) (instr : Instr) (m : Machine α)
    (calls : List (HostFunction α × List α)) :
    (instr.execute functions).apply (m.memory calls) =
      match instr.step functions m with
      | .error fault => (.error (.fault fault), m.memory calls)
      | .ok next => (.ok (), next.memory (calls ++ (instr.call? functions m).toList)) := by
  obtain ⟨stack, slots⟩ := m
  simp only [Machine.memory]
  cases instr with
  | push value => simp [execute, step, apply_push, call?]
  | load address =>
    rw [execute, apply_bind_of_ok (apply_slot? address), step]
    cases slots[address]? with
    | none => rfl
    | some value => simp [apply_push, call?]
  -- a store looks at the stack first and at its slot then, in either form
  | store address =>
    cases stack with
    | nil => exact apply_require_of_lt Nat.zero_lt_one
    | cons value rest =>
      by_cases haddress : address < slots.length
      · rw [List.reverse_cons, execute_store _ _ _ _ _ haddress]
        simp [step, haddress, call?]
      · have hdepth : 1 ≤ (value :: rest).reverse.length := by simp
        rw [execute, apply_require_of_le hdepth, apply_bind_of_ok (apply_slot? address)]
        simp only [List.getElem?_eq_none (Nat.le_of_not_lt haddress), step, if_neg haddress]
        rfl
  | call name arity =>
    exact execute_memory_call functions name arity stack slots calls
  | binary op =>
    rcases stack with _ | ⟨right, _ | ⟨left, rest⟩⟩
    · exact apply_require_of_lt Nat.zero_lt_two
    · exact apply_require_of_lt Nat.one_lt_two
    · have hstack : (right :: left :: rest).reverse = rest.reverse ++ [left, right] := by simp
      rw [hstack, execute_binary]
      simp [step, call?]
  | negate =>
    cases stack with
    | nil => exact apply_require_of_lt Nat.zero_lt_one
    | cons value rest =>
      rw [List.reverse_cons, execute_negate]
      simp [step, call?]

section

variable {functions : FunctionTable α} {m next : Machine α}

/-- What a call that succeeds has found and done. -/
theorem call_of_step {name : String} {arity : Nat}
    (h : (call name arity).step functions m = .ok next) :
    ∃ function, functions.get? name = some function ∧ function.arity = arity ∧
      arity ≤ m.stack.length ∧
      next.stack = function.body (m.stack.take arity).reverse :: m.stack.drop arity := by
  simp only [step] at h
  cases hname : functions.get? name with
  | none =>
    rw [hname] at h
    cases h
  | some function =>
    rw [hname] at h
    -- the machine checks arity and depth in this order; a step that succeeds has passed both
    by_cases harity : function.arity = arity
    · by_cases hdepth : m.stack.length < arity
      · simp [harity, hdepth] at h
      · simp only [harity, hdepth, ne_eq, not_true_eq_false, if_false] at h
        cases h
        exact ⟨function, rfl, harity, Nat.le_of_not_lt hdepth, rfl⟩
    · simp [harity] at h

/-- The call that an instruction has made hands over as many arguments as the instruction and the
function say. -/
theorem arity_of_step {instr : Instr} (h : instr.step functions m = .ok next)
    {made : HostFunction α × List α} (hmade : instr.call? functions m = some made) :
    ∃ name, instr = call name made.2.length ∧ functions.get? name = some made.1 ∧
      made.1.arity = made.2.length := by
  cases instr with
  | push | load | store | binary | negate => cases hmade
  | call name arity =>
    obtain ⟨function, hname, harity, hdepth, -⟩ := call_of_step h
    rw [call?, hname] at hmade
    cases hmade
    have hlength : (m.stack.take arity).reverse.length = arity := by simpa using hdepth
    exact ⟨name, by rw [hlength], hname, harity.trans hlength.symm⟩

end

end Instr

/-- Access by access, code does what the machine does. Its calls are those of the instructions that
it gets through, each with as many arguments as the instruction says. -/
theorem Code.execute_memory (functions : FunctionTable α) (code : List Instr) (m : Machine α)
    (calls : List (HostFunction α × List α)) :
    ∃ made : List (HostFunction α × List α),
      (execute functions code).apply (m.memory calls) =
        ((m.exec functions code).1.mapError .fault,
          (m.exec functions code).2.memory (calls ++ made)) ∧
      ∀ call ∈ made, ∃ name, Instr.call name call.2.length ∈ m.completed functions code ∧
        functions.get? name = some call.1 ∧ call.1.arity = call.2.length := by
  induction code generalizing m calls with
  | nil => exact ⟨[], by simp [execute, Steps.apply_pure, Machine.exec, Except.mapError], nofun⟩
  | cons instr code ih =>
    have hinstr := instr.execute_memory functions m calls
    rw [execute, Machine.exec, Machine.completed]
    cases hstep : instr.step functions m with
    | error fault =>
      rw [hstep] at hinstr
      -- the first instruction fails, so the rest is not reached and no call is made
      refine ⟨[], ?_, nofun⟩
      rw [Steps.apply_bind_of_error hinstr, List.append_nil]
      rfl
    | ok next =>
      rw [hstep] at hinstr
      -- the rest starts on the memory that the first instruction has left
      obtain ⟨made, hrest, hmade⟩ := ih next (calls ++ (instr.call? functions m).toList)
      refine ⟨(instr.call? functions m).toList ++ made, ?_, fun call hcall => ?_⟩
      · rw [Steps.apply_bind_of_ok hinstr, hrest, List.append_assoc]
      · rcases List.mem_append.1 hcall with hcall | hcall
        · obtain ⟨name, hcalled, hfunction⟩ :=
            Instr.arity_of_step hstep (Option.mem_toList.1 hcall)
          exact ⟨name, hcalled ▸ List.mem_cons_self, hfunction⟩
        · obtain ⟨name, hmem, hfunction⟩ := hmade call hcall
          exact ⟨name, List.mem_cons_of_mem _ hmem, hfunction⟩

/-! ## What an instruction does that succeeds -/

/-- A call has handed the values that it takes to the function that its name is bound to, in the
order in which they were pushed; any other instruction has called nothing. -/
def Instr.HasCalled (functions : FunctionTable α) (before after : Memory α) : Instr → Prop
  | call name arity => ∃ function, functions.get? name = some function ∧
      function.arity = arity ∧
      after.calls = before.calls ++ [(function, before.stack.drop (before.stack.length - arity))]
  | _ => after.calls = before.calls

/-- What has become of the memory if an instruction has succeeded: the values that it takes were
there, those that it leaves are in their place, and everything below is untouched; no variable but
that of a store has changed. -/
structure Instr.Effect (functions : FunctionTable α) (instr : Instr) (before after : Memory α) :
    Prop where
  pops_le : instr.pops ≤ before.stack.length
  stack : ∃ results : List α, results.length = instr.pushes ∧
    after.stack = before.stack.take (before.stack.length - instr.pops) ++ results
  length_slots : after.slots.length = before.slots.length
  slots (address : Nat) : instr ≠ .store address → after.slots[address]? = before.slots[address]?
  calls : instr.HasCalled functions before after

/-- What an instruction takes is on top of the stack, and what it leaves takes the place of that. -/
theorem Instr.stack_step {functions : FunctionTable α} {m next : Machine α} {instr : Instr}
    (h : instr.step functions m = .ok next) :
    instr.pops ≤ m.stack.length ∧
      ∃ results : List α, results.length = instr.pushes ∧
        next.stack = results ++ m.stack.drop instr.pops := by
  obtain ⟨stack, slots⟩ := m
  -- of each instruction, what it takes from the top and what it puts there; it fails if that is not
  -- there
  cases instr with
  | push value =>
    cases h
    exact ⟨Nat.zero_le _, [_], rfl, rfl⟩
  | load address =>
    simp only [step] at h
    split at h <;> cases h
    exact ⟨Nat.zero_le _, [_], rfl, rfl⟩
  | store address =>
    simp only [step] at h
    split at h
    · cases h
    · split at h <;> cases h
      exact ⟨Nat.le_add_left 1 _, [], rfl, rfl⟩
  | call name arity =>
    obtain ⟨function, -, -, hdepth, hnext⟩ := call_of_step h
    exact ⟨hdepth, [_], rfl, hnext⟩
  | binary op =>
    simp only [step] at h
    split at h <;> cases h
    exact ⟨Nat.le_add_left 2 _, [_], rfl, rfl⟩
  | negate =>
    simp only [step] at h
    split at h <;> cases h
    exact ⟨Nat.le_add_left 1 _, [_], rfl, rfl⟩

/-- A step that succeeds has the effect that its instruction declares, on the memory of its machine.
-/
theorem Instr.effect_of_step {functions : FunctionTable α} {m next : Machine α} {instr : Instr}
    (h : instr.step functions m = .ok next) (calls : List (HostFunction α × List α)) :
    instr.Effect functions (m.memory calls)
      (next.memory (calls ++ (instr.call? functions m).toList)) := by
  obtain ⟨hpops, results, hresults, hstack⟩ := stack_step h
  constructor
  · rw [m.length_memory_stack]
    exact hpops
  -- in memory the top of the stack is at the end
  · refine ⟨results.reverse, by rw [List.length_reverse, hresults], ?_⟩
    rw [m.take_memory_stack calls hpops, ← List.reverse_append, ← hstack]
    rfl
  · exact length_slots_step h
  · intro address hne
    refine slots_step h fun htarget => hne ?_
    cases instr <;> cases htarget
    rfl
  · cases instr with
    | call name arity =>
      obtain ⟨function, hname, harity, hdepth, -⟩ := call_of_step h
      refine ⟨function, hname, harity, ?_⟩
      rw [m.drop_memory_stack calls hdepth, call?, hname]
      rfl
    | push | load | store | binary | negate => exact List.append_nil calls

/-! ## The standard functions -/

/-- Arguments as a standard function takes them apart: each is read, and nothing beyond them. -/
inductive FunctionTable.TakenApart : HostFunction α → List α → Prop where
  | unary (f : α → α) (a : α) : TakenApart (unary f) [a]
  | binary (f : α → α → α) (a b : α) : TakenApart (binary f) [a, b]

namespace FunctionTable

/-- One argument is all that a unary function reads. -/
theorem takenApart_unary (f : α → α) {arguments : List α} (h : arguments.length = 1) :
    TakenApart (unary f) arguments := by
  obtain ⟨a, rfl⟩ := List.length_eq_one_iff.1 h
  exact .unary f a

/-- Two arguments are all that a binary function reads. -/
theorem takenApart_binary (f : α → α → α) {arguments : List α} (h : arguments.length = 2) :
    TakenApart (binary f) arguments := by
  obtain ⟨a, b, rfl⟩ := List.length_eq_two.1 h
  exact .binary f a b

/-- Every standard function is made of a unary or of a binary operation, as the table of bindings
has it. -/
theorem unary_or_binary_of_standard {name : String} {function : HostFunction α}
    (h : standard.get? name = some function) :
    (∃ f, function = unary f) ∨ ∃ f, function = binary f := by
  have hall : ∀ binding ∈ (standardBindings : List (String × HostFunction α)),
      (∃ f, binding.2 = unary f) ∨ ∃ f, binding.2 = binary f := by
    simp only [standardBindings]
    -- one goal for each of the forty bindings
    repeat' first
      | exact List.forall_mem_nil _
      | refine List.forall_mem_cons.2 ⟨.inl ⟨_, rfl⟩, ?_⟩
      | refine List.forall_mem_cons.2 ⟨.inr ⟨_, rfl⟩, ?_⟩
  obtain ⟨front, behind, hsplit, -⟩ := List.lookup_eq_some_iff.1 h
  exact hall (name, function) (by rw [show standardBindings = _ from hsplit]; simp)

/-- A standard function that gets as many arguments as it is bound with finds each that it reads. -/
theorem standard_takenApart {name : String} {function : HostFunction α}
    (h : standard.get? name = some function) {arguments : List α}
    (harity : function.arity = arguments.length) : TakenApart function arguments := by
  obtain ⟨f, rfl⟩ | ⟨f, rfl⟩ := unary_or_binary_of_standard h
  · exact takenApart_unary f harity.symm
  · exact takenApart_binary f harity.symm

end FunctionTable

/-! ## Any run -/

/-- Every instruction and all code, on any memory and with any functions, do what the machine does,
and no access asks for a place that is not there. An instruction that fails leaves everything as it
was; one that succeeds has the effect that it declares. Functions are called by calls that succeed,
with as many arguments as they are bound with, and so a standard function finds each argument that it
reads. -/
theorem Code.execute_safe (functions : FunctionTable α) :
    (∀ (instr : Instr) (memory : Memory α),
      match (instr.execute functions).apply memory with
      | (.ok (), after) =>
        instr.step functions memory.machine = .ok after.machine ∧
          instr.Effect functions memory after
      | (.error (.fault fault), after) =>
        instr.step functions memory.machine = .error fault ∧ after = memory
      | (.error .outside, _) => False) ∧
    ∀ (code : List Instr) (memory : Memory α), ∃ made : List (HostFunction α × List α),
      (execute functions code).apply memory =
        ((memory.machine.exec functions code).1.mapError .fault,
          (memory.machine.exec functions code).2.memory (memory.calls ++ made)) ∧
      ∀ call ∈ made,
        (∃ name, Instr.call name call.2.length ∈ memory.machine.completed functions code ∧
          functions.get? name = some call.1) ∧
        call.1.arity = call.2.length ∧
        ∀ name, FunctionTable.standard.get? name = some call.1 →
          FunctionTable.TakenApart call.1 call.2 := by
  constructor
  -- single instructions
  · intro instr memory
    have hinstr := instr.execute_memory functions memory.machine memory.calls
    rw [memory.memory_machine] at hinstr
    rw [hinstr]
    cases hstep : instr.step functions memory.machine with
    | error fault => exact ⟨rfl, rfl⟩
    | ok next =>
      have heffect := Instr.effect_of_step hstep memory.calls
      rw [memory.memory_machine] at heffect
      exact ⟨congrArg Except.ok (next.machine_memory _).symm, heffect⟩
  -- whole runs
  · intro code memory
    obtain ⟨made, hcode, hmade⟩ := execute_memory functions code memory.machine memory.calls
    rw [memory.memory_machine] at hcode
    refine ⟨made, hcode, fun call hcall => ?_⟩
    obtain ⟨name, hcompleted, hname, harity⟩ := hmade call hcall
    exact ⟨⟨name, hcompleted, hname⟩, harity, fun _ hstandard =>
      FunctionTable.standard_takenApart hstandard harity⟩

end FormulaMachine
