import FormulaMachine.Proofs.Names.Emission
import FormulaMachine.Proofs.Workspace.Agreement

/-!
# Workspaces in use

Names and values of a workspace are kept apart, and different operations change them. Compiling adds
names only and leaves it to `grow` to add the values; a run changes values by address, whatever
names its program was compiled on. Through all of it there stays one value for each name.

* `Workspace.Origin`, `Workspace.Operation`: how workspaces are made, and what is done with them.
* **`Workspace.complete_after`**: no operation breaks the balance of names and values.
* **`Workspace.after_names_isPrefix`**: names are added at the end only.
* **`Workspace.get?_set`**: what is read after a variable is set.
* **`Workspace.layout_after`**: what holds of a workspace at any time.
-/

namespace FormulaMachine

namespace Workspace

/-- How a workspace is made. -/
inductive Origin where
  | empty
  | ofNames (names : NameTable)
  | forProgram (program : Program)

/-- What can be done with a workspace. Reading is left out, since it changes nothing. -/
inductive Operation (α : Type) where
  | set (name : String) (value : α)
  | setAt (address : Nat) (value : α)
  | resolve (name : String)
  | compile (options : Options) (source : String)
  | register (name : String) (function : HostFunction α)
  | registerStandard
  | run (program : Program)
  | evaluate (program : Program)

variable {α : Type} [Scalar α]

/-- The workspace that is made. -/
def Origin.workspace : Origin → Workspace α
  | empty => .empty
  | ofNames names => .ofNames names
  | forProgram program => .forProgram program

/-- The workspace after an operation, whether it had an answer or not. -/
def perform (w : Workspace α) : Operation α → Workspace α
  | .set name value => (w.set name value).2
  | .setAt address value => (w.setAt address value).2
  | .resolve name => (w.resolve name).2
  | .compile options source => (w.compile options source).2
  | .register name function => w.register name function
  | .registerStandard => w.registerStandard
  | .run program => (w.run program).2
  | .evaluate program => (w.evaluate program).2

/-- The workspace after operations in order. -/
def after (w : Workspace α) (operations : List (Operation α)) : Workspace α :=
  operations.foldl perform w

variable {w : Workspace α}

/-! ## As many values as names -/

theorem complete_workspace (origin : Origin) : (origin.workspace : Workspace α).Complete := by
  cases origin <;> exact List.length_replicate

/-- Growing changes nothing where every name has its value. -/
theorem Complete.grow_eq (h : w.Complete) : w.grow = w := by
  show { w with slots := w.grow.slots } = w
  rw [h.slots_grow]

/-- Where names are added at the end, growing gives each of them a value. -/
theorem Complete.grow_names (h : w.Complete) {names : NameTable}
    (hpre : w.names.names <+: names.names) : (grow { w with names }).Complete :=
  complete_grow (h.trans_le hpre.length_le)

/-- A name that is resolved gets an address and a value. -/
theorem Complete.resolve (h : w.Complete) (name : String) : (w.resolve name).2.Complete :=
  h.grow_names (w.names.resolve_names_isPrefix name)

omit [Scalar α] in
/-- A value is exchanged, or none where the address is not there. -/
theorem Complete.setAt (h : w.Complete) (address : Nat) (value : α) :
    (w.setAt address value).2.Complete :=
  (List.length_set ..).trans h

/-- A text that compiles leaves its names, with a value for each. -/
theorem compile_of_ok {options : Options} {source : String} {program : Program}
    (h : Program.compile options w.names source = .ok program) :
    w.compile options source = (.ok program, grow { w with names := program.names }) := by
  rw [compile, h]

/-- A text that is no formula leaves everything as it is. -/
theorem compile_of_error {options : Options} {source : String} {fault : CompileFault}
    (h : Program.compile options w.names source = .error fault) :
    w.compile options source = (.error fault, w) := by
  rw [compile, h]

/-- Compiling adds as many values as names. -/
theorem Complete.compile (h : w.Complete) (options : Options) (source : String) :
    (w.compile options source).2.Complete := by
  cases hcompile : Program.compile options w.names source with
  | error fault =>
    rw [compile_of_error hcompile]
    exact h
  | ok program =>
    rw [compile_of_ok hcompile]
    exact h.grow_names (Program.names_isPrefix_of_compile hcompile)

/-- A run exchanges values and adds none. -/
theorem Complete.run (h : w.Complete) (program : Program) : (w.run program).2.Complete := by
  rw [Complete, length_slots_run, h.slots_grow]
  exact h

/-- No operation breaks the balance of names and values. -/
theorem Complete.perform (h : w.Complete) (operation : Operation α) :
    (w.perform operation).Complete := by
  cases operation with
  | set name value => exact complete_set h name value
  | setAt address value => exact h.setAt address value
  | resolve name => exact h.resolve name
  | compile options source => exact h.compile options source
  | register | registerStandard => exact h
  | run program => exact h.run program
  | evaluate program => exact h.evaluate program

/-- However a complete workspace is used, every name keeps a value: by induction on the operations.
-/
theorem complete_after (h : w.Complete) (operations : List (Operation α)) :
    (w.after operations).Complete := by
  induction operations generalizing w with
  | nil => exact h
  | cons operation operations ih => exact ih (h.perform operation)

/-! ## Names stay -/

/-- An operation adds names at the end, or none. -/
theorem perform_names_isPrefix (w : Workspace α) (operation : Operation α) :
    w.names.names <+: (w.perform operation).names.names := by
  cases operation with
  | set name value => exact w.names.resolve_names_isPrefix name
  | resolve name => exact w.names.resolve_names_isPrefix name
  | compile options source =>
    show _ <+: (w.compile options source).2.names.names
    cases hcompile : Program.compile options w.names source with
    | error fault => rw [compile_of_error hcompile]
    | ok program =>
      -- the program was compiled on the names of the workspace
      rw [compile_of_ok hcompile]
      exact Program.names_isPrefix_of_compile hcompile
  | evaluate program =>
    show _ <+: (w.evaluate program).2.names.names
    rw [names_evaluate]
  | setAt | register | registerStandard | run => exact List.prefix_refl _

/-- However a workspace is used, the names that it had stay in front: by induction on the
operations. -/
theorem after_names_isPrefix (w : Workspace α) (operations : List (Operation α)) :
    w.names.names <+: (w.after operations).names.names := by
  induction operations generalizing w with
  | nil => exact List.prefix_refl _
  | cons operation operations ih => exact (w.perform_names_isPrefix operation).trans (ih _)

/-! ## Reading variables -/

omit [Scalar α] in
theorem get?_of_address? {name : String} {address : Nat}
    (h : w.names.address? name = some address) : w.get? name = w.slots[address]? := by
  rw [get?, h, Option.bind_some]

omit [Scalar α] in
theorem get?_eq_none_of_not_mem {name : String} (h : name ∉ w.names.names) :
    w.get? name = none := by
  rw [get?, NameTable.address?_eq_none_iff.2 h, Option.bind_none]

omit [Scalar α] in
/-- Every address is that of a value. -/
theorem Complete.address?_lt (h : w.Complete) {name : String} {address : Nat}
    (haddress : w.names.address? name = some address) : address < w.slots.length :=
  (NameTable.address?_lt_size haddress).trans_eq h.symm

omit [Scalar α] in
/-- Exactly the names of the table have a value. -/
theorem Complete.isSome_get?_iff (h : w.Complete) (name : String) :
    (w.get? name).isSome ↔ name ∈ w.names.names := by
  by_cases hname : name ∈ w.names.names
  · obtain ⟨address, haddress⟩ := NameTable.exists_address? hname
    rw [get?_of_address? haddress, List.getElem?_eq_getElem (h.address?_lt haddress)]
    simp [hname]
  · rw [get?_eq_none_of_not_mem hname]
    simp [hname]

/-- An address that a name has just got is that of a value. -/
theorem Complete.resolve_fst_lt (h : w.Complete) (name : String) :
    (w.resolve name).1 < (w.resolve name).2.slots.length :=
  (h.resolve name).address?_lt (w.names.address?_resolve name)

/-- Giving a name an address gives no other name a value, and no name another value. -/
theorem get?_resolve_of_ne (h : w.Complete) {name other : String} (hne : other ≠ name) :
    (w.resolve name).2.get? other = w.get? other := by
  have hsame : (w.resolve name).2.names.address? other = w.names.address? other :=
    NameTable.address?_resolve_of_ne hne
  -- the values of other names are in front of the one that is added
  cases hother : w.names.address? other with
  | some address =>
    rw [get?_of_address? (hsame.trans hother), get?_of_address? hother]
    exact List.getElem?_append_left (h.address?_lt hother)
  | none => rw [get?, get?, hsame, hother, Option.bind_none, Option.bind_none]

/-- After a variable is set, its name has the new value and every other name what it had. -/
theorem get?_set (h : w.Complete) (name other : String) (value : α) :
    (w.set name value).2.get? other = if other = name then some value else w.get? other := by
  have haddress : (w.set name value).2.names.address? name = some (w.resolve name).1 :=
    w.names.address?_resolve name
  split
  · next hsame =>
    subst hsame
    rw [get?_of_address? haddress]
    show ((w.resolve other).2.slots.set (w.resolve other).1 value)[(w.resolve other).1]? = _
    exact List.getElem?_set_self (h.resolve_fst_lt other)
  · next hne =>
    rw [← get?_resolve_of_ne h hne]
    -- another name has another address, where the store is not seen
    cases hother : (w.resolve name).2.names.address? other with
    | none =>
      have habsent := NameTable.address?_eq_none_iff.1 hother
      rw [get?_eq_none_of_not_mem habsent]
      exact get?_eq_none_of_not_mem habsent
    | some address =>
      have hdistinct : (w.resolve name).1 ≠ address := by
        rintro rfl
        exact hne (NameTable.address?_inj hother haddress)
      have hafter : (w.set name value).2.names.address? other = some address := hother
      rw [get?_of_address? hother, get?_of_address? hafter]
      exact List.getElem?_set_ne hdistinct

/-! ## At any time -/

/-- After any operations, in any order and whatever becomes of them, a workspace has as many values
as names, and each name has the address of one. Addresses stay through all that follows. So a
variable that is set has a place for its value, exactly the names of the table have values, and
setting one changes no other; a run finds no value missing, and a text that does not compile leaves
no trace. -/
theorem layout_after (origin : Origin) (earlier later : List (Operation α)) :
    let w : Workspace α := origin.workspace.after earlier
    w.slots.length = w.names.size ∧
      (∀ name ∈ w.names.names, ∃ address, w.names.address? name = some address ∧
        address < w.slots.length) ∧
      (∀ name address, w.names.address? name = some address →
        (w.after later).names.address? name = some address) ∧
      (∀ name, (w.resolve name).1 < (w.resolve name).2.slots.length) ∧
      (∀ name, (w.get? name).isSome ↔ name ∈ w.names.names) ∧
      (∀ name value other, (w.set name value).2.get? other =
        if other = name then some value else w.get? other) ∧
      grow { w with stack := [] } = { w with stack := [] } ∧
      ∀ options source fault, (w.compile options source).1 = .error fault →
        (w.compile options source).2 = w := by
  intro w
  -- everything follows from the layout: a value for each name, and names that only get more
  have h : w.Complete := complete_after (complete_workspace origin) earlier
  refine ⟨h, fun name hname => ?_, fun name address haddress => ?_, h.resolve_fst_lt,
    h.isSome_get?_iff, fun name value other => get?_set h name other value, ?_,
    fun options source fault hfault => ?_⟩
  · obtain ⟨address, haddress⟩ := NameTable.exists_address? hname
    exact ⟨address, haddress, h.address?_lt haddress⟩
  · exact NameTable.address?_of_isPrefix (w.after_names_isPrefix later) haddress
  · have hcleared : Complete { w with stack := [] } := h
    exact hcleared.grow_eq
  · cases hcompile : Program.compile options w.names source with
    | error fault' => rw [compile_of_error hcompile]
    | ok program =>
      rw [compile_of_ok hcompile] at hfault
      cases hfault

set_option maxRecDepth 10000 in
/-- A formula is compiled into the workspace, and then a program from elsewhere stores at the
address of `x` and fails at an address that is not there. -/
theorem layout_after_of_foreign_program :
    let foreign : Program := ⟨"", ⟨[]⟩, [.push 7, .store 0, .push 1, .store 5], ⟨["a"], by decide⟩⟩
    let w : Workspace Float :=
      (Origin.ofNames ⟨["x"], by decide⟩).workspace.after [.compile {} "y = x + z", .run foreign]
    w.names = ⟨["x", "z", "y"], by decide⟩ ∧ w.slots = [7, 0, 0] ∧
      (w.after [.set "a" 1, .resolve "b"]).names.address? "y" = some 2 ∧
      (w.get? "y").isSome ∧ (w.set "z" 4).2.get? "x" = some 7 ∧
      (w.compile {} "y + (").2 = w := by
  intro foreign w
  let formula : Formula := ⟨[.assign "y" (.binary .add (.var "x") (.var "z"))]⟩
  have hparse : Formula.parse "y = x + z" = .ok formula := by cbv
  have hcompile : Program.compile {} ⟨["x"], by decide⟩ "y = x + z" = .ok ⟨"y = x + z", formula,
      [.load 0, .load 1, .binary .add, .store 2], ⟨["x", "z", "y"], by decide⟩⟩ := by
    rw [Program.compile, hparse]
    rfl
  -- the failed store has left its value on the stack
  have hw : w = ⟨[1], ⟨["x", "z", "y"], by decide⟩, [7, 0, 0], .empty⟩ := by
    show (((Workspace.ofNames ⟨["x"], by decide⟩).compile {} "y = x + z").2.run foreign).2 = _
    rw [compile_of_ok hcompile]
    rfl
  -- the last text is no formula, since an expression is missing at its end
  have hmalformed : ∃ fault, Formula.parse "y + (" = .error fault := ⟨_, by cbv⟩
  obtain ⟨fault, hfault⟩ := hmalformed
  have hfailure : (w.compile {} "y + (").1 = .error (.malformed "y + (" fault) := by
    rw [hw, compile, Program.compile, hfault]
  obtain ⟨-, -, haddress, -, hget, hset, -, hfailed⟩ :=
    layout_after (α := Float) (.ofNames ⟨["x"], by decide⟩) [.compile {} "y = x + z", .run foreign]
      [.set "a" 1, .resolve "b"]
  have hy : w.names.address? "y" = some 2 := by
    rw [hw]
    rfl
  have hmem : "y" ∈ w.names.names := by
    rw [hw]
    decide
  have hx : w.get? "x" = some 7 := by
    rw [hw]
    rfl
  refine ⟨by rw [hw], by rw [hw], haddress "y" 2 hy, (hget "y").2 hmem, ?_,
    hfailed {} "y + (" _ hfailure⟩
  exact (hset "z" 4 "x").trans hx

end Workspace

end FormulaMachine
