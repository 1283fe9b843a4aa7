import FormulaMachine.Proofs.Workspace.Agreement

/-!
# Code on more variables than it was made for

Code uses the variables at the addresses in it. Machines that have these variables in common run it
alike, whatever other variables each of them has.

* **`Machine.Share`**: machines with some variables in common.
* **`Machine.exec_of_share`**: runs of them end alike.
* **`Workspace.evaluate_of_share`**: so do evaluations.
-/

namespace FormulaMachine

variable {α : Type} [Scalar α]

/-- The same stack, and at each address where `q` holds the same value, or no variable in either. -/
structure Machine.Share (q : Nat → Prop) (m n : Machine α) : Prop where
  stack : m.stack = n.stack
  slots : ∀ a, q a → m.slots[a]? = n.slots[a]?

namespace Machine.Share

variable {q : Nat → Prop} {m n : Machine α}

omit [Scalar α]

/-- At an address that they share both machines have a variable, or neither has. -/
theorem lt_length_iff (h : m.Share q n) {a : Nat} (ha : q a) :
    a < m.slots.length ↔ a < n.slots.length := by
  rw [← Nat.not_le, ← Nat.not_le, ← List.getElem?_eq_none_iff, ← List.getElem?_eq_none_iff,
    h.slots a ha]

/-- After the same store at an address that they share, machines share as much as before. -/
theorem store (h : m.Share q n) (rest : List α) {address : Nat} (ha : q address) (value : α) :
    Share q ⟨rest, m.slots.set address value⟩ ⟨rest, n.slots.set address value⟩ := by
  refine ⟨rfl, fun b hb => ?_⟩
  show (m.slots.set address value)[b]? = (n.slots.set address value)[b]?
  rw [List.getElem?_set, List.getElem?_set]
  split
  · next heq =>
    subst heq
    simp only [h.lt_length_iff ha]
  · exact h.slots b hb

end Machine.Share

/-- An instruction does the same on machines that have the variable at its address in common. -/
theorem Instr.step_of_share (functions : FunctionTable α) {q : Nat → Prop} {m n : Machine α}
    (h : m.Share q n) {instr : Instr}
    (haddress : ∀ a, instr.source? = some a ∨ instr.target? = some a → q a) :
    Alike (Machine.Share q) (instr.step functions m) (instr.step functions n) := by
  have hmirrored : Alike (instr.Mirrored m n) (instr.step functions m) (instr.step functions n) :=
    step_mirrored functions h.stack (fun a ha => h.slots a (haddress a (.inl ha))) fun a ha =>
      h.lt_length_iff (haddress a (.inr ha))
  refine hmirrored.mono fun next next' hnext => ?_
  -- no store, or the same one at a shared address
  obtain ⟨htarget, hm, hn⟩ | ⟨a, value, htarget, hm, hn⟩ := hnext.slots
  · refine ⟨hnext.stack, fun b hb => ?_⟩
    rw [hm, hn]
    exact h.slots b hb
  · have hstored := h.store next.stack (haddress a (.inr htarget)) value
    refine ⟨hnext.stack, fun b hb => ?_⟩
    rw [hm, hn]
    exact hstored.slots b hb

/-- Runs on machines that have all variables of the code in common have the same outcome, and leave
the same stack and the same values in these variables. -/
theorem Machine.exec_of_share (functions : FunctionTable α) {q : Nat → Prop} {code : List Instr}
    {m n : Machine α} (h : m.Share q n)
    (hcode : ∀ instr ∈ code, ∀ a, instr.source? = some a ∨ instr.target? = some a → q a) :
    (m.exec functions code).1 = (n.exec functions code).1 ∧
      (m.exec functions code).2.Share q (n.exec functions code).2 := by
  induction code generalizing m n with
  | nil => exact ⟨rfl, h⟩
  | cons instr code ih =>
    rw [List.forall_mem_cons] at hcode
    have hstep := Instr.step_of_share functions h hcode.1
    rw [exec, exec]
    generalize instr.step functions m = left, instr.step functions n = right at hstep ⊢
    cases hstep with
    | error fault => exact ⟨rfl, h⟩
    | ok hnext => exact ih hnext hcode.2

namespace Workspace

/-- The value that a run finds at an address: that of its slot, or zero if there is none yet. -/
theorem getElem?_slots_grow (w : Workspace α) {a : Nat} (h : a < w.names.size) :
    w.grow.slots[a]? = some (w.slots[a]?.getD Scalar.zero) := by
  unfold grow
  by_cases hslot : a < w.slots.length
  · rw [List.getElem?_append_left hslot, List.getElem?_eq_getElem hslot]
    rfl
  · have hnew : a - w.slots.length < w.names.size - w.slots.length := by omega
    rw [List.getElem?_append_right (by omega), List.getElem?_replicate, if_pos hnew,
      List.getElem?_eq_none (by omega)]
    rfl

/-- Evaluations with the same functions, and with the same values at the addresses in the code, have
the same result. -/
theorem evaluate_of_share {q : Nat → Prop} {w v : Workspace α} {program : Program}
    (hfunctions : w.functions = v.functions)
    (hslots : ∀ a, q a → w.grow.slots[a]? = v.grow.slots[a]?)
    (hcode : ∀ instr ∈ program.code, ∀ a,
      instr.source? = some a ∨ instr.target? = some a → q a) :
    (w.evaluate program).1 = (v.evaluate program).1 := by
  have hstart : w.start.Share q v.start := ⟨rfl, hslots⟩
  obtain ⟨houtcome, hshare⟩ := Machine.exec_of_share w.functions hstart hcode
  rw [evaluate_fst, evaluate_fst, ← hfunctions, houtcome, hshare.stack]

end Workspace

end FormulaMachine
