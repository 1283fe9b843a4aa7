import FormulaMachine.Machine.FunctionTable
import Mathlib

/-!
# Tables with the standard functions bound

Adding a table to another one registers its bindings one by one, so the later of two bindings of one
name wins. A table that binds no name twice is found again as it is.

* **`get?_extend`**: what a name is bound to once a table is added.
* **`bindsStandard_extend`**: adding the standard functions to a table without bindings binds
  exactly them.
-/

namespace FormulaMachine.FunctionTable

variable {α : Type}

/-- A name that no binding has is not found. -/
theorem lookup_eq_none_of_not_mem {bindings : List (String × HostFunction α)} {name : String}
    (h : name ∉ bindings.map Prod.fst) : bindings.lookup name = none := by
  rw [List.lookup_eq_none_iff]
  intro binding hbinding
  have hne : name ≠ binding.1 := fun heq => h (heq ▸ List.mem_map_of_mem hbinding)
  simpa using hne

/-- Registering bindings one after another, each name once, puts them in front of the table: a name
that one of them binds is found there, and every other one in the table as it was. -/
theorem get?_foldl_register {bindings : List (String × HostFunction α)}
    (hnodup : (bindings.map Prod.fst).Nodup) (table : FunctionTable α) (name : String) :
    (bindings.foldl (fun t binding => t.register binding.1 binding.2) table).get? name =
      (bindings.lookup name).or (table.get? name) := by
  induction bindings generalizing table with
  | nil => rfl
  | cons binding bindings ih =>
    obtain ⟨key, function⟩ := binding
    obtain ⟨hkey, hrest⟩ := List.nodup_cons.1 hnodup
    rw [List.foldl_cons, ih hrest, get?_register, List.lookup_cons]
    -- if the name is that of the first binding, no later one has it
    by_cases h : name = key
    · subst h
      rw [lookup_eq_none_of_not_mem hkey]
      simp
    · rw [if_neg h, beq_false_of_ne h]

/-- What the added table binds is found there, everything else where it was. -/
theorem get?_extend (table other : FunctionTable α) (name : String) :
    (table.extend other).get? name = (other.get? name).or (table.get? name) :=
  get?_foldl_register other.nodup table name

variable [Scalar α]

/-- The standard functions are bound and nothing else is, in whatever order they were registered. -/
def BindsStandard (table : FunctionTable α) : Prop :=
  ∀ name, table.get? name = standard.get? name

theorem bindsStandard_standard : (standard : FunctionTable α).BindsStandard := fun _ => rfl

/-- Added to a table without bindings, the standard functions are bound as they are, and nothing
else is. -/
theorem bindsStandard_extend : ((empty : FunctionTable α).extend standard).BindsStandard :=
  fun name => by
    rw [get?_extend]
    exact Option.or_none

end FormulaMachine.FunctionTable
