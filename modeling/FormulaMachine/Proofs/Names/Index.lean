import FormulaMachine.Proofs.Names.Accesses
import Mathlib

/-!
# Names with an index

A table of names finds an address by going through its names. Beside the names it may keep an index, a
map from names to addresses. Names and index are two copies of one relation: they are asked separately,
and `resolve` changes them one after the other. Through all calls they stay in step, and the names are
numbered in the order in which they are resolved first.

* `NameTable.Call`, `NameTable.Reply`: what a table is asked, and what it answers.
* `IndexedTable`: names and index side by side.
* **`NameTable.names_after`**: the names stand in the order in which they were resolved first.
* **`IndexedTable.InStep.perform`**: no call lets names and index drift apart.
* **`NameTable.bijection_after`**: what holds of a table at any time.
-/

namespace FormulaMachine

namespace NameTable

/-! ## Calls -/

/-- What a table is asked. -/
inductive Call where
  | resolve (name : String)
  | addressOf (name : String)
  | nameAt (address : Nat)
  | entries
  deriving DecidableEq, Repr

/-- What it answers. -/
inductive Reply where
  | address (address? : Option Nat)
  | name (name? : Option String)
  | entries (entries : List (Nat × String))
  deriving DecidableEq, Repr

/-- The name that a call gives an address, if it is new. -/
def Call.resolved? : Call → Option String
  | resolve name => some name
  | addressOf _ | nameAt _ | entries => none

/-- The names that calls resolve, each of them once and in the order in which they come first. -/
def distinctNames (calls : List Call) : List String := (calls.filterMap Call.resolved?).eraseDups

/-- The names with their addresses. -/
def entries (table : NameTable) : List (Nat × String) :=
  table.names.mapIdx fun address name => (address, name)

/-- The answer to a call, and the table after it. -/
def perform (table : NameTable) : Call → Reply × NameTable
  | .resolve name => (.address (table.resolve name).1, (table.resolve name).2)
  | .addressOf name => (.address (table.address? name), table)
  | .nameAt address => (.name (table.nameAt? address), table)
  | .entries => (.entries table.entries, table)

/-- The table after calls in order. -/
def after (table : NameTable) (calls : List Call) : NameTable :=
  calls.foldl (fun table call => (table.perform call).2) table

variable {table : NameTable}

/-- Only a call that resolves may change the table. -/
theorem perform_of_resolved?_eq_none {call : Call} (h : call.resolved? = none) :
    (table.perform call).2 = table := by
  cases call with
  | resolve name => cases h
  | addressOf | nameAt | entries => rfl

/-- Of all calls those that resolve are left. -/
theorem after_eq_resolveAll (table : NameTable) (calls : List Call) :
    table.after calls = table.resolveAll (calls.filterMap Call.resolved?) := by
  induction calls generalizing table with
  | nil => rfl
  | cons call calls ih =>
    show (table.perform call).2.after calls = _
    rw [ih, List.filterMap_cons]
    cases call <;> rfl

/-- Calls add names at the end, or none. -/
theorem after_names_isPrefix (table : NameTable) (calls : List Call) :
    table.names <+: (table.after calls).names := by
  rw [after_eq_resolveAll]
  exact table.resolveAll_names_isPrefix _

/-- On a new table the names are those that were resolved. -/
theorem names_after (calls : List Call) : (empty.after calls).names = distinctNames calls := by
  rw [after_eq_resolveAll, names_resolveAll_eq]
  simp [empty, distinctNames]

/-! ## Names and addresses -/

/-- An address is listed with the name that it has. -/
theorem mem_entries_iff {name : String} {address : Nat} :
    (address, name) ∈ table.entries ↔ table.nameAt? address = some name := by
  rw [entries, List.mem_mapIdx, nameAt?, List.getElem?_eq_some_iff]
  constructor
  · rintro ⟨i, hi, hpair⟩
    obtain ⟨rfl, hname⟩ := Prod.mk.injEq .. ▸ hpair
    exact ⟨hi, hname⟩
  · rintro ⟨hlt, hname⟩
    exact ⟨address, hlt, by rw [hname]⟩

/-- The addresses are listed from zero on, with no gap. -/
theorem map_fst_entries (table : NameTable) :
    table.entries.map Prod.fst = List.range table.size :=
  List.ext_getElem (by simp [entries, size]) fun _ _ _ => by simp [entries]

end NameTable

/-! ## Names and index -/

/-- Names in the order of their addresses, and an index with the address of each name. -/
structure IndexedTable where
  names : Array String
  addresses : Std.HashMap String Nat

namespace IndexedTable

open NameTable (Call Reply distinctNames)

/-- No names, and an empty index. -/
def empty : IndexedTable := ⟨#[], ∅⟩

/-- The address is looked up in the index. -/
def address? (indexed : IndexedTable) (name : String) : Option Nat := indexed.addresses[name]?

/-- The name is looked up among the names. -/
def nameAt? (indexed : IndexedTable) (address : Nat) : Option String := indexed.names[address]?

def entries (indexed : IndexedTable) : List (Nat × String) :=
  indexed.names.toList.mapIdx fun address name => (address, name)

/-- A new name is put behind the names, and into the index with the number of names there were. -/
def resolve (indexed : IndexedTable) (name : String) : Nat × IndexedTable :=
  match indexed.address? name with
  | some address => (address, indexed)
  | none =>
    let address := indexed.names.size
    (address, ⟨indexed.names.push name, indexed.addresses.insert name address⟩)

/-- The answer to a call, and names and index after it. -/
def perform (indexed : IndexedTable) : Call → Reply × IndexedTable
  | .resolve name => (.address (indexed.resolve name).1, (indexed.resolve name).2)
  | .addressOf name => (.address (indexed.address? name), indexed)
  | .nameAt address => (.name (indexed.nameAt? address), indexed)
  | .entries => (.entries indexed.entries, indexed)

/-- Names and index after calls in order. -/
def after (indexed : IndexedTable) (calls : List Call) : IndexedTable :=
  calls.foldl (fun indexed call => (indexed.perform call).2) indexed

/-- The names are those of the table, and the index has the addresses that the table finds. -/
structure InStep (indexed : IndexedTable) (table : NameTable) : Prop where
  names : indexed.names.toList = table.names
  addresses : ∀ name, indexed.address? name = table.address? name

theorem inStep_empty : InStep empty .empty := ⟨rfl, fun _ => Std.HashMap.getElem?_empty⟩

namespace InStep

variable {indexed : IndexedTable} {table : NameTable}

theorem size (h : indexed.InStep table) : indexed.names.size = table.size := by
  rw [NameTable.size, ← h.names, Array.length_toList]

/-- Every address has the same name. -/
theorem nameAt? (h : indexed.InStep table) (address : Nat) :
    indexed.nameAt? address = table.nameAt? address := by
  rw [NameTable.nameAt?, ← h.names, Array.getElem?_toList]
  rfl

theorem entries (h : indexed.InStep table) : indexed.entries = table.entries := by
  rw [IndexedTable.entries, h.names, NameTable.entries]

/-- A name that is there is found; a new one gets the next address on both sides. -/
theorem resolve (h : indexed.InStep table) (name : String) :
    (indexed.resolve name).1 = (table.resolve name).1 ∧
      (indexed.resolve name).2.InStep (table.resolve name).2 := by
  rw [IndexedTable.resolve, h.addresses]
  cases haddress : table.address? name with
  | some address =>
    rw [NameTable.resolve_of_address? haddress]
    exact ⟨rfl, h⟩
  | none =>
    have hresolve := NameTable.resolve_of_address?_eq_none haddress
    refine ⟨by rw [hresolve]; exact h.size, ?_, fun other => ?_⟩
    · rw [NameTable.names_resolve_of_address?_eq_none haddress]
      simp [h.names]
    · show (indexed.addresses.insert name indexed.names.size)[other]? = _
      rw [Std.HashMap.getElem?_insert]
      -- the new entry is found under the name, and every other name has what it had
      by_cases hsame : name = other
      · subst hsame
        rw [if_pos (beq_self_eq_true name), table.address?_resolve, hresolve, h.size]
      · rw [if_neg (by simpa using hsame), NameTable.address?_resolve_of_ne (Ne.symm hsame)]
        exact h.addresses other

/-- Every call is answered alike, and names and index stay in step. -/
theorem perform (h : indexed.InStep table) (call : Call) :
    (indexed.perform call).1 = (table.perform call).1 ∧
      (indexed.perform call).2.InStep (table.perform call).2 := by
  cases call with
  | resolve name =>
    obtain ⟨haddress, hnext⟩ := h.resolve name
    exact ⟨congrArg (fun a => Reply.address (some a)) haddress, hnext⟩
  | addressOf name => exact ⟨congrArg Reply.address (h.addresses name), h⟩
  | nameAt address => exact ⟨congrArg Reply.name (h.nameAt? address), h⟩
  | entries => exact ⟨congrArg Reply.entries h.entries, h⟩

/-- Names and index stay in step through any calls, by induction on them. -/
theorem after (h : indexed.InStep table) (calls : List Call) :
    (indexed.after calls).InStep (table.after calls) := by
  induction calls generalizing indexed table with
  | nil => exact h
  | cons call calls ih => exact ih (h.perform call).2

end InStep

/-- A call that does not resolve leaves names and index alone. -/
theorem perform_of_resolved?_eq_none (indexed : IndexedTable) {call : Call}
    (h : call.resolved? = none) : (indexed.perform call).2 = indexed := by
  cases call with
  | resolve name => cases h
  | addressOf | nameAt | entries => rfl

end IndexedTable

/-! ## At any time -/

namespace NameTable

/-- The names are numbered in the order in which they were resolved first. -/
theorem address?_after_iff (calls : List Call) (name : String) (address : Nat) :
    (empty.after calls).address? name = some address ↔
      (distinctNames calls)[address]? = some name := by
  rw [address?_eq_some_iff, nameAt?, names_after]

/-- A name keeps its number whatever is called later. -/
theorem address?_after_of_address? {table : NameTable} {name : String} {address : Nat}
    (h : table.address? name = some address) (later : List Call) :
    (table.after later).address? name = some address :=
  address?_of_isPrefix (after_names_isPrefix table later) h

/-- After any calls on a new table: the names are numbered in the order in which they were resolved
first, and keep their numbers whatever is called later; name and address determine each other; no name
comes twice, and there are as many as were resolved; they are listed with their addresses in order; no
call but one that resolves changes the table. Names with an index beside them give the same answers,
and name and address determine each other there as well. -/
theorem bijection_after (calls : List Call) :
    let table := empty.after calls
    let indexed := IndexedTable.empty.after calls
    (∀ k name, (distinctNames calls)[k]? = some name → ∀ later,
      (table.after later).address? name = some k ∧
        (table.after later).resolve name = (k, table.after later)) ∧
    (∀ name address, table.address? name = some address ↔ table.nameAt? address = some name) ∧
    (table.names.Nodup ∧ table.size = (distinctNames calls).length) ∧
    (table.entries.map Prod.fst = List.range table.size ∧
      ∀ address name, (address, name) ∈ table.entries ↔ table.address? name = some address) ∧
    (∀ call, call.resolved? = none → (table.perform call).2 = table) ∧
    (∀ call, (indexed.perform call).1 = (table.perform call).1) ∧
    (∀ name address, indexed.address? name = some address ↔
      indexed.nameAt? address = some name) ∧
    indexed.names.toList = table.names ∧
    ∀ call, call.resolved? = none → (indexed.perform call).2 = indexed := by
  intro table indexed
  have hinverse := table.address?_eq_some_iff
  have hstep : indexed.InStep table := IndexedTable.inStep_empty.after calls
  refine ⟨fun k name hk later => ?_, hinverse, ⟨table.nodup, ?_⟩,
    ⟨table.map_fst_entries, fun address name => ?_⟩, fun call => perform_of_resolved?_eq_none,
    fun call => (hstep.perform call).1, fun name address => ?_, hstep.names,
    fun call => indexed.perform_of_resolved?_eq_none⟩
  -- the number stands in the table after the calls, and later ones keep it
  · have haddress : (table.after later).address? name = some k :=
      address?_after_of_address? ((address?_after_iff calls name k).2 hk) later
    exact ⟨haddress, resolve_of_address? haddress⟩
  · rw [size, names_after]
  · rw [mem_entries_iff, hinverse]
  · rw [hstep.addresses, hstep.nameAt?, hinverse]

/-- `a` is resolved twice, and `x` is asked for before it is resolved; neither makes a difference to
the number of `c`. -/
theorem bijection_after_of_repeated_names :
    let calls := [.resolve "b", .addressOf "x", .resolve "a", .resolve "c", .entries, .resolve "a"]
    (distinctNames calls)[2]? = some "c" ∧
      ((empty.after calls).after [.nameAt 7, .resolve "x"]).address? "c" = some 2 ∧
      (IndexedTable.empty.after calls).names.toList = ["b", "a", "c"] := by
  intro calls
  obtain ⟨hnumber, -, -, -, -, -, -, hnames, -⟩ := bijection_after calls
  have hc : (distinctNames calls)[2]? = some "c" := by decide
  exact ⟨hc, (hnumber 2 "c" hc _).1, by rw [hnames, names_after]; decide⟩

end NameTable

end FormulaMachine
