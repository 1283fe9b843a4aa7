/-!
# Addresses of names

A table gives each name an address: the number of names that were there before it. Addresses are
dense and never change, since a table only grows at its end. A table cannot be built with one name
at two addresses, so looking up a name and looking up its address are inverse.

* `resolve_of_address?`, `resolve_of_address?_eq_none`: what resolving does to a known name and to a
  new one.
* `address?_resolve`, `resolve_names_isPrefix`: resolving gives a name an address and moves no
  other.
* `address?_eq_some_iff`: name and address determine each other.
-/

namespace FormulaMachine

/-- Names in the order of their addresses, no name twice. -/
structure NameTable where
  names : List String
  nodup : names.Nodup
  deriving DecidableEq, Repr

namespace NameTable

def empty : NameTable := ⟨[], List.nodup_nil⟩

def size (table : NameTable) : Nat := table.names.length

def address? (table : NameTable) (name : String) : Option Nat := table.names.idxOf? name

def nameAt? (table : NameTable) (address : Nat) : Option String := table.names[address]?

/-- A name has no address exactly if it is not in the table. -/
theorem address?_eq_none_iff {table : NameTable} {name : String} :
    table.address? name = none ↔ name ∉ table.names := by
  simp [address?]

/-- A name without an address can be added, and no name comes twice after that. -/
theorem nodup_append_new {table : NameTable} {name : String} (h : table.address? name = none) :
    (table.names ++ [name]).Nodup := by
  refine List.nodup_append.2 ⟨table.nodup, by simp, ?_⟩
  intro a ha b hb
  rw [List.mem_singleton.1 hb]
  rintro rfl
  exact address?_eq_none_iff.1 h ha

/-- The table with a new name behind the others. -/
def append (table : NameTable) (name : String) (h : table.address? name = none) : NameTable :=
  ⟨table.names ++ [name], nodup_append_new h⟩

/-- The address of a name, which is the next free one if the name is new, and the table with that
name. -/
def resolve (table : NameTable) (name : String) : Nat × NameTable :=
  match h : table.address? name with
  | some address => (address, table)
  | none => (table.size, table.append name h)

/-- The table with all of `names` resolved in order. -/
def resolveAll (table : NameTable) (names : List String) : NameTable :=
  names.foldl (fun t name => (t.resolve name).2) table

/-- How listings write an address. -/
def addressText (address : Nat) : String := s!"@{address}"

/-! ## Laws -/

variable {table : NameTable} {name : String} {address : Nat}

/-- A name that is known keeps its address, and nothing is added. -/
theorem resolve_of_address? (h : table.address? name = some address) :
    table.resolve name = (address, table) := by
  unfold resolve
  split
  · next other hother =>
    rw [h] at hother
    cases hother
    rfl
  · next hnone =>
    rw [h] at hnone
    cases hnone

/-- A name that is new gets the next free address. -/
theorem resolve_of_address?_eq_none (h : table.address? name = none) :
    table.resolve name = (table.size, table.append name h) := by
  unfold resolve
  split
  · next other hother =>
    rw [h] at hother
    cases hother
  · rfl

/-- A name that is new goes behind all the others. -/
theorem names_resolve_of_address?_eq_none (h : table.address? name = none) :
    (table.resolve name).2.names = table.names ++ [name] := by
  rw [resolve_of_address?_eq_none h]
  rfl

/-- The name at the address of a name is that name. -/
theorem nameAt?_of_address? (h : table.address? name = some address) :
    table.nameAt? address = some name := by
  rw [address?, List.idxOf?, List.findIdx?_eq_some_iff_getElem] at h
  obtain ⟨inside, same, _⟩ := h
  rw [nameAt?, List.getElem?_eq_getElem inside]
  exact congrArg some (by simpa using same)

/-- Addresses are less than the number of names. -/
theorem address?_lt_size (h : table.address? name = some address) : address < table.size := by
  rw [address?, List.idxOf?, List.findIdx?_eq_some_iff_getElem] at h
  exact h.1

/-- Since no name comes twice, name and address determine each other. -/
theorem address?_eq_some_iff (table : NameTable) (name : String) (address : Nat) :
    table.address? name = some address ↔ table.nameAt? address = some name := by
  refine ⟨nameAt?_of_address?, fun hname => ?_⟩
  cases hother : table.address? name with
  | none => exact absurd (List.mem_of_getElem? hname) (address?_eq_none_iff.1 hother)
  | some other =>
    -- both addresses have this name, and no name comes twice
    have hsame : table.names[other]? = table.names[address]? :=
      (nameAt?_of_address? hother).trans hname.symm
    rw [(List.getElem?_inj (address?_lt_size hother) table.nodup).1 hsame]

/-- Addresses that have been given away stay with their names. -/
theorem resolve_names_isPrefix (table : NameTable) (name : String) :
    table.names <+: (table.resolve name).2.names := by
  cases h : table.address? name with
  | some address => simp only [resolve_of_address? h, List.prefix_refl]
  | none =>
    rw [names_resolve_of_address?_eq_none h]
    exact List.prefix_append _ _

/-- After a name has been resolved it has the address that was returned for it. -/
theorem address?_resolve (table : NameTable) (name : String) :
    (table.resolve name).2.address? name = some (table.resolve name).1 := by
  cases h : table.address? name with
  | some address =>
    rw [resolve_of_address? h]
    exact h
  | none =>
    rw [address?_eq_some_iff, nameAt?, names_resolve_of_address?_eq_none h,
      resolve_of_address?_eq_none h]
    exact List.getElem?_concat_length

end NameTable

end FormulaMachine
