import FormulaMachine.Proofs.ByName.Simulation
import FormulaMachine.Proofs.Machine.Dependence

/-!
# The variables of a formula and the addresses in its code

A formula reads names and assigns to names, in the order of evaluation. Which of the reads stand for
a constant depends on the names that have an address before the formula and on those that it has
assigned to; all the others are variables. Emission gives the variables their addresses in this
order, and the instructions that use an address stand in this order too.

* **`Formula.accesses`**, **`Access.addressed`**: what a formula reads and assigns, and what of this
  needs an address.
* **`NameTable.names_resolveAll_eq`**: resolving names appends those that are new, each of them
  once.
* **`Allocates`**: code that uses its addresses in the order of some accesses, and whose table has
  grown by their names in this order.
* **`Formula.allocates_emit`**: the code of a formula.
-/

namespace FormulaMachine

/-! ## What a formula accesses -/

/-- A place where a formula reads a name or assigns to it. -/
inductive Access where
  | read (name : String)
  | write (name : String)
  deriving DecidableEq, Repr

namespace Access

/-- The name that is accessed. -/
def name : Access → String
  | read name | write name => name

/-- The accesses that need an address, where the names in `known` have one: those that assign, and
those that read a name that does not stand for a constant. A name stands for none any more when it
has been assigned to. -/
def addressed (options : Options) (known : List String) : List Access → List Access
  | [] => []
  | read name :: rest =>
    match constantBeside? options known name with
    | some _ => addressed options known rest
    | none => read name :: addressed options known rest
  | write name :: rest => write name :: addressed options (name :: known) rest

/-- What needs an address is among what is accessed. -/
theorem mem_of_mem_addressed {options : Options} {known : List String}
    {accesses : List Access} {access : Access} (h : access ∈ addressed options known accesses) :
    access ∈ accesses := by
  induction accesses generalizing known with
  | nil => exact h
  | cons head rest ih =>
    cases head with
    | read name =>
      rw [addressed] at h
      split at h
      · exact List.mem_cons_of_mem _ (ih h)
      · exact List.mem_cons.2 ((List.mem_cons.1 h).imp_right ih)
    | write name =>
      rw [addressed] at h
      exact List.mem_cons.2 ((List.mem_cons.1 h).imp_right ih)

/-- An assignment needs an address, whatever is known. -/
theorem write_mem_addressed {options : Options} {known : List String} {accesses : List Access}
    {name : String} (h : .write name ∈ accesses) :
    .write name ∈ addressed options known accesses := by
  induction accesses generalizing known with
  | nil => cases h
  | cons head rest ih =>
    -- only readings are left out, where they are of constants
    cases head with
    | read other =>
      have hrest : .write name ∈ rest := by simpa using h
      rw [addressed]
      split
      · exact ih hrest
      · exact List.mem_cons_of_mem _ (ih hrest)
    | write other =>
      rw [addressed]
      exact List.mem_cons.2 ((List.mem_cons.1 h).imp_right ih)

end Access

namespace Expr

mutual

/-- The names that the expression reads, from left to right. -/
def reads : Expr → List String
  | number _ => []
  | var name => [name]
  | binary _ left right => left.reads ++ right.reads
  | negate operand => operand.reads
  | call _ arguments => readsAll arguments

def readsAll : List Expr → List String
  | [] => []
  | e :: es => e.reads ++ readsAll es

end

/-- What has a value made of literals reads no name. -/
theorem reads_of_literalValue? {e : Expr} {value : Float} (h : e.literalValue? = some value) :
    e.reads = [] := by
  induction e using nested_induction generalizing value with
  | number literal => rfl
  | var name => cases h
  | call function arguments => cases h
  | negate operand ih =>
    obtain ⟨a, ha, -⟩ := Option.map_eq_some_iff.1 h
    exact ih ha
  | binary op left right ihl ihr =>
    rw [literalValue?] at h
    split at h
    · next a b ha hb => rw [reads, ihl ha, ihr hb, List.append_nil]
    · cases h

/-- What is folded reads no name. -/
theorem reads_of_folded? {options : Options} {e : Expr} {value : Float}
    (h : e.folded? options = some value) : e.reads = [] := by
  unfold folded? at h
  split at h
  · exact reads_of_literalValue? h
  · cases h

end Expr

namespace Statement

/-- The value of an assignment comes before its target. -/
def accesses : Statement → List Access
  | result value => value.reads.map .read
  | assign name value => value.reads.map .read ++ [.write name]

end Statement

namespace Formula

def accesses (formula : Formula) : List Access := formula.statements.flatMap Statement.accesses

/-- The names that a formula assigns to are the targets of its assignments. -/
theorem write_mem_accesses_iff {formula : Formula} {name : String} :
    .write name ∈ formula.accesses ↔ ∃ value, .assign name value ∈ formula.statements := by
  rw [accesses, List.mem_flatMap]
  constructor
  · rintro ⟨s, hs, hwrite⟩
    cases s with
    | result value => simp [Statement.accesses] at hwrite
    | assign other value =>
      obtain rfl : name = other := by simpa [Statement.accesses] using hwrite
      exact ⟨value, hs⟩
  · rintro ⟨value, hs⟩
    exact ⟨_, hs, by simp [Statement.accesses]⟩

end Formula

/-! ## Resolving several names -/

namespace NameTable

theorem resolveAll_cons (table : NameTable) (name : String) (names : List String) :
    table.resolveAll (name :: names) = (table.resolve name).2.resolveAll names := rfl

theorem resolveAll_append (table : NameTable) (names more : List String) :
    table.resolveAll (names ++ more) = (table.resolveAll names).resolveAll more :=
  List.foldl_append

/-- Resolving names appends some to the table. -/
theorem resolveAll_names_isPrefix (table : NameTable) (names : List String) :
    table.names <+: (table.resolveAll names).names := by
  induction names generalizing table with
  | nil => exact List.prefix_refl _
  | cons name names ih => exact (table.resolve_names_isPrefix name).trans (ih _)

/-- The names that are new are appended in the order in which they come first. -/
theorem names_resolveAll_eq (table : NameTable) (names : List String) :
    (table.resolveAll names).names =
      table.names ++ (names.filter (· ∉ table.names)).eraseDups := by
  induction names generalizing table with
  | nil => simp [resolveAll]
  | cons name names ih =>
    rw [resolveAll_cons, ih]
    -- the first name has an address already, or it is the next one that is appended
    by_cases hknown : name ∈ table.names
    · obtain ⟨address, haddress⟩ := exists_address? hknown
      simp [resolve_of_address? haddress, hknown]
    · have hnew := names_resolve_of_address?_eq_none (address?_eq_none_iff.2 hknown)
      rw [hnew, List.filter_cons_of_pos (by simpa using hknown), List.eraseDups_cons,
        List.filter_filter, List.append_assoc, List.singleton_append]
      congr 4
      funext other
      by_cases hother : other = name <;> simp [hother]

/-- The names of a table in which names were resolved are those it had and these. -/
theorem mem_names_resolveAll {table : NameTable} {names : List String} {name : String} :
    name ∈ (table.resolveAll names).names ↔ name ∈ table.names ∨ name ∈ names := by
  rw [names_resolveAll_eq]
  by_cases hknown : name ∈ table.names <;> simp [hknown]

end NameTable

/-! ## Code and its addresses -/

namespace Instr

def address? : Instr → Option Nat
  | load address | store address => some address
  | _ => none

/-- The address of an instruction is the one it reads or the one it writes. -/
theorem address?_eq_some_iff {instr : Instr} {a : Nat} :
    instr.address? = some a ↔ instr.source? = some a ∨ instr.target? = some a := by
  cases instr <;> simp [address?, source?, target?]

/-- What the instruction does to a name, where its address has one. -/
def access? (names : NameTable) : Instr → Option Access
  | load address => (names.nameAt? address).map .read
  | store address => (names.nameAt? address).map .write
  | _ => none

/-- Tables in which the address has the same name. -/
theorem access?_congr {names later : NameTable} {instr : Instr}
    (h : ∀ a, instr.address? = some a → later.nameAt? a = names.nameAt? a) :
    instr.access? later = instr.access? names := by
  cases instr with
  | load a => rw [access?, access?, h a rfl]
  | store a => rw [access?, access?, h a rfl]
  | push | call | binary | negate => rfl

/-- An instruction without an address does nothing to a name. -/
theorem access?_of_address?_eq_none (names : NameTable) {instr : Instr}
    (h : instr.address? = none) : instr.access? names = none := by
  cases instr with
  | load a => cases h
  | store a => cases h
  | push | call | binary | negate => rfl

end Instr

/-- The code uses addresses of names, and in the order of the accesses. -/
structure Code.Carries (names : NameTable) (code : List Instr) (accesses : List Access) : Prop where
  resolved : ∀ instr ∈ code, ∀ a, instr.address? = some a → ∃ name, names.address? name = some a
  inOrder : code.filterMap (Instr.access? names) = accesses

namespace Code.Carries

variable {names later : NameTable} {code more : List Instr} {accesses others : List Access}

/-- Code that carries out some accesses, and code that carries out more behind it. -/
theorem append (h : Carries names code accesses) (hmore : Carries names more others) :
    Carries names (code ++ more) (accesses ++ others) := by
  refine ⟨fun instr hinstr => ?_, by rw [List.filterMap_append, h.inOrder, hmore.inOrder]⟩
  rcases List.mem_append.1 hinstr with hfirst | hsecond
  · exact h.resolved instr hfirst
  · exact hmore.resolved instr hsecond

/-- Addresses keep their names in a table that has grown. -/
theorem mono (h : Carries names code accesses) (hpre : names.names <+: later.names) :
    Carries later code accesses := by
  refine ⟨fun instr hinstr a ha => ?_, ?_⟩
  · obtain ⟨name, haddress⟩ := h.resolved instr hinstr a ha
    exact ⟨name, NameTable.address?_of_isPrefix hpre haddress⟩
  -- each address has the same name in both tables, so the accesses are the same
  · rw [← h.inOrder]
    refine List.filterMap_congr fun instr hinstr => Instr.access?_congr fun a ha => ?_
    obtain ⟨name, haddress⟩ := h.resolved instr hinstr a ha
    rw [NameTable.nameAt?_of_address? haddress,
      NameTable.nameAt?_of_address? (NameTable.address?_of_isPrefix hpre haddress)]

/-- Instructions without addresses carry nothing out. -/
theorem of_address?_eq_none (h : ∀ instr ∈ code, instr.address? = none) :
    Carries names code [] := by
  refine ⟨fun instr hinstr a ha => ?_, List.filterMap_eq_nil_iff.2 fun instr hinstr => ?_⟩
  · rw [h instr hinstr] at ha
    cases ha
  · exact Instr.access?_of_address?_eq_none names (h instr hinstr)

end Code.Carries

/-- Code emitted on a table, with the table afterwards: the names of the accesses have been resolved
in order, and the code carries the accesses out. -/
structure Allocates (table : NameTable) (accesses : List Access)
    (emitted : List Instr × NameTable) : Prop where
  names : emitted.2 = table.resolveAll (accesses.map Access.name)
  code : Code.Carries emitted.2 emitted.1 accesses

namespace Allocates

variable {table : NameTable} {accesses others : List Access} {emitted next : List Instr × NameTable}

/-- One piece of code behind another one, emitted on the table that the first has left. -/
theorem append (h : Allocates table accesses emitted) (hnext : Allocates emitted.2 others next) :
    Allocates table (accesses ++ others) (emitted.1 ++ next.1, next.2) := by
  have hgrown : emitted.2.names <+: next.2.names := by
    rw [hnext.names]
    exact emitted.2.resolveAll_names_isPrefix _
  refine ⟨?_, (h.code.mono hgrown).append hnext.code⟩
  rw [List.map_append, NameTable.resolveAll_append, ← h.names]
  exact hnext.names

theorem nil (table : NameTable) : Allocates table [] ([], table) :=
  ⟨rfl, .of_address?_eq_none (by simp)⟩

theorem single {instr : Instr} (h : instr.address? = none) (table : NameTable) :
    Allocates table [] ([instr], table) :=
  ⟨rfl, .of_address?_eq_none fun _ hinstr => List.mem_singleton.1 hinstr ▸ h⟩

/-- An instruction without an address behind the code. -/
theorem andThen {instr : Instr} (h : Allocates table accesses emitted)
    (hinstr : instr.address? = none) :
    Allocates table accesses (emitted.1 ++ [instr], emitted.2) := by
  rw [← List.append_nil accesses]
  exact h.append (.single hinstr emitted.2)

/-- A load gives its name an address if it has none, and reads it. -/
theorem load (table : NameTable) (name : String) :
    Allocates table [.read name] ([.load (table.resolve name).1], (table.resolve name).2) := by
  have haddress := table.address?_resolve name
  refine ⟨rfl, fun instr hinstr a ha => ?_, ?_⟩
  · rw [List.mem_singleton.1 hinstr] at ha
    cases ha
    exact ⟨name, haddress⟩
  · simp [Instr.access?, NameTable.nameAt?_of_address? haddress]

/-- A store gives its name an address if it has none, and writes it. -/
theorem store (table : NameTable) (name : String) :
    Allocates table [.write name] ([.store (table.resolve name).1], (table.resolve name).2) := by
  have haddress := table.address?_resolve name
  refine ⟨rfl, fun instr hinstr a ha => ?_, ?_⟩
  · rw [List.mem_singleton.1 hinstr] at ha
    cases ha
    exact ⟨name, haddress⟩
  · simp [Instr.access?, NameTable.nameAt?_of_address? haddress]

end Allocates

/-! ## Constants -/

/-- The same names stand for constants, whether the names of the table have an address or those in
`known`. -/
def SameConstants (options : Options) (table : NameTable) (known : List String) : Prop :=
  ∀ name, table.constant? options name = constantBeside? options known name

/-- Whether a name stands for its constant depends on that name alone. -/
theorem constantBeside?_congr {options : Options} {vars others : List String} {name : String}
    (h : name ∈ vars ↔ name ∈ others) :
    constantBeside? options vars name = constantBeside? options others name := by
  simp only [constantBeside?, h]

/-- A variable hides the constant of its name. -/
theorem constantBeside?_of_mem {options : Options} {vars : List String} {name : String}
    (h : name ∈ vars) : constantBeside? options vars name = none := by
  unfold constantBeside?
  exact if_neg fun hboth => hboth.2 h

/-- A further name that is another one makes no difference. -/
theorem constantBeside?_cons_of_ne {options : Options} {known : List String} {name other : String}
    (h : name ≠ other) :
    constantBeside? options (other :: known) name = constantBeside? options known name :=
  constantBeside?_congr (by rw [List.mem_cons, or_iff_right h])

namespace SameConstants

variable {options : Options} {table : NameTable} {known : List String} {name : String}

/-- A table and the list of its names. -/
theorem of_names (options : Options) (table : NameTable) :
    SameConstants options table table.names := fun name =>
  have hnames : Names table.names table := fun _ => Iff.rfl
  (hnames.constantBeside? options name).symm

/-- The table and the list after `name` has got an address, if it stands for no constant in the
latter. -/
theorem resolve {known' : List String} (h : SameConstants options table known)
    (hsame : ∀ other, other ≠ name →
      constantBeside? options known' other = constantBeside? options known other)
    (hname : constantBeside? options known' name = none) :
    SameConstants options (table.resolve name).2 known' := by
  intro other
  rw [of_names options _ other]
  -- the name itself is a variable now, and any other name is what it was
  by_cases hother : other = name
  · rw [hother, hname]
    exact constantBeside?_of_mem (NameTable.mem_names_resolve.2 (.inl rfl))
  · have hmem : other ∈ (table.resolve name).2.names ↔ other ∈ table.names := by
      rw [NameTable.mem_names_resolve, or_iff_right hother]
    rw [constantBeside?_congr hmem, ← of_names options table other, h other, hsame other hother]

theorem read (h : SameConstants options table known)
    (hname : constantBeside? options known name = none) :
    SameConstants options (table.resolve name).2 known := h.resolve (fun _ _ => rfl) hname

/-- An assignment gives its name an address, and takes the constant of that name away. -/
theorem write (h : SameConstants options table known) (name : String) :
    SameConstants options (table.resolve name).2 (name :: known) := by
  exact h.resolve (fun _ hother => constantBeside?_cons_of_ne hother)
    (constantBeside?_of_mem (List.mem_cons_self ..))

end SameConstants

namespace Access

variable {options : Options} {known : List String}

/-- The reads of names that do not stand for a constant. -/
def readsBeside (options : Options) (known : List String) (names : List String) : List Access :=
  (names.filter fun name => (constantBeside? options known name).isNone).map .read

/-- Reads are told name by name. -/
theorem readsBeside_append (names more : List String) :
    readsBeside options known (names ++ more) =
      readsBeside options known names ++ readsBeside options known more := by
  simp [readsBeside]

/-- Reads do not change what is known, so those in front are told beside the same names as the rest.
-/
theorem addressed_reads_append (names : List String) (rest : List Access) :
    addressed options known (names.map .read ++ rest) =
      readsBeside options known names ++ addressed options known rest := by
  induction names with
  | nil => rfl
  | cons name names ih =>
    rw [List.map_cons, List.cons_append, addressed, ih]
    cases hconstant : constantBeside? options known name <;> simp [readsBeside, hconstant]

end Access

open Access

/-- Reading variables makes no constant of anything and no variable of a constant. -/
theorem SameConstants.of_readsBeside {options : Options} {table : NameTable} {known : List String}
    (h : SameConstants options table known) (names : List String) :
    SameConstants options
      (table.resolveAll ((readsBeside options known names).map Access.name)) known := by
  induction names generalizing table with
  | nil => exact h
  | cons name names ih =>
    -- a constant is skipped, a variable gets its address
    cases hconstant : constantBeside? options known name with
    | some value =>
      have hdrop : readsBeside options known (name :: names) = readsBeside options known names := by
        simp [readsBeside, hconstant]
      rw [hdrop]
      exact ih h
    | none =>
      have hkeep : readsBeside options known (name :: names) =
          .read name :: readsBeside options known names := by
        simp [readsBeside, hconstant]
      rw [hkeep]
      exact ih (h.read hconstant)

/-! ## Emission -/

namespace Expr

variable {options : Options} {table : NameTable} {known : List String}

/-- Emission gives addresses to the variables that the expression reads, from left to right. -/
def AllocatesReads (options : Options) (e : Expr) : Prop :=
  ∀ ⦃table : NameTable⦄ ⦃known : List String⦄, SameConstants options table known →
    Allocates table (readsBeside options known e.reads) (e.emit options table)

/-- Emission of an expression leaves the constants. -/
theorem AllocatesReads.sameConstants {e : Expr} (h : e.AllocatesReads options)
    (hsame : SameConstants options table known) :
    SameConstants options (e.emit options table).2 known := by
  rw [(h hsame).names]
  exact hsame.of_readsBeside e.reads

/-- A folded expression is one instruction without an address, and reads nothing. -/
theorem allocatesReads_of_folded? {e : Expr} {value : Float}
    (h : e.folded? options = some value) : e.AllocatesReads options := by
  intro table known hsame
  rw [emit_of_folded? h, reads_of_folded? h]
  exact .single rfl table

/-- Arguments, from left to right. -/
theorem allocates_emitAll {es : List Expr} (h : ∀ e ∈ es, e.AllocatesReads options)
    (hsame : SameConstants options table known) :
    Allocates table (readsBeside options known (readsAll es)) (emitAll options table es) := by
  induction es generalizing table with
  | nil =>
    rw [emitAll_nil]
    exact .nil table
  | cons e es ih =>
    have hfirst : e.AllocatesReads options := h e (List.mem_cons_self ..)
    have hrest := ih (fun e' he' => h e' (List.mem_cons_of_mem e he')) (hfirst.sameConstants hsame)
    rw [emitAll_cons, readsAll, readsBeside_append]
    exact (hfirst hsame).append hrest

/-- Every expression gives addresses to its variables. Induction on the expression; what is folded
gives none and has none. -/
theorem allocates_emit (options : Options) (e : Expr) : e.AllocatesReads options := by
  induction e using nested_induction with
  | number value =>
    intro table known hsame
    rw [emit_number]
    exact .single rfl table
  | var name =>
    intro table known hsame
    -- a name that stands for a constant becomes its value, any other one a load
    have hconstant := hsame name
    unfold reads readsBeside
    cases hbeside : constantBeside? options known name with
    | some value =>
      rw [emit_var_of_constant (hconstant.trans hbeside)]
      simp only [List.filter_cons, hbeside, Option.isNone_some, Bool.false_eq_true, if_false]
      exact .single rfl table
    | none =>
      rw [emit_var_of_variable (hconstant.trans hbeside)]
      simp only [List.filter_cons, hbeside, Option.isNone_none, if_true]
      exact .load table name
  | binary op left right ihl ihr =>
    cases hfold : (binary op left right).folded? options with
    | some value => exact allocatesReads_of_folded? hfold
    | none =>
      intro table known hsame
      -- the right operand meets the table that the left one has left
      have hoperands := (ihl hsame).append (ihr (ihl.sameConstants hsame))
      rw [emit_binary hfold, reads, readsBeside_append]
      exact hoperands.andThen rfl
  | negate operand ih =>
    cases hfold : (negate operand).folded? options with
    | some value => exact allocatesReads_of_folded? hfold
    | none =>
      intro table known hsame
      rw [emit_negate hfold, reads]
      exact (ih hsame).andThen rfl
  | call function arguments ih =>
    intro table known hsame
    rw [emit_call, reads]
    exact (allocates_emitAll ih hsame).andThen rfl

end Expr

/-- Statements, one after the other. -/
theorem Statement.allocates_emitAll {options : Options} {table : NameTable} {known : List String}
    (ss : List Statement) (hsame : SameConstants options table known) :
    Allocates table (addressed options known (ss.flatMap accesses)) (emitAll options table ss) := by
  induction ss generalizing table known with
  | nil =>
    rw [emitAll_nil]
    exact .nil table
  | cons s ss ih =>
    rw [List.flatMap_cons]
    cases s with
    | result value =>
      have hvalue := value.allocates_emit options
      rw [emitAll_result, accesses, addressed_reads_append]
      exact (hvalue hsame).append (ih (hvalue.sameConstants hsame))
    | assign name value =>
      have hvalue := value.allocates_emit options
      have hassign := hvalue.sameConstants hsame
      -- the target gets its address behind the value, and hides its constant from then on
      rw [emitAll_assign, accesses, List.append_assoc, addressed_reads_append,
        List.singleton_append, addressed, List.append_cons]
      exact ((hvalue hsame).append (.store _ name)).append (ih (hassign.write name))

/-- A formula gives addresses to the names that are variables in it, in the order of evaluation, and
its code uses them in this order. -/
theorem Formula.allocates_emit (options : Options) (table : NameTable) (formula : Formula) :
    Allocates table (addressed options table.names formula.accesses)
      (formula.emit options table) :=
  Statement.allocates_emitAll formula.statements (.of_names options table)

end FormulaMachine
