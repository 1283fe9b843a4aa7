import FormulaMachine.Proofs.Bound.Gradient
import FormulaMachine.Proofs.Names.Session
import FormulaMachine.Proofs.Workspace.Operations

/-!
# Answers that do not depend on history

A bound formula keeps two workspaces, and calls leave their traces in both: arguments, assigned
variables, names that the program does not use. Where each variable that the program assigns is
assigned before it is read, or is an argument, no pass sees any of it. What it sees is the variables
that the program never assigns, and these hold what they were last set to.

* **`Code.storesFirst_iff`**: the variables that are stored to before they are loaded.
* **`Workspace.pass_fst_of_values`**: passes in workspaces that have the values of these variables
  in common, whatever their other values and names are.
* `Call.lastSettings`: what of a history counts.
* **`PreparedProgram.Settled`**: what the history leaves, kept by each call.
* **`BoundFormula.answers_after`**: answers are those of a new formula after the last settings.
-/

namespace FormulaMachine

/-! ## Loads behind stores -/

namespace Code

/-- Wherever the code loads from the address, it has stored there before. -/
def StoresFirst (code : List Instr) (a : Nat) : Prop :=
  ∀ k : Nat, code[k]? = some (.load a) → ∃ j < k, code[j]? = some (.store a)

/-- The first instruction does not load from the address, and it stores there or the rest of the
code stores first. -/
theorem storesFirst_cons {instr : Instr} {code : List Instr} {a : Nat} :
    StoresFirst (instr :: code) a ↔
      instr ≠ .load a ∧ (instr = .store a ∨ StoresFirst code a) := by
  constructor
  · refine fun h => ⟨fun hload => ?_, ?_⟩
    -- nothing is stored before the first instruction
    · obtain ⟨j, hj, -⟩ := h 0 (congrArg some hload)
      exact absurd hj (Nat.not_lt_zero j)
    · refine or_iff_not_imp_left.2 fun hstore k hk => ?_
      obtain ⟨j, hj, hjstore⟩ := h (k + 1) hk
      cases j with
      | zero => exact absurd (Option.some.inj hjstore) hstore
      | succ j => exact ⟨j, Nat.lt_of_succ_lt_succ hj, hjstore⟩
  · rintro ⟨hload, hrest⟩ k hk
    cases k with
    | zero => exact absurd (Option.some.inj hk) hload
    | succ k =>
      obtain rfl | hrest := hrest
      · exact ⟨0, Nat.succ_pos k, rfl⟩
      · obtain ⟨j, hj, hjstore⟩ := hrest k hk
        exact ⟨j + 1, Nat.succ_lt_succ hj, hjstore⟩

/-- What is stored first is not among what is read first. -/
theorem storesFirst_iff {code : List Instr} {a : Nat} :
    StoresFirst code a ↔ a ∉ readFirst code := by
  induction code with
  | nil => simp [StoresFirst, readFirst]
  | cons instr code ih =>
    rw [storesFirst_cons, ih, mem_readFirst_cons]
    cases instr with
    | load b => simp [Instr.source?, Instr.target?]
    -- a store settles its own address, and says nothing about the others
    | store b =>
      simp only [Instr.source?, Instr.target?]
      grind
    | push | call | binary | negate => simp [Instr.source?, Instr.target?]

/-- What is read first is read by some instruction. -/
theorem exists_load_of_mem_readFirst {code : List Instr} {a : Nat} (h : a ∈ readFirst code) :
    ∃ instr ∈ code, instr.source? = some a := by
  induction code with
  | nil => cases h
  | cons instr code ih =>
    obtain hsource | ⟨hrest, -⟩ := mem_readFirst_cons.1 h
    · exact ⟨instr, List.mem_cons_self, hsource⟩
    · obtain ⟨other, hmem, hsource⟩ := ih hrest
      exact ⟨other, List.mem_cons_of_mem _ hmem, hsource⟩

/-- What a program reads first has a name. -/
theorem Carries.exists_name {names : NameTable} {code : List Instr} {accesses : List Access}
    (h : Carries names code accesses) {a : Nat} (ha : a ∈ readFirst code) :
    ∃ name, names.address? name = some a := by
  obtain ⟨instr, hinstr, hsource⟩ := exists_load_of_mem_readFirst ha
  exact h.resolved instr hinstr a (Instr.address?_eq_some_iff.2 (.inl hsource))

end Code

/-- Every variable behind the first `count` that the program assigns is assigned before it is
read. -/
def Program.AssignsFirst (program : Program) (count : Nat) : Prop :=
  ∀ a ∈ Code.stored program.code, count ≤ a → Code.StoresFirst program.code a

/-- What such a program reads first, apart from arguments, it does not assign at all. -/
theorem Program.AssignsFirst.untouched {program : Program} {count : Nat}
    (h : program.AssignsFirst count) {a : Nat} (hread : a ∈ Code.readFirst program.code)
    (hfree : count ≤ a) : program.Untouched count a :=
  ⟨hfree, fun hstored => Code.storesFirst_iff.1 (h a hstored hfree) hread⟩

/-! ## Workspaces with more names than a program has -/

namespace Workspace

variable {α : Type} [Scalar α]

/-- The workspace with a few of its names only. -/
def restrict (w : Workspace α) (names : NameTable) : Workspace α :=
  { w with names, slots := w.slots.take names.size }

/-- A program does not notice that the names behind its own are gone. -/
theorem evaluate_restrict {options : Options} {table : NameTable} {source : String}
    {program : Program} (hcompile : Program.compile options table source = .ok program)
    {w : Workspace α} (hpre : program.names.names <+: w.names.names) :
    (w.evaluate program).1 = ((w.restrict program.names).evaluate program).1 := by
  have hcode := (Program.allocates_of_compile hcompile).code
  refine evaluate_of_isPrefix hcode rfl hpre rfl fun name hname => ?_
  obtain ⟨address, haddress⟩ := NameTable.exists_address? hname
  have hlater := NameTable.address?_of_isPrefix hpre haddress
  have hrestricted : (w.restrict program.names).names.address? name = some address := haddress
  rw [get?_of_address? hlater, get?_of_address? hrestricted]
  exact (List.getElem?_take_of_lt (NameTable.address?_lt_size haddress)).symm

/-- A workspace in use for a program: there is a value for each name, and the names of the program
come first. -/
structure Serves (w : Workspace α) (program : Program) : Prop where
  complete : w.Complete
  names : program.names.names <+: w.names.names

omit [Scalar α] in
/-- There is a value for each name of the program. -/
theorem Serves.size_le {w : Workspace α} {program : Program} (h : w.Serves program) :
    program.names.size ≤ w.slots.length :=
  h.names.length_le.trans_eq h.complete.symm

/-- Passes have the same result if the program assigns what it reads, or if the same values are
there: everything else may differ, values as well as names. -/
theorem pass_fst_of_values {options : Options} {table : NameTable} {source : String}
    {program : Program} (hcompile : Program.compile options table source = .ok program)
    {values : List α} (hassigns : program.AssignsFirst values.length)
    (hfit : values.length ≤ program.names.size) {w v : Workspace α} (hw : w.Serves program)
    (hv : v.Serves program) (hfunctions : w.functions = v.functions)
    (hvalues : ∀ name a, program.names.address? name = some a →
      program.Untouched values.length a → w.slots[a]? = v.slots[a]?) :
    (w.pass program values).1 = (v.pass program values).1 := by
  have hlength (u : Workspace α) (hu : u.Serves program) :
      ((u.setFirst values).restrict program.names).slots.length = program.names.size := by
    show ((u.setFirst values).slots.take program.names.size).length = program.names.size
    rw [List.length_take, length_slots_setFirst (hfit.trans hu.size_le)]
    exact Nat.min_eq_left hu.size_le
  -- the addresses where both sides hold the same: those of the arguments, and the free ones
  let common (a : Nat) : Prop := a < values.length ∨
    ∃ name, program.names.address? name = some a ∧ program.Untouched values.length a
  have hagree : ((w.setFirst values).restrict program.names).AgreeOn common
      ((v.setFirst values).restrict program.names) := by
    refine ⟨rfl, hfunctions, (hlength w hw).trans (hlength v hv).symm, fun a ha => ?_⟩
    show ((values ++ w.slots.drop values.length).take _)[a]? =
      ((values ++ v.slots.drop values.length).take _)[a]?
    have hslots : (values ++ w.slots.drop values.length)[a]? =
        (values ++ v.slots.drop values.length)[a]? := by
      obtain hlt | ⟨name, haddress, huntouched⟩ := ha
      · rw [List.getElem?_append_left hlt, List.getElem?_append_left hlt]
      · rw [List.getElem?_append_right huntouched.1, List.getElem?_append_right huntouched.1,
          List.getElem?_drop, List.getElem?_drop, Nat.add_sub_cancel' huntouched.1,
          hvalues name a haddress huntouched]
    rw [List.getElem?_take, List.getElem?_take, hslots]
  -- what the program reads first is an argument, or it never assigns it
  have hread : ∀ a ∈ Code.readFirst program.code, common a := by
    intro a ha
    rcases Nat.lt_or_ge a values.length with hlt | hge
    · exact .inl hlt
    · obtain ⟨name, haddress⟩ := (Program.allocates_of_compile hcompile).code.exists_name ha
      exact .inr ⟨name, haddress, hassigns.untouched ha hge⟩
  show ((w.setFirst values).evaluate program).1 = ((v.setFirst values).evaluate program).1
  rw [evaluate_restrict hcompile (w := w.setFirst values) hw.names,
    evaluate_restrict hcompile (w := v.setFirst values) hv.names]
  exact (evaluate_of_agreeOn hagree hread).1

end Workspace

/-! ## What of a history counts -/

namespace Call

/-- What a call sets the variable to, if it does so. -/
def valueFor? (name : String) : Call → Option Float
  | setVariable other value => if other = name then some value else none
  | _ => none

/-- What calls set a variable to in the end, if they do so at all. -/
def lastValue? (name : String) : List Call → Option Float
  | [] => none
  | call :: calls => (lastValue? name calls).or (call.valueFor? name)

/-- The calls that set a variable, for each variable the last one. -/
def lastSettings : List Call → List Call
  | [] => []
  | setVariable name value :: calls =>
    if (lastValue? name calls).isSome then lastSettings calls
    else setVariable name value :: lastSettings calls
  | _ :: calls => lastSettings calls

/-- Dropping the calls that set nothing, and settings that are overwritten, keeps every last
setting. -/
theorem lastValue?_lastSettings (name : String) (calls : List Call) :
    lastValue? name (lastSettings calls) = lastValue? name calls := by
  induction calls with
  | nil => rfl
  | cons call calls ih =>
    cases call with
    | setVariable other value =>
      rw [lastSettings]
      split
      -- a setting is dropped where a later one is kept
      · next hlater =>
        rw [ih, lastValue?]
        -- the setting that is dropped is overwritten later, if it is one of this variable
        by_cases hsame : other = name
        · subst hsame
          obtain ⟨later, hlater⟩ := Option.isSome_iff_exists.1 hlater
          simp [hlater]
        · simp [valueFor?, hsame]
      · rw [lastValue?, lastValue?, ih]
    | compile | evaluate | gradient | getVariable => simp [lastSettings, lastValue?, valueFor?, ih]

/-- The values of variables after a call. -/
def update (call : Call) (values : String → Float) (name : String) : Float :=
  (call.valueFor? name).getD (values name)

end Call

/-! ## What a history leaves -/

namespace PreparedProgram

/-- What is true of a prepared program at any time, where `values` are those that the variables were
set to: they are found in all variables that are neither arguments nor assigned by the program. -/
structure Settled (program : Program) (arity : Nat) (values : String → Float)
    (p : PreparedProgram) : Prop where
  program_eq : p.program = program
  coherent : p.Coherent arity
  names : program.names.names <+: p.workspace.names.names
  functions : p.workspace.functions = .extend .empty .standard
  values : ∀ name a, program.names.address? name = some a → program.Untouched arity a →
    p.workspace.slots[a]? = some (values name)

variable {program : Program} {arity : Nat} {values : String → Float} {p : PreparedProgram}

/-- A built program comes from its text, and has its arguments among its names. -/
theorem compile_of_build {options : Options} {arguments : List String} {source : String}
    (h : build options arguments source = .ok p) :
    Program.compile options (NameTable.empty.resolveAll arguments) source = .ok p.program ∧
      arguments.length ≤ p.program.names.size ∧
      p.workspace = (Workspace.forProgram p.program).registerStandard := by
  rw [build] at h
  split at h
  · cases h
  · next hrepeated =>
    split at h
    · cases h
    · next program hcompile =>
      cases h
      -- no argument comes twice, so each of them has got a name of its own
      have hprefix := Program.names_isPrefix_of_compile hcompile
      rw [@NameTable.names_resolveAll .empty _ hrepeated] at hprefix
      exact ⟨hcompile, hprefix.length_le, rfl⟩

/-- A newly built program has zeros. -/
theorem settled_build {options : Options} {arguments : List String} {source : String}
    (h : build options arguments source = .ok p) :
    p.Settled p.program arguments.length fun _ => 0 := by
  obtain ⟨-, -, hworkspace⟩ := compile_of_build h
  refine ⟨rfl, coherent_build h, ?_, ?_, fun name a haddress _ => ?_⟩
  · rw [hworkspace]
    exact List.prefix_refl _
  · rw [hworkspace]
    rfl
  · rw [hworkspace]
    show (List.replicate p.program.names.size 0)[a]? = some 0
    rw [List.getElem?_replicate, if_pos (NameTable.address?_lt_size haddress)]

/-- The workspace of a settled program serves it. -/
theorem Settled.serves (h : p.Settled program arity values) : p.workspace.Serves program :=
  ⟨h.coherent.complete, h.names⟩

/-- A value: arguments and assigned variables change, all others keep what they were set to. -/
theorem Settled.evaluate (h : p.Settled program arity values) {args : List Float}
    (hargs : args.length = arity) : (p.evaluate args).2.Settled program arity values := by
  obtain ⟨rfl, hcoherent, hnames, hfunctions, hvalues⟩ := h
  have hlength : args.length ≤ p.workspace.slots.length := hargs ▸ hcoherent.arguments
  -- a pass changes arguments and what the program assigns, and nothing else
  have hkept := Workspace.pass_agreeOn hcoherent.complete p.program hlength
  rw [hargs] at hkept
  refine ⟨rfl, coherent_evaluate hcoherent hargs, ?_, hkept.functions.trans hfunctions,
    fun name a haddress huntouched => ?_⟩
  · have hsame : (p.evaluate args).2.workspace.names = p.workspace.names := hkept.names
    rw [hsame]
    exact hnames
  · exact (hkept.slots a huntouched).trans (hvalues name a haddress huntouched)

/-- Derivatives leave the doubles alone. -/
theorem Settled.slopes (h : p.Settled program arity values) {args : List Float}
    (hargs : args.length = arity) (seeds : List Nat) :
    (p.slopes args seeds).2.Settled program arity values :=
  ⟨h.program_eq, coherent_slopes h.coherent hargs seeds, h.names, h.functions, h.values⟩

/-- Setting a variable sets what it holds, and leaves the others. -/
theorem Settled.setVariable (h : p.Settled program arity values) (name : String) (value : Float) :
    (p.setVariable name value).Settled program arity
      ((Call.setVariable name value).update values) := by
  have hcomplete := h.coherent.complete
  refine ⟨h.program_eq, coherent_setVariable h.coherent name value,
    h.names.trans (p.workspace.names.resolve_names_isPrefix name), h.functions,
    fun other a haddress huntouched => ?_⟩
  -- the slot at the address is what is read under the name
  have hbefore := NameTable.address?_of_isPrefix h.names haddress
  have hafter : (p.workspace.set name value).2.names.address? other = some a :=
    NameTable.address?_of_isPrefix (p.workspace.names.resolve_names_isPrefix name) hbefore
  have hread := h.values other a haddress huntouched
  rw [← Workspace.get?_of_address? hbefore] at hread
  show (p.workspace.set name value).2.slots[a]? = _
  rw [← Workspace.get?_of_address? hafter, Workspace.get?_set hcomplete, hread]
  by_cases hsame : name = other
  · simp [Call.update, Call.valueFor?, hsame]
  · simp [Call.update, Call.valueFor?, hsame, Ne.symm hsame]

/-! ## Answers -/

/-- Each pass has the result that it would have on its own. -/
theorem slopesFrom_fst {args : List Float} (hassigns : program.AssignsFirst args.length)
    {w v : Workspace (Dual Float)} (hv : v.Complete) (hlength : args.length ≤ v.slots.length)
    (h : w.AgreeOn (program.Untouched args.length) v) (seeds : List Nat) :
    (slopesFrom program args w seeds).1 =
      seeds.mapM fun seed => (v.pass program (seeded args seed)).1.map Dual.eps := by
  induction seeds generalizing w with
  | nil => rfl
  | cons seed seeds ih =>
    -- the pass does not see in what workspace it runs
    have hpass : (w.pass program (seeded args seed)).1 = (v.pass program (seeded args seed)).1 := by
      refine Workspace.pass_fst_of_agreeOn h fun a hread hfree => ?_
      rw [length_seeded] at hfree
      exact hassigns.untouched hread hfree
    rw [List.mapM_cons]
    cases hresult : (v.pass program (seeded args seed)).1 with
    | error fault =>
      rw [slopesFrom_of_error (hpass.trans hresult)]
      rfl
    | ok d =>
      have hfit : (seeded args seed).length ≤ w.slots.length := by
        rw [length_seeded, h.length]
        exact hlength
      -- and it leaves one that agrees as far as the one before
      have hkept := Workspace.pass_agreeOn (h.complete hv) program hfit
      rw [length_seeded] at hkept
      rw [slopesFrom_of_ok (hpass.trans hresult), ih (hkept.trans h)]
      cases seeds.mapM fun seed => (v.pass program (seeded args seed)).1.map Dual.eps <;> rfl

section

variable {q : PreparedProgram} {options : Options} {table : NameTable} {source : String}
  {args : List Float}

/-- The value is the same after all histories that leave the same settings. -/
theorem Settled.evaluate_fst (hcompile : Program.compile options table source = .ok program)
    (hassigns : program.AssignsFirst arity) (hfit : arity ≤ program.names.size)
    (hp : p.Settled program arity values) (hq : q.Settled program arity values)
    (hargs : args.length = arity) : (p.evaluate args).1 = (q.evaluate args).1 := by
  subst hargs
  show (p.workspace.pass p.program args).1 = (q.workspace.pass q.program args).1
  rw [hp.program_eq, hq.program_eq]
  refine Workspace.pass_fst_of_values hcompile hassigns hfit hp.serves hq.serves
    (hp.functions.trans hq.functions.symm) fun name a haddress huntouched => ?_
  rw [hp.values name a haddress huntouched, hq.values name a haddress huntouched]

/-- The derivatives are slopes of passes that each start from the variables as they are. -/
theorem Settled.slopes_fst_eq_mapM (hassigns : program.AssignsFirst arity)
    (h : p.Settled program arity values) (hargs : args.length = arity) (seeds : List Nat) :
    (p.slopes args seeds).1 = seeds.mapM fun seed =>
      (p.workspace.constants.pass program (seeded args seed)).1.map Dual.eps := by
  subst hargs
  have hstart := h.coherent.slopeStart
  rw [h.program_eq] at hstart
  have hlength : args.length ≤ p.workspace.constants.slots.length :=
    h.coherent.arguments.trans_eq (List.length_map Dual.constant).symm
  show (slopesFrom p.program args p.slopeStart seeds).1 = _
  rw [h.program_eq]
  exact slopesFrom_fst hassigns h.coherent.complete.constants hlength hstart seeds

/-- What was computed before makes no difference to derivatives if the program assigns before it
reads. -/
theorem Settled.slopes_fst (hcompile : Program.compile options table source = .ok program)
    (hassigns : program.AssignsFirst arity) (hfit : arity ≤ program.names.size)
    (hp : p.Settled program arity values) (hq : q.Settled program arity values)
    (hargs : args.length = arity) (seeds : List Nat) :
    (p.slopes args seeds).1 = (q.slopes args seeds).1 := by
  rw [hp.slopes_fst_eq_mapM hassigns hargs, hq.slopes_fst_eq_mapM hassigns hargs]
  congr 1
  funext seed
  have hseeded : (seeded args seed).length = arity := (length_seeded args seed).trans hargs
  have hconstants (r : PreparedProgram) (hr : r.Settled program arity values) :
      r.workspace.constants.Serves program := ⟨hr.coherent.complete.constants, hr.names⟩
  -- both passes start with the same values in all variables that are not assigned first
  rw [Workspace.pass_fst_of_values hcompile (hseeded ▸ hassigns) (hseeded ▸ hfit)
    (hconstants p hp) (hconstants q hq) rfl]
  intro name a haddress huntouched
  rw [hseeded] at huntouched
  show (p.workspace.slots.map Dual.constant)[a]? = (q.workspace.slots.map Dual.constant)[a]?
  rw [List.getElem?_map, List.getElem?_map, hp.values name a haddress huntouched,
    hq.values name a haddress huntouched]

end

end PreparedProgram

namespace BoundFormula

open Call (lastValue? lastSettings lastValue?_lastSettings)

variable {f : BoundFormula}

/-- A use of a formula that compiles is one of its program. -/
theorem withPrepared_of_prepare {β : Type} {p : PreparedProgram} (h : f.prepare = .ok p)
    (use : PreparedProgram → Except RunFault β × PreparedProgram) :
    f.withPrepared use = ((use p).1.mapError .run, { f with prepared? := some (use p).2 }) := by
  rw [withPrepared, h]

theorem withPrepared_of_error {β : Type} {fault : CompileFault} (h : f.prepare = .error fault)
    (use : PreparedProgram → Except RunFault β × PreparedProgram) :
    f.withPrepared use = (.error (.compile fault), f) := by
  rw [withPrepared, h]

/-- With the wrong number of arguments nothing is done. -/
theorem checkArity_of_ne {β : Type} {args : List Float} (h : args.length ≠ f.arity)
    (next : Except Fault β × BoundFormula) :
    f.checkArity args next = (.error (.size .arguments f.arity args.length), f) :=
  if_neg h

/-- A formula that does not compile stays as it is. -/
theorem perform_of_error {fault : CompileFault} (h : f.prepare = .error fault) (call : Call) :
    f.perform call = f := by
  cases call with
  | evaluate args | gradient args =>
    simp only [perform, evaluate, gradient, slopes, checkArity]
    split
    · rw [withPrepared_of_error h]
    · rfl
  | compile | setVariable | getVariable =>
    simp only [perform, compile, setVariable, getVariable]
    rw [withPrepared_of_error h]

/-- A formula that cannot be prepared is the new one after any calls. -/
theorem after_of_error {fault : CompileFault} (h : f.prepare = .error fault) (calls : List Call) :
    f.after calls = f := by
  induction calls with
  | nil => rfl
  | cons call calls ih =>
    show (f.perform call).after calls = f
    rw [perform_of_error h]
    exact ih

/-- A formula whose program, made if need be, is settled. -/
structure Settled (program : Program) (arity : Nat) (values : String → Float)
    (f : BoundFormula) : Prop where
  arity_eq : f.arity = arity
  prepared : ∃ p, f.prepare = .ok p ∧ p.Settled program arity values

namespace Settled

variable {g : BoundFormula} {program : Program} {arity : Nat} {values values' : String → Float}

/-- A call does to the formula what it does to the program. -/
theorem withPrepared {β : Type} (h : f.Settled program arity values)
    {use : PreparedProgram → Except RunFault β × PreparedProgram}
    (huse : ∀ p : PreparedProgram, p.Settled program arity values →
      (use p).2.Settled program arity values') :
    (f.withPrepared use).2.Settled program arity values' := by
  obtain ⟨p, hp, hsettled⟩ := h.prepared
  rw [withPrepared_of_prepare hp]
  exact ⟨h.arity_eq, (use p).2, rfl, huse p hsettled⟩

/-- The check of the arguments changes nothing, so what follows it decides. -/
theorem checkArity {β : Type} (h : f.Settled program arity values) {args : List Float}
    {next : Except Fault β × BoundFormula}
    (hnext : args.length = arity → next.2.Settled program arity values) :
    (f.checkArity args next).2.Settled program arity values := by
  by_cases hargs : args.length = f.arity
  · rw [BoundFormula.checkArity, if_pos hargs]
    exact hnext (hargs.trans h.arity_eq)
  · rw [checkArity_of_ne hargs]
    exact h

/-- Each call keeps the formula settled, and a setting updates the values. -/
theorem perform (h : f.Settled program arity values) (call : Call) :
    (f.perform call).Settled program arity (call.update values) := by
  cases call with
  | compile => exact h.withPrepared fun _ hp => hp
  | evaluate args => exact h.checkArity fun hargs => h.withPrepared fun _ hp => hp.evaluate hargs
  | gradient args => exact h.checkArity fun hargs => h.withPrepared fun _ hp => hp.slopes hargs _
  | setVariable name value => exact h.withPrepared fun _ hp => hp.setVariable name value
  | getVariable name => exact h.withPrepared fun _ hp => hp

/-- After calls, the variables hold what they were last set to. -/
theorem after (h : f.Settled program arity values) (calls : List Call) :
    (f.after calls).Settled program arity fun name =>
      (lastValue? name calls).getD (values name) := by
  induction calls generalizing f values with
  | nil => exact h
  | cons call calls ih =>
    have hvalues : (fun name => (lastValue? name (call :: calls)).getD (values name)) =
        fun name => (lastValue? name calls).getD (call.update values name) := by
      funext name
      rw [lastValue?, Call.update]
      cases lastValue? name calls <;> rfl
    rw [hvalues]
    exact ih (h.perform call)

/-- Two formulas with the same settings answer alike if two programs with the same settings do. -/
theorem answer_congr {β : Type} (hf : f.Settled program arity values)
    (hg : g.Settled program arity values) {args : List Float}
    {use : PreparedProgram → Except RunFault β × PreparedProgram}
    (huse : args.length = arity → ∀ p q : PreparedProgram, p.Settled program arity values →
      q.Settled program arity values → (use p).1 = (use q).1) :
    (f.checkArity args (f.withPrepared use)).1 = (g.checkArity args (g.withPrepared use)).1 := by
  have harity : g.arity = f.arity := hg.arity_eq.trans hf.arity_eq.symm
  by_cases hargs : args.length = f.arity
  · obtain ⟨p, hp, hpsettled⟩ := hf.prepared
    obtain ⟨q, hq, hqsettled⟩ := hg.prepared
    rw [BoundFormula.checkArity, BoundFormula.checkArity, if_pos hargs,
      if_pos (hargs.trans harity.symm), withPrepared_of_prepare hp, withPrepared_of_prepare hq,
      huse (hargs.trans hf.arity_eq) p q hpsettled hqsettled]
  · rw [checkArity_of_ne hargs, checkArity_of_ne (harity ▸ hargs), harity]

end Settled

/-- Where the program assigns its variables, apart from its arguments, before it reads them, each
value and each gradient is the one that a new formula gives after the last setting of each variable:
whatever calls came between, and whether they failed or not. -/
theorem answers_after (source : String) (arguments : List String) (options : Options)
    (hassigns : ∀ program, (compile { source, arguments, options }).1 = .ok program →
      program.AssignsFirst arguments.length)
    (calls : List Call) (args : List Float) :
    let new : BoundFormula := { source, arguments, options }
    ((new.after calls).evaluate args).1 = ((new.after (lastSettings calls)).evaluate args).1 ∧
      ((new.after calls).gradient args).1 = ((new.after (lastSettings calls)).gradient args).1 := by
  intro new
  cases hp : new.prepare with
  | error fault =>
    rw [after_of_error hp, after_of_error hp]
    exact ⟨rfl, rfl⟩
  | ok p =>
    have hprogram : new.compile.1 = .ok p.program := by
      rw [compile, withPrepared_of_prepare hp]
      rfl
    obtain ⟨hcompile, hfit, -⟩ := PreparedProgram.compile_of_build hp
    have hnew : new.Settled p.program arguments.length fun _ => 0 :=
      ⟨rfl, p, hp, PreparedProgram.settled_build hp⟩
    -- both histories leave the program settled with the same values
    have hafter := hnew.after calls
    have hlast := hnew.after (lastSettings calls)
    simp only [lastValue?_lastSettings] at hlast
    exact ⟨hafter.answer_congr hlast fun hargs _ _ hp hq =>
        hp.evaluate_fst hcompile (hassigns _ hprogram) hfit hq hargs,
      hafter.answer_congr hlast fun hargs _ _ hp hq =>
        hp.slopes_fst hcompile (hassigns _ hprogram) hfit hq hargs _⟩

/-- A program that assigns a variable of its own and its argument. -/
def reassigning : Program :=
  ⟨"t = a + x; x = t + x; x", ⟨[.assign "t" (.binary .add (.var "a") (.var "x")),
      .assign "x" (.binary .add (.var "t") (.var "x")), .result (.var "x")]⟩,
    [.load 1, .load 0, .binary .add, .store 2, .load 2, .load 0, .binary .add, .store 0, .load 0],
    .resolveAll .empty ["x", "a", "t"]⟩

set_option maxRecDepth 10000 in
/-- What the formula is compiled to. -/
theorem prepare_reassigning :
    prepare { source := "t = a + x; x = t + x; x", arguments := ["x"] } =
      .ok ⟨reassigning, (Workspace.forProgram reassigning).registerStandard, none⟩ := by
  have hparse : Formula.parse reassigning.source = .ok reassigning.formula := by cbv
  exact prepare_of_parse hparse (by rfl)

/-- The history sets `a` twice, a name that the program does not use, and the variable that it
assigns; it makes the workspace for derivatives early, and one call has too many arguments. -/
theorem answers_after_of_reassigning :
    let new : BoundFormula := { source := "t = a + x; x = t + x; x", arguments := ["x"] }
    let calls : List Call := [.setVariable "a" 2, .gradient [5], .evaluate [1, 2],
      .setVariable "u" 9, .evaluate [4], .setVariable "t" 6, .setVariable "a" 3]
    (∀ program, new.compile.1 = .ok program → program.AssignsFirst new.arguments.length) ∧
      ((new.after calls).evaluate [2]).1 = .ok 7 ∧ ((new.after calls).gradient [2]).1 = .ok [2] := by
  intro new calls
  have hassigns : ∀ program, new.compile.1 = .ok program →
      program.AssignsFirst new.arguments.length := by
    intro program hprogram
    rw [compile, withPrepared_of_prepare prepare_reassigning] at hprogram
    cases hprogram
    have hcode : ∀ a ∈ Code.stored reassigning.code, 1 ≤ a →
        a ∉ Code.readFirst reassigning.code := by decide
    exact fun a hstored hfree => Code.storesFirst_iff.2 (hcode a hstored hfree)
  obtain ⟨hvalue, hgradient⟩ := answers_after new.source new.arguments {} hassigns calls [2]
  have hsettings : lastSettings calls =
      [.setVariable "u" 9, .setVariable "t" 6, .setVariable "a" 3] := rfl
  let settled : PreparedProgram :=
    ⟨reassigning, ⟨[], .resolveAll .empty ["x", "a", "t", "u"], [0, 3, 6, 9],
      .extend .empty .standard⟩, none⟩
  -- after the last settings the workspace is known: 3 for `a`, 6 for `t`, 9 for `u`
  have hset : new.after (lastSettings calls) = { new with prepared? := some settled } := by
    rw [hsettings]
    show (new.setVariable "u" 9).2.after _ = _
    rw [setVariable, withPrepared_of_prepare prepare_reassigning]
    rfl
  have hprepare : { new with prepared? := some settled }.prepare = .ok settled := rfl
  have hseven : (settled.evaluate [2]).1 = .ok (3 + 2 + 2) := rfl
  have htwo : (settled.slopes [2] (List.range 1)).1 = .ok [0 + 1 + 1] := rfl
  have hsum : (3 + 2 + 2 : Float) = 7 := by decide +kernel
  have hslope : (0 + 1 + 1 : Float) = 2 := by decide +kernel
  rw [hset, evaluate_of_prepare hprepare rfl, hseven, hsum] at hvalue
  rw [hset, gradient, gradient, slopes_of_prepare hprepare rfl, List.length_singleton, htwo,
    hslope] at hgradient
  exact ⟨hassigns, hvalue, hgradient⟩

end BoundFormula

end FormulaMachine
