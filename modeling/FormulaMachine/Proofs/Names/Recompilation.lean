import FormulaMachine.Proofs.Names.Session

/-!
# Compiling a text again

A program leaves the table with addresses for all names that are variables in it somewhere. Compiled
again on that table, the text meets these addresses from its beginning. So a reference to `pi` or `e`
that was a constant in front of the first assignment to the name is a variable the second time, and
nothing else changes. From then on nothing changes at all.

* **`Access.outgrown`**: the references that are constants only until the end of the formula.
* `Recompiled`: code in which the constants of some references have become loads.
* **`Expr.recompiles_emit`**, **`Statement.recompiles_emitAll`**: emission on the table that an
  earlier emission has led to.
* **`Program.compile_again`**: the second and the third compilation of a text.
-/

namespace FormulaMachine

/-! ## References that are constants for a while -/

/-- A name that stands for a constant is none of those known, and is the name of one. -/
theorem constantBeside?_eq_some {options : Options} {known : List String} {name : String}
    {value : Float} (h : constantBeside? options known name = some value) :
    name ∉ known ∧ constant? name = some value := by
  unfold constantBeside? at h
  split at h
  · next hboth => exact ⟨hboth.2, h⟩
  · cases h

namespace Access

variable {options : Options} {known : List String}

/-- The names that are read as constants and assigned to further on, in the order of the reads. -/
def outgrown (options : Options) (known : List String) : List Access → List String
  | [] => []
  | read name :: rest =>
    if (constantBeside? options known name).isSome ∧ .write name ∈ rest then
      name :: outgrown options known rest
    else outgrown options known rest
  | write name :: rest => outgrown options (name :: known) rest

/-- Reads in front of other accesses: what is assigned to behind them is told by those. -/
theorem outgrown_reads_append (names : List String) (rest : List Access) :
    outgrown options known (names.map .read ++ rest) =
      (names.filter fun name => (constantBeside? options known name).isSome ∧ .write name ∈ rest) ++
        outgrown options known rest := by
  induction names with
  | nil => rfl
  | cons name names ih =>
    have hwrite : .write name ∈ names.map .read ++ rest ↔ .write name ∈ rest := by simp
    simp only [List.map_cons, List.cons_append, outgrown, ih, hwrite, List.filter_cons,
      decide_eq_true_eq]
    split <;> rfl

/-- A name is outgrown by a read of it in front of all assignments to it, if there is one behind. -/
theorem mem_outgrown_iff {accesses : List Access} {name : String} :
    name ∈ outgrown options known accesses ↔
      (constantBeside? options known name).isSome ∧
        ∃ before after, accesses = before ++ .read name :: after ∧ .write name ∉ before ∧
          .write name ∈ after := by
  induction accesses generalizing known with
  | nil => simp [outgrown]
  | cons access rest ih =>
    cases access with
    | read other =>
      -- a read is outgrown itself, or what is outgrown is further on
      have hrest : name ∈ outgrown options known (.read other :: rest) ↔
          (name = other ∧ (constantBeside? options known name).isSome ∧ .write name ∈ rest) ∨
            name ∈ outgrown options known rest := by
        rw [outgrown]
        split <;> grind
      rw [hrest, ih]
      constructor
      · rintro (⟨rfl, hconstant, hbehind⟩ | ⟨hconstant, before, after, rfl, hfront, hbehind⟩)
        · exact ⟨hconstant, [], rest, rfl, List.not_mem_nil, hbehind⟩
        · exact ⟨hconstant, .read other :: before, after, rfl, by simpa using hfront, hbehind⟩
      · rintro ⟨hconstant, before, after, hsplit, hfront, hbehind⟩
        cases before with
        | nil =>
          cases hsplit
          exact .inl ⟨rfl, hconstant, hbehind⟩
        | cons head before =>
          cases hsplit
          exact .inr ⟨hconstant, before, after, rfl, fun h => hfront (List.mem_cons_of_mem _ h),
            hbehind⟩
    | write other =>
      rw [outgrown, ih]
      constructor
      · rintro ⟨hconstant, before, after, rfl, hfront, hbehind⟩
        -- what has been assigned to is no constant
        have hne : name ≠ other := by
          rintro rfl
          rw [constantBeside?_of_mem (List.mem_cons_self ..)] at hconstant
          cases hconstant
        rw [constantBeside?_cons_of_ne hne] at hconstant
        exact ⟨hconstant, .write other :: before, after, rfl, by simp [hne, hfront], hbehind⟩
      · rintro ⟨hconstant, before, after, hsplit, hfront, hbehind⟩
        cases before with
        | nil => cases hsplit
        | cons head before =>
          cases hsplit
          have hne : name ≠ other := fun heq => hfront (by rw [heq]; exact List.mem_cons_self ..)
          rw [constantBeside?_cons_of_ne hne]
          exact ⟨hconstant, before, after, rfl, fun h => hfront (List.mem_cons_of_mem _ h), hbehind⟩

/-- What is a constant in front of the accesses needs an address exactly if they assign to it. -/
theorem mem_map_name_addressed_iff {accesses : List Access} {name : String}
    (h : (constantBeside? options known name).isSome) :
    name ∈ (addressed options known accesses).map Access.name ↔ .write name ∈ accesses := by
  induction accesses generalizing known with
  | nil => simp [addressed]
  | cons access rest ih =>
    cases access with
    | read other =>
      have hwrite : .write name ∈ read other :: rest ↔ .write name ∈ rest := by simp
      rw [addressed, hwrite]
      cases hother : constantBeside? options known other with
      | some value => exact ih h
      | none =>
        -- the one that is read is no constant, so it is another name
        have hne : name ≠ other := by
          rintro rfl
          rw [hother] at h
          cases h
        rw [List.map_cons, List.mem_cons]
        exact (or_iff_right hne).trans (ih h)
    | write other =>
      rw [addressed, List.map_cons, List.mem_cons, List.mem_cons]
      by_cases hother : name = other
      · subst hother
        exact iff_of_true (.inl rfl) (.inl rfl)
      -- assigning to another name leaves it a constant
      · have hstill : (constantBeside? options (other :: known) name).isSome := by
          rw [constantBeside?_cons_of_ne hother]
          exact h
        have hwrite : Access.write name ≠ .write other := fun heq => hother (by cases heq; rfl)
        rw [or_iff_right hwrite]
        exact (or_iff_right hother).trans (ih hstill)

end Access

open Access

/-! ## Code that differs in its constants -/

/-- The second code is the first one, but for some places where a constant with a name of its own was
put on the stack: there it loads from the address of that name. The names are those of the places in
their order. -/
inductive Recompiled (table : NameTable) : List String → List Instr → List Instr → Prop where
  | nil : Recompiled table [] [] []
  | same (instr : Instr) {names : List String} {first second : List Instr} :
      Recompiled table names first second →
      Recompiled table names (instr :: first) (instr :: second)
  | loads {name : String} {value : Float} {address : Nat} {names : List String}
      {first second : List Instr} :
      constant? name = some value → table.address? name = some address →
      Recompiled table names first second →
      Recompiled table (name :: names) (.push value :: first) (.load address :: second)

namespace Recompiled

variable {table : NameTable} {names more : List String} {first second first' second' : List Instr}

/-- One piece of code behind another. -/
theorem append (h : Recompiled table names first second)
    (hmore : Recompiled table more first' second') :
    Recompiled table (names ++ more) (first ++ first') (second ++ second') := by
  induction h with
  | nil => exact hmore
  | same instr _ ih => exact .same instr ih
  | loads hvalue haddress _ ih => exact .loads hvalue haddress ih

/-- Every place makes a difference. -/
theorem eq_iff (h : Recompiled table names first second) : second = first ↔ names = [] := by
  induction h with
  | nil => simp
  | same instr _ ih => rw [List.cons_inj_right, ih]
  | loads _ _ _ _ => simp

end Recompiled

/-- What is emitted on a table that an earlier emission has led to: the table stays as it is, and the
code differs from the earlier one at the places of some names. -/
structure Recompiles (final : NameTable) (names : List String)
    (earlier again : List Instr × NameTable) : Prop where
  table : again.2 = final
  code : Recompiled final names earlier.1 again.1

namespace Recompiles

variable {final : NameTable} {names more : List String}
  {earlier again earlier' again' : List Instr × NameTable}

/-- One piece of code behind another, each emitted on the table that the one before has left. -/
theorem append (h : Recompiles final names earlier again)
    (hnext : Recompiles final more earlier' again') :
    Recompiles final (names ++ more) (earlier.1 ++ earlier'.1, earlier'.2)
      (again.1 ++ again'.1, again'.2) :=
  ⟨hnext.table, h.code.append hnext.code⟩

theorem single (final : NameTable) (instr : Instr) (table : NameTable) :
    Recompiles final [] ([instr], table) ([instr], final) :=
  ⟨rfl, .same instr .nil⟩

/-- Such an instruction behind the code. -/
theorem andThen (h : Recompiles final names earlier again) (instr : Instr) :
    Recompiles final names (earlier.1 ++ [instr], earlier.2) (again.1 ++ [instr], again.2) := by
  refine ⟨h.table, ?_⟩
  rw [← List.append_nil names]
  exact h.code.append (.same instr .nil)

end Recompiles

/-! ## Emission on a later table -/

namespace NameTable

/-- A name in the table stands for no constant. -/
theorem constant?_of_mem {options : Options} {table : NameTable} {name : String}
    (h : name ∈ table.names) : table.constant? options name = none :=
  (SameConstants.of_names options table name).trans (constantBeside?_of_mem h)

end NameTable

namespace Expr

variable {options : Options} {final : NameTable}

/-- Those of the names read that are constants while the final table has an address for them. -/
def outgrownReads (options : Options) (known : List String) (final : NameTable)
    (names : List String) : List String :=
  names.filter fun name => (constantBeside? options known name).isSome ∧ name ∈ final.names

/-- References are told one by one. -/
theorem outgrownReads_append (known names more : List String) :
    outgrownReads options known final (names ++ more) =
      outgrownReads options known final names ++ outgrownReads options known final more :=
  List.filter_append ..

/-- Emission on the final table, compared with emission on a table on the way to it. -/
def RecompilesOn (options : Options) (final : NameTable) (e : Expr) : Prop :=
  ∀ ⦃table : NameTable⦄ ⦃known : List String⦄, SameConstants options table known →
    (e.emit options table).2.names <+: final.names →
    Recompiles final (outgrownReads options known final e.reads) (e.emit options table)
      (e.emit options final)

/-- A folded expression is the same value on any table. -/
theorem recompilesOn_of_folded? {e : Expr} {value : Float} (h : e.folded? options = some value) :
    e.RecompilesOn options final := by
  intro table known hsame _
  rw [reads_of_folded? h, emit_of_folded? h, emit_of_folded? h]
  exact .single final _ _

/-- A name. It was a variable before, and has the address that it got then; or it was a constant,
and then the final table tells whether it still is one. -/
theorem recompilesOn_var (name : String) : (var name).RecompilesOn options final := by
  intro table known hsame hpre
  have hconstant := hsame name
  cases hbeside : constantBeside? options known name with
  | some value =>
    obtain ⟨hknown, hvalue⟩ := constantBeside?_eq_some hbeside
    rw [emit_var_of_constant (hconstant.trans hbeside)]
    by_cases hmem : name ∈ final.names
    · -- the name has got its address behind this place
      obtain ⟨address, haddress⟩ := NameTable.exists_address? hmem
      have hreads : outgrownReads options known final (var name).reads = [name] := by
        simp [outgrownReads, reads, hbeside, hmem]
      rw [hreads, emit_var_of_variable (NameTable.constant?_of_mem hmem),
        NameTable.resolve_of_address? haddress]
      exact ⟨rfl, .loads hvalue haddress .nil⟩
    · have hreads : outgrownReads options known final (var name).reads = [] := by
        simp [outgrownReads, reads, hmem]
      -- no address has been given to the name, so it is a constant as before
      have hstill : final.constant? options name = some value := by
        rw [SameConstants.of_names options final name,
          constantBeside?_congr (iff_of_false hmem hknown), hbeside]
      rw [hreads, emit_var_of_constant hstill]
      exact .single final _ _
  | none =>
    have hreads : outgrownReads options known final (var name).reads = [] := by
      simp [outgrownReads, reads, hbeside]
    rw [emit_var_of_variable (hconstant.trans hbeside)] at hpre ⊢
    -- the address that was given here is the one in the final table
    have haddress : final.address? name = some (table.resolve name).1 :=
      NameTable.address?_of_isPrefix hpre (table.address?_resolve name)
    rw [hreads, emit_var_of_variable
      (NameTable.constant?_of_mem (NameTable.mem_names_of_address? haddress)),
      NameTable.resolve_of_address? haddress]
    exact .single final _ _

/-- Arguments, from left to right. -/
theorem recompiles_emitAll {es : List Expr} (h : ∀ e ∈ es, e.RecompilesOn options final)
    {table : NameTable} {known : List String} (hsame : SameConstants options table known)
    (hpre : (emitAll options table es).2.names <+: final.names) :
    Recompiles final (outgrownReads options known final (readsAll es)) (emitAll options table es)
      (emitAll options final es) := by
  induction es generalizing table with
  | nil =>
    rw [emitAll_nil, emitAll_nil]
    exact ⟨rfl, .nil⟩
  | cons e es ih =>
    rw [emitAll_cons] at hpre
    -- the first expression may have made names variables; the rest is recompiled with these known
    have hbetween := (e.allocates_emit options).sameConstants hsame
    have hfirst := h e (List.mem_cons_self ..) hsame
      ((emitAll_names_isPrefix options es _).trans hpre)
    have hrest := ih (fun e' he' => h e' (List.mem_cons_of_mem e he')) hbetween hpre
    rw [emitAll_cons, emitAll_cons, readsAll, outgrownReads_append, hfirst.table]
    exact hfirst.append hrest

/-- On a table that has grown from the one behind it, the expression is emitted again with loads in
place of the constants that have an address by now, and otherwise as before. -/
theorem recompiles_emit (options : Options) (final : NameTable) (e : Expr) :
    e.RecompilesOn options final := by
  induction e using nested_induction with
  | number value =>
    intro table known hsame _
    rw [emit_number, emit_number]
    exact .single final _ _
  | var name => exact recompilesOn_var name
  | binary op left right ihl ihr =>
    cases hfold : (binary op left right).folded? options with
    | some value => exact recompilesOn_of_folded? hfold
    | none =>
      intro table known hsame hpre
      rw [emit_binary hfold] at hpre
      have hbetween := (left.allocates_emit options).sameConstants hsame
      -- both operands are emitted on the final table, since the left one leaves it as it is
      have hleft := ihl hsame ((right.emit_names_isPrefix options _).trans hpre)
      have hright := ihr hbetween hpre
      rw [emit_binary hfold, emit_binary hfold, reads, outgrownReads_append, hleft.table]
      exact (hleft.append hright).andThen (.binary op)
  | negate operand ih =>
    cases hfold : (negate operand).folded? options with
    | some value => exact recompilesOn_of_folded? hfold
    | none =>
      intro table known hsame hpre
      rw [emit_negate hfold] at hpre
      rw [emit_negate hfold, emit_negate hfold, reads]
      exact (ih hsame hpre).andThen .negate
  | call function arguments ih =>
    intro table known hsame hpre
    rw [emit_call] at hpre
    rw [emit_call, emit_call, reads]
    exact (recompiles_emitAll ih hsame hpre).andThen _

end Expr

namespace Allocates

variable {options : Options} {table : NameTable} {known : List String}
  {emitted : List Instr × NameTable}

/-- A name that is a constant in front of some code has an address behind it exactly if the code
assigns to it. -/
theorem mem_names_iff {accesses : List Access}
    (h : Allocates table (addressed options known accesses) emitted)
    (hsame : SameConstants options table known) {name : String}
    (hconstant : (constantBeside? options known name).isSome) :
    name ∈ emitted.2.names ↔ .write name ∈ accesses := by
  have hnew : name ∉ table.names := by
    intro hmem
    rw [← hsame name, NameTable.constant?_of_mem hmem] at hconstant
    cases hconstant
  rw [h.names, NameTable.mem_names_resolveAll, or_iff_right hnew]
  exact mem_map_name_addressed_iff hconstant

/-- The references in a value that are outgrown, told by the final table and by what follows. -/
theorem outgrown_append {names : List String} {rest : List Access}
    (h : Allocates table (addressed options known (names.map .read ++ rest)) emitted)
    (hsame : SameConstants options table known) :
    outgrown options known (names.map .read ++ rest) =
      Expr.outgrownReads options known emitted.2 names ++ outgrown options known rest := by
  rw [outgrown_reads_append, Expr.outgrownReads]
  congr 1
  -- a reference is outgrown if its name has an address in the end, and then an assignment gives it
  -- one
  refine List.filter_congr fun name _ => decide_eq_decide.2 (and_congr_right fun hconstant => ?_)
  rw [h.mem_names_iff hsame hconstant]
  simp

end Allocates

namespace Statement

variable {options : Options} {table : NameTable} {known : List String}

/-- Statements emitted again on the table that they have led to. -/
theorem recompiles_emitAll (ss : List Statement) (hsame : SameConstants options table known)
    {final : NameTable} (hfinal : (emitAll options table ss).2 = final) :
    Recompiles final (outgrown options known (ss.flatMap accesses)) (emitAll options table ss)
      (emitAll options final ss) := by
  induction ss generalizing table known with
  | nil =>
    rw [emitAll_nil, emitAll_nil]
    exact ⟨rfl, .nil⟩
  | cons s ss ih =>
    have hallocates := allocates_emitAll (s :: ss) hsame
    rw [List.flatMap_cons] at hallocates ⊢
    cases s with
    | result value =>
      have hbetween := (value.allocates_emit options).sameConstants hsame
      have hpre : (value.emit options table).2.names <+: final.names :=
        hfinal ▸ emitAll_names_isPrefix options ss _
      have hvalue := value.recompiles_emit options final hsame hpre
      rw [accesses] at hallocates ⊢
      rw [hallocates.outgrown_append hsame, hfinal, emitAll_result, emitAll_result,
        hvalue.table]
      exact hvalue.append (ih hbetween hfinal)
    | assign name value =>
      have hbetween := (value.allocates_emit options).sameConstants hsame
      have hresolved : ((value.emit options table).2.resolve name).2.names <+: final.names :=
        hfinal ▸ emitAll_names_isPrefix options ss _
      have hpre := ((value.emit options table).2.resolve_names_isPrefix name).trans hresolved
      have hvalue := value.recompiles_emit options final hsame hpre
      -- the address that the first emission has given to the target is the one that is found
      have haddress := NameTable.address?_of_isPrefix hresolved (NameTable.address?_resolve _ name)
      rw [accesses, List.append_assoc, List.singleton_append] at hallocates ⊢
      rw [hallocates.outgrown_append hsame, hfinal, outgrown, emitAll_assign, emitAll_assign,
        hvalue.table, NameTable.resolve_of_address? haddress]
      exact (hvalue.andThen _).append (ih (hbetween.write name) hfinal)

end Statement

/-! ## Compiling again -/

/-- No reference to the name of a constant that stands in front of all assignments to the name has an
assignment to it behind it. -/
theorem Access.outgrown_eq_nil_iff {options : Options} {known : List String}
    {accesses : List Access} :
    outgrown options known accesses = [] ↔
      ∀ before name after, accesses = before ++ .read name :: after →
        (constantBeside? options known name).isSome → .write name ∉ before →
          .write name ∉ after := by
  rw [List.eq_nil_iff_forall_not_mem]
  simp only [mem_outgrown_iff]
  constructor
  · intro h before name after hsplit hconstant hfront hbehind
    exact h name ⟨hconstant, before, after, hsplit, hfront, hbehind⟩
  · rintro h name ⟨hconstant, before, after, hsplit, hfront, hbehind⟩
    exact h before name after hsplit hconstant hfront hbehind

namespace Program

variable {options : Options} {table : NameTable} {source : String} {formula : Formula}

/-- A text that is a formula compiles on any table. -/
theorem compile_of_parse (hparse : Formula.parse source = .ok formula) :
    compile options table source =
      .ok ⟨source, formula, (formula.emit options table).1, (formula.emit options table).2⟩ := by
  rw [compile, hparse]

/-- A text that is a formula, compiled again on the table that its program has left: the table stays
as it is; the code is the same exactly if no reference to the name of a constant that stands in front
of all assignments to it has one of them behind it; where the code is another one, it loads from the
address of such a name what the first code puts on the stack as the constant. Compiled once more, the
program is the same again. -/
theorem compile_again (hparse : Formula.parse source = .ok formula) :
    ∃ first second, compile options table source = .ok first ∧
      compile options first.names source = .ok second ∧
      second.names = first.names ∧
      (second.code = first.code ↔
        ∀ before name after, formula.accesses = before ++ .read name :: after →
          (table.constant? options name).isSome → .write name ∉ before → .write name ∉ after) ∧
      Recompiled first.names (outgrown options table.names formula.accesses) first.code
        second.code ∧
      compile options second.names source = .ok second := by
  have hagain := Statement.recompiles_emitAll formula.statements
    (SameConstants.of_names options table) rfl
  have htable : (formula.emit options (formula.emit options table).2).2 =
      (formula.emit options table).2 := hagain.table
  refine ⟨_, _, compile_of_parse hparse, compile_of_parse hparse, htable, ?_, hagain.code, ?_⟩
  -- the code is the same exactly if no reference is outgrown
  · simp only [SameConstants.of_names options table _]
    rw [← outgrown_eq_nil_iff]
    exact hagain.code.eq_iff
  · exact (congrArg (compile options · source) htable).trans (compile_of_parse hparse)

set_option maxRecDepth 10000 in
/-- `pi` is a constant in the first statement and assigned to in the second one, so the first load of
the program compiled again is from its address. `e` is a constant both times. -/
theorem compile_again_of_assigned_constant :
    let source := "a = pi; pi = a; e + pi"
    ∃ first second, compile {} ⟨["z"], by decide⟩ source = .ok first ∧
      first.names.names = ["z", "a", "pi"] ∧
      compile {} first.names source = .ok second ∧ second.names = first.names ∧
      second.code ≠ first.code ∧
      Recompiled first.names ["pi"] first.code second.code ∧
      compile {} second.names source = .ok second := by
  intro source
  let formula : Formula := ⟨[.assign "a" (.var "pi"), .assign "pi" (.var "a"),
    .result (.binary .add (.var "e") (.var "pi"))]⟩
  have hparse : Formula.parse source = .ok formula := by cbv
  have haccesses : formula.accesses =
      [.read "pi", .write "a", .read "a", .write "pi", .read "e", .read "pi"] := by cbv
  let table : NameTable := ⟨["z"], by decide⟩
  -- `pi` is read in front of its assignment, `e` is never assigned to
  have houtgrown : outgrown {} table.names formula.accesses = ["pi"] := by
    rw [haccesses]
    decide
  obtain ⟨first, second, hfirst, hsecond, hnames, hiff, hcode, hthird⟩ :=
    @compile_again {} table source formula hparse
  have hcompiled : compile {} table source = .ok ⟨source, formula,
      [.push Special.pi, .store 1, .load 1, .store 2, .push Special.euler, .load 2, .binary .add],
      ⟨["z", "a", "pi"], by decide⟩⟩ := by
    rw [compile_of_parse hparse]
    rfl
  have hfirst' := hfirst
  rw [hcompiled] at hfirst'
  cases hfirst'
  rw [houtgrown] at hcode
  refine ⟨_, second, hcompiled, rfl, hsecond, hnames, fun heq => ?_, hcode, hthird⟩
  exact hiff.1 heq [] "pi" _ haccesses (by decide) (by decide) (by decide)

end Program

end FormulaMachine
