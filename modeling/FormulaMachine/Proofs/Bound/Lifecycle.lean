import FormulaMachine.Proofs.Bound.Independence

/-!
# The life of a bound formula

A bound formula is new, or it is compiled, and it goes from the one to the other at most once. What
a call does depends on the two, and on three things that are checked in this order: the number of
values handed over, the names of the arguments, and the text.

* `Call.handed?`, `Call.Fits`: the number of values that a call hands over, and whether it is right.
* `BoundFormula.answer`: what a call answers.
* **`firstRepeated?_eq_some_iff`**: the argument that is reported if names are repeated.
* **`PreparedProgram.SameDoubles`**: programs that differ in what derivatives have left behind, which
  no other call sees.
* **`BoundFormula.lifecycle_after`**: what holds of a bound formula after any calls.
-/

namespace FormulaMachine

/-! ## Calls and their answers -/

namespace Call

/-- How many values the call hands over for the arguments, if it is one that does so. -/
def handed? : Call → Option Nat
  | evaluate args | gradient args => some args.length
  | compile | setVariable _ _ | getVariable _ => none

/-- The call hands over the right number of values, or none at all. -/
def Fits (arity : Nat) (call : Call) : Prop := ∀ found ∈ call.handed?, found = arity

instance (arity : Nat) (call : Call) : Decidable (call.Fits arity) :=
  inferInstanceAs (Decidable (∀ found ∈ call.handed?, found = arity))

/-- A call that does not fit hands over a number of values, and a wrong one. -/
theorem exists_handed? {arity : Nat} {call : Call} (h : ¬ call.Fits arity) :
    ∃ found, call.handed? = some found ∧ found ≠ arity := by
  rw [Fits] at h
  push Not at h
  exact h

/-- Whether derivatives are asked for. -/
def isGradient : Call → Bool
  | gradient _ => true
  | _ => false

end Call

/-- What a call answers if nothing keeps it from doing so. -/
inductive Answer where
  | program (program : Program)
  | value (value : Float)
  | slopes (slopes : List Float)
  | done
  | variable (value : Option Float)

namespace BoundFormula

/-- What the formula answers to a call. -/
def answer (f : BoundFormula) : Call → Except Fault Answer
  | .compile => f.compile.1.map .program
  | .evaluate args => (f.evaluate args).1.map .value
  | .gradient args => (f.gradient args).1.map .slopes
  | .setVariable name value => (f.setVariable name value).1.map fun _ => .done
  | .getVariable name => (f.getVariable name).1.map .variable

variable {f : BoundFormula}

/-- The number of values is checked first, and nothing else is done if it is wrong. -/
theorem perform_of_handed? {call : Call} {found : Nat} (hfound : call.handed? = some found)
    (hne : found ≠ f.arity) :
    f.perform call = f ∧ f.answer call = .error (.size .arguments f.arity found) := by
  cases call with
  | evaluate args | gradient args =>
    obtain rfl : args.length = found := Option.some.inj hfound
    simp only [perform, answer, evaluate, gradient, slopes, checkArity_of_ne hne]
    exact ⟨trivial, rfl⟩
  | compile | setVariable | getVariable => cases hfound

/-- A formula that does not compile answers every other call with the same fault. -/
theorem answer_of_error {fault : CompileFault} (h : f.prepare = .error fault) {call : Call}
    (hfits : call.Fits f.arity) : f.answer call = .error (.compile fault) := by
  cases call with
  | evaluate args | gradient args =>
    have hargs : args.length = f.arity := hfits _ rfl
    simp only [answer, evaluate, gradient, slopes, checkArity, if_pos hargs]
    rw [withPrepared_of_error h]
    rfl
  | compile | setVariable | getVariable =>
    simp only [answer, compile, setVariable, getVariable]
    rw [withPrepared_of_error h]
    rfl

/-- The first call that fits compiles the formula, and no call undoes it. -/
theorem isCompiled_perform {p : PreparedProgram} (h : f.prepare = .ok p) (call : Call) :
    (f.perform call).isCompiled ↔ f.isCompiled ∨ call.Fits f.arity := by
  by_cases hfits : call.Fits f.arity
  · refine iff_of_true ?_ (.inr hfits)
    cases call with
    | evaluate args | gradient args =>
      have hargs : args.length = f.arity := hfits _ rfl
      simp only [perform, evaluate, gradient, slopes, checkArity, if_pos hargs]
      rw [withPrepared_of_prepare h]
      rfl
    | compile | setVariable | getVariable =>
      simp only [perform, compile, setVariable, getVariable]
      rw [withPrepared_of_prepare h]
      rfl
  -- a call that is turned away leaves the formula as it is
  · obtain ⟨found, hfound, hne⟩ := Call.exists_handed? hfits
    rw [(perform_of_handed? hfound hne).1, or_iff_left hfits]

end BoundFormula

/-! ## Repeated arguments -/

/-- The name that is reported is the first argument that is equal to one before it. -/
theorem firstRepeated?_eq_some_iff {seen names : List String} {name : String}
    (hseen : seen.Nodup) :
    firstRepeated? seen names = some name ↔
      ∃ k : Nat, names[k]? = some name ∧ name ∈ seen ++ names.take k ∧
        (seen ++ names.take k).Nodup := by
  induction names generalizing seen with
  | nil => simp [firstRepeated?]
  | cons head rest ih =>
    rw [firstRepeated?]
    by_cases hhead : head ∈ seen
    -- from here on no beginning of the list is free of repetitions but the empty one
    · rw [if_pos hhead, Option.some.injEq]
      constructor
      · rintro rfl
        exact ⟨0, rfl, by simpa using hhead, by simpa using hseen⟩
      · rintro ⟨k, hk, -, hnodup⟩
        cases k with
        | zero => exact Option.some.inj hk
        | succ k =>
          rw [List.take_succ_cons, List.nodup_append] at hnodup
          exact absurd rfl (hnodup.2.2 head hhead head List.mem_cons_self)
    -- the names so far and this one are still different, so the rest is searched beside all of them
    · have hlonger : (seen ++ [head]).Nodup := by
        rw [← List.concat_eq_append]
        exact hseen.concat hhead
      rw [if_neg hhead, ih hlonger]
      simp only [List.append_assoc, List.singleton_append]
      constructor
      · rintro ⟨k, hk, hmem, hnodup⟩
        exact ⟨k + 1, hk, hmem, hnodup⟩
      · rintro ⟨k, hk, hmem, hnodup⟩
        cases k with
        | zero =>
          obtain rfl : head = name := Option.some.inj hk
          exact absurd (by simpa using hmem) hhead
        | succ k => exact ⟨k, hk, hmem, hnodup⟩

/-- No name is reported if none comes twice. -/
theorem firstRepeated?_eq_none_iff {seen names : List String} (hseen : seen.Nodup) :
    firstRepeated? seen names = none ↔ (seen ++ names).Nodup := by
  induction names generalizing seen with
  | nil => simpa [firstRepeated?] using hseen
  | cons head rest ih =>
    rw [firstRepeated?]
    by_cases hhead : head ∈ seen
    · rw [if_pos hhead]
      refine ⟨fun hsome => absurd hsome (Option.some_ne_none head), fun hnodup => ?_⟩
      exact absurd rfl ((List.nodup_append.1 hnodup).2.2 head hhead head List.mem_cons_self)
    · have hlonger : (seen ++ [head]).Nodup := by
        rw [← List.concat_eq_append]
        exact hseen.concat hhead
      rw [if_neg hhead, ih hlonger, List.append_assoc, List.singleton_append]

/-- In a table that begins with the arguments, each has its position as its address. -/
theorem NameTable.address?_argument {table : NameTable} {arguments : List String}
    (hinitial : arguments <+: table.names) {k : Nat} {name : String}
    (hk : arguments[k]? = some name) : table.address? name = some k := by
  obtain ⟨hlt, hname⟩ := List.getElem?_eq_some_iff.1 hk
  rw [address?_eq_some_iff, nameAt?, List.prefix_iff_getElem?.1 hinitial k hlt, hname]

/-! ## Derivatives leave no other trace -/

/-- The same program and the same doubles. The workspaces for derivatives may differ. -/
structure PreparedProgram.SameDoubles (p q : PreparedProgram) : Prop where
  program : p.program = q.program
  workspace : p.workspace = q.workspace

namespace PreparedProgram.SameDoubles

variable {p q : PreparedProgram}

theorem refl (p : PreparedProgram) : p.SameDoubles p := ⟨rfl, rfl⟩

/-- A value depends on the doubles, and what it leaves too. -/
theorem evaluate (h : p.SameDoubles q) (args : List Float) :
    (p.evaluate args).1 = (q.evaluate args).1 ∧
      (p.evaluate args).2.SameDoubles (q.evaluate args).2 := by
  simp only [PreparedProgram.evaluate, h.program, h.workspace, true_and]
  exact ⟨rfl, rfl⟩

theorem setVariable (h : p.SameDoubles q) (name : String) (value : Float) :
    (p.setVariable name value).SameDoubles (q.setVariable name value) :=
  ⟨h.program, congrArg (fun w => (w.set name value).2) h.workspace⟩

theorem slopes (h : p.SameDoubles q) (args : List Float) (seeds : List Nat) :
    (p.slopes args seeds).2.SameDoubles q := ⟨h.program, h.workspace⟩

end PreparedProgram.SameDoubles

namespace BoundFormula

/-- The same number of arguments, and programs with the same doubles or the same fault. -/
structure SameDoubles (f g : BoundFormula) : Prop where
  arity : f.arity = g.arity
  prepared : Alike PreparedProgram.SameDoubles f.prepare g.prepare

namespace SameDoubles

variable {f g : BoundFormula}

/-- A formula, whether it compiles or not. -/
theorem refl (f : BoundFormula) : f.SameDoubles f := by
  refine ⟨rfl, ?_⟩
  cases f.prepare with
  | error fault => exact .error fault
  | ok p => exact .ok (.refl p)

/-- A use that does the same to programs with the same doubles does so to the formulas. -/
theorem withPrepared {β : Type} (h : f.SameDoubles g)
    {use : PreparedProgram → Except RunFault β × PreparedProgram}
    (huse : ∀ p q : PreparedProgram, p.SameDoubles q →
      (use p).1 = (use q).1 ∧ (use p).2.SameDoubles (use q).2) :
    (f.withPrepared use).1 = (g.withPrepared use).1 ∧
      (f.withPrepared use).2.SameDoubles (g.withPrepared use).2 := by
  have hprepared := h.prepared
  generalize hf : f.prepare = left, hg : g.prepare = right at hprepared
  cases hprepared with
  | error fault =>
    rw [withPrepared_of_error hf, withPrepared_of_error hg]
    exact ⟨rfl, h⟩
  | ok hpq =>
    obtain ⟨houtcome, hafter⟩ := huse _ _ hpq
    rw [withPrepared_of_prepare hf, withPrepared_of_prepare hg, houtcome]
    exact ⟨rfl, h.arity, .ok hafter⟩

/-- A call that is not a gradient has the same answer, and the doubles stay the same. -/
theorem perform (h : f.SameDoubles g) {call : Call} (hcall : call.isGradient = false) :
    f.answer call = g.answer call ∧ (f.perform call).SameDoubles (g.perform call) := by
  cases call with
  | gradient args => cases hcall
  | compile =>
    have hboth := @withPrepared f g Program h (fun p => (.ok p.program, p)) fun p q hpq =>
      ⟨congrArg Except.ok hpq.program, hpq⟩
    exact ⟨congrArg (Except.map Answer.program) hboth.1, hboth.2⟩
  | evaluate args =>
    have hboth := h.withPrepared fun p q hpq => hpq.evaluate args
    -- the check of the arguments comes to the same on both sides
    by_cases hargs : args.length = f.arity
    · have hargs' : args.length = g.arity := hargs.trans h.arity
      simp only [answer, BoundFormula.perform, evaluate, checkArity, if_pos hargs, if_pos hargs']
      exact ⟨congrArg (Except.map Answer.value) hboth.1, hboth.2⟩
    · have hargs' : args.length ≠ g.arity := h.arity ▸ hargs
      simp only [answer, BoundFormula.perform, evaluate, checkArity_of_ne hargs,
        checkArity_of_ne hargs', h.arity, true_and]
      exact h
  | setVariable name value =>
    have hboth := @withPrepared f g Unit h (fun p => (.ok (), p.setVariable name value))
      fun p q hpq => ⟨rfl, hpq.setVariable name value⟩
    exact ⟨congrArg (Except.map fun _ => Answer.done) hboth.1, hboth.2⟩
  | getVariable name =>
    have hboth := @withPrepared f g (Option Float) h (fun p => (.ok (p.workspace.get? name), p))
      fun p q hpq => ⟨by rw [hpq.workspace], hpq⟩
    exact ⟨congrArg (Except.map Answer.variable) hboth.1, hboth.2⟩

/-- A gradient that only one of the formulas is asked for leaves the doubles the same. -/
theorem perform_gradient (h : f.SameDoubles g) {call : Call} (hcall : call.isGradient = true) :
    (f.perform call).SameDoubles g := by
  obtain ⟨args, rfl⟩ : ∃ args, call = .gradient args := by
    cases call with
    | gradient args => exact ⟨args, rfl⟩
    | compile | evaluate | setVariable | getVariable => cases hcall
  by_cases hargs : args.length = f.arity
  · have hprepared := h.prepared
    simp only [BoundFormula.perform, gradient, BoundFormula.slopes, checkArity, if_pos hargs]
    generalize hf : f.prepare = left, hg : g.prepare = right at hprepared
    cases hprepared with
    | error fault =>
      rw [withPrepared_of_error hf]
      exact h
    | ok hpq =>
      rw [withPrepared_of_prepare hf]
      -- the passes change the workspace for derivatives, and it is not compared
      refine ⟨h.arity, ?_⟩
      rw [hg]
      exact .ok (hpq.slopes args (List.range args.length))
  · simp only [BoundFormula.perform, gradient, BoundFormula.slopes, checkArity_of_ne hargs]
    exact h

/-- Calls with all gradients among them left out. -/
theorem after (h : f.SameDoubles g) (calls : List Call) :
    (f.after calls).SameDoubles (g.after (calls.filter (!·.isGradient))) := by
  induction calls generalizing f g with
  | nil => exact h
  | cons call calls ih =>
    cases hcall : call.isGradient with
    | true =>
      rw [List.filter_cons_of_neg (by simp [hcall])]
      exact ih (h.perform_gradient hcall)
    | false =>
      rw [List.filter_cons_of_pos (by simp [hcall])]
      exact ih (h.perform hcall).2

end SameDoubles

/-! ## What keeps a formula from being compiled -/

/-- Building fails over a repeated argument if there is one, before the text is looked at. -/
theorem build_eq_duplicateArgument_iff {options : Options} {arguments : List String}
    {source name : String} :
    PreparedProgram.build options arguments source = .error (.duplicateArgument name) ↔
      firstRepeated? [] arguments = some name := by
  rw [PreparedProgram.build]
  cases hrepeated : firstRepeated? [] arguments with
  | some other => simp
  | none =>
    rw [Program.compile]
    cases Formula.parse source <;> simp

/-- The text is not looked at before the arguments are known to be different. -/
theorem build_eq_malformed_iff {options : Options} {arguments : List String}
    {source text : String} {fault : SyntaxFault} :
    PreparedProgram.build options arguments source = .error (.malformed text fault) ↔
      firstRepeated? [] arguments = none ∧ text = source ∧ Formula.parse source = .error fault := by
  rw [PreparedProgram.build]
  cases hrepeated : firstRepeated? [] arguments with
  | some other => simp
  | none =>
    rw [Program.compile]
    cases Formula.parse source <;> simp [eq_comm]

/-- The names of a built program begin with its arguments. -/
theorem arguments_isPrefix_of_build {options : Options} {arguments : List String} {source : String}
    {p : PreparedProgram} (h : PreparedProgram.build options arguments source = .ok p) :
    arguments <+: p.program.names.names := by
  obtain ⟨hcompile, -, -⟩ := PreparedProgram.compile_of_build h
  have hrepeated : firstRepeated? [] arguments = none := by
    rw [PreparedProgram.build] at h
    split at h
    · cases h
    · next hnone => exact hnone
  have hinitial := Program.names_isPrefix_of_compile hcompile
  rw [@NameTable.names_resolveAll .empty _ hrepeated] at hinitial
  exact hinitial

/-! ## At any time -/

/-- A formula that compiles is compiled by the first call that fits, by induction on the calls. -/
theorem Settled.isCompiled_after {f : BoundFormula} {program : Program} {arity : Nat}
    {values : String → Float} (h : f.Settled program arity values) (calls : List Call) :
    (f.after calls).isCompiled ↔ f.isCompiled ∨ ∃ call ∈ calls, call.Fits arity := by
  induction calls generalizing f values with
  | nil =>
    simp only [List.not_mem_nil, false_and, exists_false, or_false]
    exact Iff.rfl
  | cons call calls ih =>
    obtain ⟨p, hp, -⟩ := h.prepared
    have hstep := isCompiled_perform hp call
    rw [h.arity_eq] at hstep
    rw [List.exists_mem_cons_iff, ← or_assoc, ← hstep]
    exact ih (h.perform call)

/-- What holds of a bound formula after any calls.

A call with the wrong number of values says so and changes nothing. If the formula cannot be
compiled, it stays new and every other call has the same fault: the first argument equal to one
before it if there is one, whatever the text is, and else the fault in the text. If it can, the first
call that is not turned away compiles it; then its program is the one of the new formula for good,
each argument has its position as its address, and both workspaces have the same names, among which
those of the program come first. Answers other than gradients are those that the formula would give
if no gradient had been asked for. -/
theorem lifecycle_after (source : String) (arguments : List String) (options : Options)
    (calls : List Call) :
    let new : BoundFormula := { source, arguments, options }
    let f := new.after calls
    (∀ (call : Call) (found : Nat), call.handed? = some found → found ≠ arguments.length →
      f.perform call = f ∧ f.answer call = .error (.size .arguments arguments.length found)) ∧
    (∀ fault, new.prepare = .error fault → f = new ∧
      ∀ call : Call, call.Fits arguments.length → f.answer call = .error (.compile fault)) ∧
    (∀ name, new.prepare = .error (.duplicateArgument name) ↔
      ∃ k : Nat, arguments[k]? = some name ∧ name ∈ arguments.take k ∧
        (arguments.take k).Nodup) ∧
    (∀ text fault, new.prepare = .error (.malformed text fault) ↔
      arguments.Nodup ∧ text = source ∧ Formula.parse source = .error fault) ∧
    (∀ p, new.prepare = .ok p → (f.isCompiled ↔ ∃ call ∈ calls, call.Fits arguments.length) ∧
      ∀ q, f.prepared? = some q → q.program = p.program ∧
        (∀ (k : Nat) (name : String), arguments[k]? = some name →
          q.program.names.address? name = some k) ∧
        q.program.names.names <+: q.workspace.names.names ∧
        ∀ w, q.slopeWorkspace = some w → w.names = q.workspace.names) ∧
    ∀ call : Call, call.isGradient = false →
      f.answer call = (new.after (calls.filter (!·.isGradient))).answer call := by
  intro new f
  have hsettled (p : PreparedProgram) (hp : new.prepare = .ok p) :
      new.Settled p.program arguments.length fun _ => 0 :=
    ⟨rfl, p, hp, PreparedProgram.settled_build hp⟩
  -- no call changes the number of arguments
  have harity : f.arity = arguments.length := by
    cases hp : new.prepare with
    | error fault => rw [show f = new from after_of_error hp calls]; rfl
    | ok p => exact ((hsettled p hp).after calls).arity_eq
  refine ⟨fun call found hfound hne => ?_, fun fault hfault => ?_, fun name => ?_, fun text fault => ?_,
    fun p hp => ⟨?_, fun q hq => ?_⟩, fun call hcall => ?_⟩
  · rw [← harity] at hne ⊢
    exact perform_of_handed? hfound hne
  · have hsame : f = new := after_of_error hfault calls
    rw [hsame]
    exact ⟨rfl, fun call hfits => answer_of_error hfault hfits⟩
  · exact build_eq_duplicateArgument_iff.trans (firstRepeated?_eq_some_iff List.nodup_nil)
  · exact build_eq_malformed_iff.trans
      (and_congr_left' (firstRepeated?_eq_none_iff List.nodup_nil))
  · have hcompiled := (hsettled p hp).isCompiled_after calls
    rwa [or_iff_right (show ¬ new.isCompiled = true from nofun)] at hcompiled
  · have hprepare : f.prepare = .ok q := by rw [prepare, hq]
    obtain ⟨q', hq', hafter⟩ := ((hsettled p hp).after calls).prepared
    obtain rfl : q = q' := Except.ok.inj (hprepare.symm.trans hq')
    refine ⟨hafter.program_eq, fun k name hk => ?_, hafter.program_eq ▸ hafter.names,
      fun w hw => (hafter.coherent.slopes w hw).names⟩
    rw [hafter.program_eq]
    exact NameTable.address?_argument (arguments_isPrefix_of_build hp) hk
  · exact (((SameDoubles.refl new).after calls).perform hcall).1

/-- A formula that repeats two of its arguments and cannot be parsed either, and one whose workspace
for derivatives is there before a name is added. -/
theorem lifecycle_after_of_repeated_arguments :
    let repeated : BoundFormula := { source := "2 + *", arguments := ["x", "y", "y", "x"] }
    let fault : Fault := .compile (.duplicateArgument "y")
    let sum : BoundFormula := { source := "t = a + x; x = t + x; x", arguments := ["x"] }
    let calls : List Call := [.gradient [1, 2], .gradient [5], .setVariable "u" 9]
    (repeated.after [.evaluate [1], .compile]).answer (.getVariable "x") = .error fault ∧
      (sum.after [.gradient [1, 2]]).isCompiled = false ∧ (sum.after calls).isCompiled ∧
      (sum.after calls).answer (.evaluate []) = .error (.size .arguments 1 0) ∧
      (sum.after calls).answer (.getVariable "u") =
        (sum.after [.setVariable "u" 9]).answer (.getVariable "u") ∧
      ∃ q w, (sum.after calls).prepared? = some q ∧ q.slopeWorkspace = some w ∧
        w.names = q.workspace.names := by
  intro repeated fault sum calls
  obtain ⟨-, hfault, hrepeated, -⟩ :=
    lifecycle_after repeated.source repeated.arguments {} [.evaluate [1], .compile]
  -- `y` is repeated before `x` is, and the text does not parse; the first of these is what is told
  obtain ⟨-, hanswers⟩ := hfault _ ((hrepeated "y").2 ⟨2, rfl, by decide, by decide⟩)
  obtain ⟨-, -, -, -, hearly, -⟩ :=
    lifecycle_after sum.source sum.arguments {} [.gradient [1, 2]]
  obtain ⟨hunfit, -, -, -, hlate, hsame⟩ := lifecycle_after sum.source sum.arguments {} calls
  obtain ⟨hnot, -⟩ := hearly _ prepare_reassigning
  obtain ⟨hcompiled, hkept⟩ := hlate _ prepare_reassigning
  have hnone : (sum.after [.gradient [1, 2]]).isCompiled = false := by
    rw [Bool.eq_false_iff, ne_eq, hnot]
    decide
  have hsome : (sum.after calls).isCompiled :=
    hcompiled.2 ⟨.gradient [5], by simp [calls], by decide⟩
  -- the first gradient is turned away, the second one makes the workspace for derivatives
  have hafter : ∃ q w, (sum.after calls).prepared? = some q ∧ q.slopeWorkspace = some w := by
    have hturned : (sum.gradient [1, 2]).2 = sum :=
      (@perform_of_handed? sum (.gradient [1, 2]) 2 rfl (by decide)).1
    show ∃ q w, (((sum.gradient [1, 2]).2.gradient [5]).2.setVariable "u" 9).2.prepared? = some q ∧
      q.slopeWorkspace = some w
    rw [hturned, gradient, slopes_of_prepare prepare_reassigning rfl, setVariable,
      withPrepared_of_prepare rfl]
    exact ⟨_, _, rfl, rfl⟩
  obtain ⟨q, w, hq, hw⟩ := hafter
  obtain ⟨-, -, -, hnames⟩ := hkept q hq
  exact ⟨hanswers _ (by decide), hnone, hsome, (hunfit (.evaluate []) 0 rfl (by decide)).2,
    hsame (.getVariable "u") rfl, q, w, hq, hw, hnames w hw⟩

end BoundFormula

end FormulaMachine
