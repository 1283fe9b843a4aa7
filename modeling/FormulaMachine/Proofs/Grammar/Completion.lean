import FormulaMachine.Proofs.Grammar.Program

/-!
# What a stopped parser has taken can be completed

Where a parser stops because something is missing, the tokens it has taken begin a phrase. One
completion is at hand: a number where an expression is missing, and the closing parenthesis of
whatever is open. It nests no deeper than what was taken, so it is within the limit.

* **`Completable`**: tokens that begin a phrase, with what they lack.
* **`Viable`**: a parser all of whose stops for something missing leave such tokens behind.
* **`chain_viable`**, **`argumentsFrom_viable`**, **`primary_viable`**, **`power_viable`**: one
  parser over another one.
* **`statements_viable`**: programs.
-/

namespace FormulaMachine.Grammar

/-- The tokens taken off the front of `ts` to leave `ahead` begin a derivation with at most `levels`
signed phrases within each other; `completion` is what they lack of it. -/
def Completable (phrase : Phrase) (levels : Nat) (ts ahead : List Token) : Prop :=
  ∃ (t : Tree phrase) (us : List Token) (completion : List TokenKind),
    us ++ ahead = ts ∧ t.yield = us.map Token.kind ++ completion ∧ t.nesting ≤ levels

/-- Wherever the parser stops because something is missing, what it has taken can be completed. -/
def Viable (category : Category) (levels : Nat) (parser : Parser Expr) : Prop :=
  ∀ ⦃ts : List Token⦄ ⦃expected : Expected⦄ ⦃ahead : List Token⦄,
    outcome (parser ts) = .error ⟨.missing expected, ahead⟩ →
      Completable (.expr category) levels ts ahead

/-- A sequence stops where its first parser stops, or behind what that one has parsed, where the
second stops. -/
theorem andThen_eq_error {α β : Type} {r : Outcome α} {next : α → List Token → Except Stop β}
    {stop : Stop} (h : r.andThen next = .error stop) :
    r = .error stop ∨ ∃ a rest, r = .ok (a, rest) ∧ next a rest = .error stop := by
  cases r with
  | error stop' =>
    cases h
    exact .inl rfl
  | ok answer => exact .inr ⟨answer.1, answer.2, rfl, h⟩

/-- A function of what was parsed does not touch a stop. -/
theorem mapValue_eq_error {α β : Type} {f : α → β} {r : Outcome α} {stop : Stop}
    (h : r.mapValue f = .error stop) : r = .error stop := by
  obtain hstop | ⟨a, rest, hr, hok⟩ := andThen_eq_error h
  · exact hstop
  · cases hok

variable {levels : Nat} {expected : Expected} {ahead : List Token}

/-- A number completes an expression that is missing altogether. -/
theorem completable_number (ts : List Token) : Completable (.expr .primary) levels ts ts :=
  ⟨.number 1, [], [.number 1], rfl, rfl, Nat.zero_le _⟩

/-! ## Chains -/

/-- The links behind an expression, by induction on the number of tokens. -/
theorem chainFrom_viable {level : Level} {operand : Parser Expr}
    (hsound : Sound level.operand levels operand) (hviable : Viable level.operand levels operand)
    (left : Expr) (ts : List Token)
    (h : outcome (Parser.chainFrom level.operator? operand left ts) =
      .error ⟨.missing expected, ahead⟩) : Completable (.links level) levels ts ahead := by
  induction hn : ts.length using Nat.strong_induction_on generalizing left ts with
  | _ n ih =>
    cases ts with
    | nil =>
      rw [Parser.outcome_chainFrom_nil] at h
      cases h
    | cons t us =>
      rw [Parser.outcome_chainFrom_cons] at h
      -- a token that is no operator ends the links, and that is no stop
      cases hop : level.operator? t.kind with
      | none =>
        rw [hop] at h
        cases h
      | some op =>
        rw [hop] at h
        obtain ⟨hmember, hkind⟩ := Level.operator?_eq_some_iff.1 hop
        -- the stop is in the operand behind the operator, or later
        obtain hright | ⟨right, mid, hright, hlinks⟩ := andThen_eq_error h
        · obtain ⟨tree, vs, completion, rfl, hyield, hdepth⟩ := hviable hright
          refine ⟨.link op hmember tree .done, t :: vs, completion, rfl, ?_, ?_⟩
          · simp only [Tree.yield, hyield, List.map_cons, hkind, List.append_nil, List.cons_append]
          · exact Nat.max_le.2 ⟨hdepth, Nat.zero_le _⟩
        · obtain ⟨tree, vs, rfl, hvs, rfl, hdepth⟩ := hsound hright
          have hshorter : mid.length < n := by
            rw [← hn, List.length_cons, List.length_append]
            omega
          obtain ⟨links, ws, completion, rfl, hyield, hdepth'⟩ := ih _ hshorter _ _ hlinks rfl
          refine ⟨.link op hmember tree links, t :: (vs ++ ws), completion, by simp, ?_, ?_⟩
          · simp only [Tree.yield, hyield, List.map_cons, List.map_append, hkind, hvs,
              List.append_assoc, List.cons_append]
          · exact Nat.max_le.2 ⟨hdepth, hdepth'⟩

/-- Chains: a stop in the first operand leaves the beginning of a chain without links, and a later
one the beginning of its links. -/
theorem chain_viable {level : Level} {operand : Parser Expr}
    (hsound : Sound level.operand levels operand) (hviable : Viable level.operand levels operand) :
    Viable (.chain level) levels (Parser.chain level.operator? operand) := by
  intro ts expected ahead h
  rw [Parser.outcome_chain] at h
  -- the stop is in the first operand, or in the links behind it
  obtain hfirst | ⟨left, mid, hfirst, hlinks⟩ := andThen_eq_error h
  · obtain ⟨tree, us, completion, rfl, hyield, hdepth⟩ := hviable hfirst
    refine ⟨.chain tree .done, us, completion, rfl, ?_, Nat.max_le.2 ⟨hdepth, Nat.zero_le _⟩⟩
    rw [Tree.yield, Tree.yield, hyield, List.append_nil]
  · obtain ⟨first, us, rfl, hus, rfl, hdepth⟩ := hsound hfirst
    obtain ⟨links, vs, completion, rfl, hyield, hdepth'⟩ :=
      chainFrom_viable hsound hviable _ _ hlinks
    refine ⟨.chain first links, us ++ vs, completion, List.append_assoc .., ?_, ?_⟩
    · rw [List.map_append, hus, Tree.yield, hyield, List.append_assoc]
    · exact Nat.max_le.2 ⟨hdepth, hdepth'⟩

/-- Sums of products, a chain over a chain. -/
theorem expressionOver_viable {signed : Parser Expr} (hsound : Sound .signed levels signed)
    (hviable : Viable .signed levels signed) :
    Viable (.chain .sums) levels (Parser.expressionOver signed) :=
  have hproducts : Sound (.chain .products) levels
      (Parser.chain Parser.multiplicative? signed) := @chain_sound levels .products _ hsound
  @chain_viable levels .sums _ hproducts (@chain_viable levels .products _ hsound hviable)

/-! ## Arguments and primary phrases -/

/-- The arguments of a call, by induction on the number of tokens. -/
theorem argumentsFrom_viable {expression : Parser Expr}
    (hsound : Sound (.chain .sums) levels expression)
    (hviable : Viable (.chain .sums) levels expression) (ts : List Token)
    (h : outcome (Parser.argumentsFrom expression ts) = .error ⟨.missing expected, ahead⟩) :
    Completable .arguments levels ts ahead := by
  induction hn : ts.length using Nat.strong_induction_on generalizing ts with
  | _ n ih =>
    rw [Parser.outcome_argumentsFrom] at h
    obtain hfirst | ⟨e, mid, hfirst, hafter⟩ := andThen_eq_error h
    · obtain ⟨argument, us, completion, rfl, hyield, hdepth⟩ := hviable hfirst
      refine ⟨.lastArgument argument, us, completion ++ [.closeParen], rfl, ?_, hdepth⟩
      rw [Tree.yield, hyield, List.append_assoc]
    · obtain ⟨argument, us, rfl, hus, rfl, hdepth⟩ := hsound hfirst
      -- where neither a comma nor the closing parenthesis stands, the latter completes the call
      have hclose : Completable .arguments levels (us ++ mid) mid :=
        ⟨.lastArgument argument, us, [.closeParen], rfl, by rw [Tree.yield, hus], hdepth⟩
      -- what follows the argument decides: nothing, a comma, the closing parenthesis or another
      -- token
      cases mid with
      | nil =>
        cases hafter
        exact hclose
      | cons t ts =>
        rw [Parser.afterArgument.eq_def] at hafter
        simp only at hafter
        split at hafter
        · next hkind =>
          have hshorter : ts.length < n := by
            rw [← hn, List.length_append, List.length_cons]
            omega
          obtain ⟨others, vs, completion, rfl, hyield, hdepth'⟩ :=
            ih _ hshorter _ (mapValue_eq_error hafter) rfl
          refine ⟨.nextArgument argument others, us ++ t :: vs, completion, by simp, ?_, ?_⟩
          · simp only [Tree.yield, hyield, hus, List.map_append, List.map_cons, hkind,
              List.append_assoc, List.cons_append]
          · exact Nat.max_le.2 ⟨hdepth, hdepth'⟩
        · cases hafter
        · cases hafter
          exact hclose

/-- A name with what stands behind it. The only stop for something missing is within the arguments
of a call, since a name alone is a phrase already. -/
theorem afterName_viable {expression : Parser Expr}
    (hsound : Sound (.chain .sums) levels expression)
    (hviable : Viable (.chain .sums) levels expression) {t : Token} {name : String}
    (hkind : t.kind = .identifier name) {us : List Token}
    (h : Parser.afterName expression name us = .error ⟨.missing expected, ahead⟩) :
    Completable (.expr .primary) levels (t :: us) ahead := by
  cases us with
  | nil => cases h
  | cons open' us =>
    rw [Parser.afterName.eq_def] at h
    simp only at h
    split at h
    · next hopen =>
      have hcall := mapValue_eq_error h
      -- a call that stops has arguments
      have harguments : outcome (Parser.argumentsFrom expression us) =
          .error ⟨.missing expected, ahead⟩ := by
        cases us with
        | nil => exact hcall
        | cons first us =>
          simp only [Parser.arguments] at hcall
          split at hcall
          · cases hcall
          · exact hcall
      obtain ⟨arguments, vs, completion, rfl, hyield, hdepth⟩ :=
        argumentsFrom_viable hsound hviable us harguments
      refine ⟨.callSome name arguments, t :: open' :: vs, completion, rfl, ?_, hdepth⟩
      simp only [Tree.yield, hyield, List.map_cons, hkind, hopen, List.cons_append]
    · cases h

/-- Primary phrases. Behind an opening parenthesis either the expression or the closing parenthesis
is missing, and both can be supplied. -/
theorem primary_viable {expression : Parser Expr}
    (hsound : Sound (.chain .sums) levels expression)
    (hviable : Viable (.chain .sums) levels expression) :
    Viable .primary levels (Parser.primary expression) := by
  intro ts expected ahead h
  cases ts with
  | nil =>
    cases h
    exact completable_number []
  | cons t us =>
    rw [Parser.outcome_primary] at h
    split at h
    · cases h
    · next name hkind => exact afterName_viable hsound hviable hkind h
    · next hopen =>
      obtain hinner | ⟨e, mid, hinner, hafter⟩ := andThen_eq_error h
      · obtain ⟨inner, vs, completion, rfl, hyield, hdepth⟩ := hviable hinner
        refine ⟨.parens inner, t :: vs, completion ++ [.closeParen], rfl, ?_, hdepth⟩
        simp only [Tree.yield, hyield, List.map_cons, hopen, List.append_assoc, List.cons_append]
      · obtain ⟨inner, vs, rfl, hvs, rfl, hdepth⟩ := hsound hinner
        -- the inner expression is complete, so a closing parenthesis is all that lacks
        have hclose : Completable (.expr .primary) levels (t :: (vs ++ mid)) mid := by
          refine ⟨.parens inner, t :: vs, [.closeParen], rfl, ?_, hdepth⟩
          simp only [Tree.yield, hvs, List.map_cons, hopen, List.cons_append]
        cases mid with
        | nil =>
          cases hafter
          exact hclose
        | cons close ts =>
          rw [Parser.afterInner.eq_def] at hafter
          simp only at hafter
          split at hafter
          · cases hafter
          · cases hafter
            exact hclose
    · cases h
      exact completable_number (t :: us)

/-! ## Powers and signs -/

/-- Powers: what is missing belongs to the base, or to the exponent behind a base that is complete.
-/
theorem power_viable {signed : Parser Expr} (hsound : Sound .signed levels signed)
    (hviable : Viable .signed levels signed) : Viable .power levels (Parser.power signed) := by
  intro ts expected ahead h
  have hexpression := expressionOver_sound hsound
  rw [Parser.outcome_power] at h
  obtain hbase | ⟨b, mid, hbase, hafter⟩ := andThen_eq_error h
  · obtain ⟨base, us, completion, rfl, hyield, hdepth⟩ :=
      primary_viable hexpression (expressionOver_viable hsound hviable) hbase
    exact ⟨.bare base, us, completion, rfl, hyield, hdepth⟩
  · obtain ⟨base, us, rfl, hus, rfl, hdepth⟩ := primary_sound hexpression hbase
    -- only a caret makes the parser go on behind a complete base
    cases mid with
    | nil => cases hafter
    | cons t ts =>
      rw [Parser.afterBase.eq_def] at hafter
      simp only at hafter
      split at hafter
      · next hcaret =>
        obtain ⟨exponent, vs, completion, rfl, hyield, hdepth'⟩ :=
          hviable (mapValue_eq_error hafter)
        refine ⟨.raised base exponent, us ++ t :: vs, completion, by simp, ?_, ?_⟩
        · simp only [Tree.yield, hyield, hus, List.map_append, List.map_cons, hcaret,
            List.append_assoc, List.cons_append]
        · exact Nat.max_le.2 ⟨hdepth, hdepth'⟩
      · cases hafter

/-- Signed phrases, by induction on the levels allowed. A parser that may go no deeper says so, and
does not say that something is missing. -/
theorem signed_viable (levels : Nat) : Viable .signed levels (Parser.signed levels) := by
  induction levels with
  | zero =>
    intro ts expected ahead h
    cases h
  | succ levels ih =>
    intro ts expected ahead h
    -- without a sign the phrase is a power one level further down, at the end of the tokens too
    have hunsigned (hpower : outcome (Parser.power (Parser.signed levels) ts) =
        .error ⟨.missing expected, ahead⟩) :
        Completable (.expr .signed) (levels + 1) ts ahead := by
      obtain ⟨operand, us, completion, hus, hyield, hdepth⟩ :=
        power_viable (signed_sound levels) ih hpower
      exact ⟨.unsigned operand, us, completion, hus, hyield, Nat.succ_le_succ hdepth⟩
    cases ts with
    | nil => exact hunsigned h
    | cons t us =>
      rw [Parser.outcome_signed_succ] at h
      split at h
      · next hkind =>
        obtain ⟨operand, us, completion, rfl, hyield, hdepth⟩ := ih (mapValue_eq_error h)
        refine ⟨.minus operand, t :: us, completion, rfl, ?_, Nat.succ_le_succ hdepth⟩
        rw [List.map_cons, hkind, Tree.yield, hyield, List.cons_append]
      · next hkind =>
        obtain ⟨operand, us, completion, rfl, hyield, hdepth⟩ := ih h
        refine ⟨.plus operand, t :: us, completion, rfl, ?_, Nat.succ_le_succ hdepth⟩
        rw [List.map_cons, hkind, Tree.yield, hyield, List.cons_append]
      · exact hunsigned h

theorem expression_viable : Viable (.chain .sums) Parser.nestingLimit Parser.expression :=
  expressionOver_viable (signed_sound _) (signed_viable _)

/-! ## Statements and programs -/

/-- Statements. The two tokens in front of an assigned expression are complete, so what is missing
belongs to the expression in either case. -/
theorem statement_viable {ts : List Token}
    (h : outcome (Parser.statement ts) = .error ⟨.missing expected, ahead⟩) :
    ∃ (tree : StatementTree) (us : List Token) (completion : List TokenKind), us ++ ahead = ts ∧
      tree.yield = us.map Token.kind ++ completion ∧ tree.nesting ≤ Parser.nestingLimit := by
  cases hassignment : Parser.assignment? ts with
  | none =>
    rw [Parser.outcome_statement_of_none hassignment] at h
    obtain ⟨t, us, completion, hus, hyield, hdepth⟩ := expression_viable (mapValue_eq_error h)
    exact ⟨.result t, us, completion, hus, hyield, hdepth⟩
  | some found =>
    obtain ⟨name, rest', hshorter⟩ := found
    rw [Parser.outcome_statement_of_assignment? hassignment] at h
    obtain ⟨t, us, completion, hus, hyield, hdepth⟩ := expression_viable (mapValue_eq_error h)
    -- target and `=` are there already, so what completes the value completes the statement
    obtain ⟨target, sign, rfl, htarget, hsign⟩ := Parser.kinds_of_assignment? hassignment
    refine ⟨.assign name t, target :: sign :: us, completion, by rw [← hus]; rfl, ?_, hdepth⟩
    simp only [StatementTree.yield, hyield, List.map_cons, htarget, hsign, List.cons_append]

/-- The tokens taken off the front of `ts` to leave `ahead` begin a program within the limit, and
lack something of it, if only the terminator of the last statement. -/
def CompletableProgram (ts ahead : List Token) : Prop :=
  ∃ (p : ProgramTree) (us : List Token) (completion : List TokenKind), us ++ ahead = ts ∧
    p.yield = us.map Token.kind ++ completion ∧ completion ≠ [] ∧
    p.nesting ≤ Parser.nestingLimit

section

variable {before vs : List Token} {count : Nat}

/-- Terminators and the beginning of a statement. -/
theorem completableProgram_of_statement {s : StatementTree} {completion : List TokenKind}
    (hbefore : before.map Token.kind = List.replicate count .terminator)
    (hyield : s.yield = vs.map Token.kind ++ completion)
    (hdepth : s.nesting ≤ Parser.nestingLimit) :
    CompletableProgram (before ++ (vs ++ ahead)) ahead := by
  refine ⟨.next count s (.blank 0), before ++ vs, completion ++ [.terminator],
    List.append_assoc .., ?_, by simp, Nat.max_le.2 ⟨hdepth, Nat.zero_le _⟩⟩
  simp [ProgramTree.yield, hyield, hbefore]

/-- Terminators, a statement with its terminator, and the beginning of a program. -/
theorem CompletableProgram.behind {s : StatementTree} {u : Token} {rest : List Token}
    (h : CompletableProgram rest ahead)
    (hbefore : before.map Token.kind = List.replicate count .terminator)
    (hyield : vs.map Token.kind = s.yield) (hdepth : s.nesting ≤ Parser.nestingLimit)
    (hterminator : u.kind = .terminator) :
    CompletableProgram (before ++ (vs ++ u :: rest)) ahead := by
  obtain ⟨p, ws, completion, rfl, hp, hne, hdepth'⟩ := h
  refine ⟨.next count s p, before ++ (vs ++ u :: ws), completion, by simp, ?_, hne,
    Nat.max_le.2 ⟨hdepth, hdepth'⟩⟩
  simp [ProgramTree.yield, hp, hbefore, hyield, hterminator]

end

/-- Programs, by induction on the number of tokens. -/
theorem statements_viable (ts : List Token)
    (h : Parser.statements ts = .error ⟨.missing expected, ahead⟩) :
    CompletableProgram ts ahead := by
  induction hn : ts.length using Nat.strong_induction_on generalizing ts with
  | _ n ih =>
    obtain ⟨before, count, hbefore, hkinds⟩ := Parser.exists_skipped ts
    cases hskip : Parser.skipTerminators ts with
    | nil =>
      rw [Parser.statements_of_skip_nil hskip] at h
      cases h
    | cons t us =>
      rw [Parser.statements_of_skip_cons hskip] at h
      rw [hskip] at hbefore
      obtain hstatement | ⟨s, rest, hstatement, hafter⟩ := andThen_eq_error h
      · obtain ⟨s, vs, completion, hvs, hyield, hdepth⟩ := statement_viable hstatement
        rw [← hbefore, ← hvs]
        -- the stop is within the statement, and what completes it is followed by a terminator
        exact completableProgram_of_statement hkinds hyield hdepth
      · obtain ⟨tree, vs, hvs, hyield, rfl, hdepth⟩ := statement_sound hstatement
        rw [← hbefore, ← hvs]
        cases rest with
        | nil => cases hafter
        | cons u rest =>
          rw [Parser.afterStatement] at hafter
          -- behind the statement a terminator stands, or the parser stops
          split at hafter
          · next hterminator =>
            have hkind := Parser.isTerminator_iff.1 hterminator
            rw [Parser.statements_congr (Parser.skipTerminators_cons hkind)] at hafter
            cases hrest : Parser.statements rest with
            | ok ss => rw [hrest] at hafter; cases hafter
            | error stop =>
              rw [hrest] at hafter
              cases hafter
              have hshorter : rest.length < n := by
                rw [← hn, ← hbefore, ← hvs, List.length_append, List.length_append,
                  List.length_cons]
                omega
              exact (ih _ hshorter rest hrest rfl).behind hkinds hyield hdepth hkind
          · cases hafter
            -- the statement is complete, only its terminator lacks
            have hcomplete : tree.yield = vs.map Token.kind ++ [] := by
              rw [hyield, List.append_nil]
            exact completableProgram_of_statement hkinds hcomplete hdepth

end FormulaMachine.Grammar
