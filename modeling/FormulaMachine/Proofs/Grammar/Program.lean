import FormulaMachine.Proofs.Grammar.Completeness
import FormulaMachine.Proofs.Grammar.Soundness
import FormulaMachine.Proofs.Token.Reading

/-!
# The parser accepts the grammar

From expressions to statements and programs, and from there to the formula that a stream of tokens
makes up.

* **`ProgramTree.parses`**, **`statements_sound`**: the two directions for programs.
* **`Formula.ofTokens_iff_derivation`**: the parser accepts what the grammar derives within the limit on
  nesting, and builds what the one derivation stands for.
* **`Formula.parse_of_reads`**, **`Formula.exists_reads_of_parse`**: the same for texts.
-/

namespace FormulaMachine

namespace Parser

/-! ## Statements -/

/-- A name and `=` are taken for the beginning of an assignment. -/
theorem assignment?_of_kinds {t u : Token} {name : String} (us : List Token)
    (ht : t.kind = .identifier name) (hu : u.kind = .assign) :
    ∃ h, assignment? (t :: u :: us) = some (name, ⟨us, h⟩) := by
  rw [assignment?, ht, hu]
  exact ⟨_, rfl⟩

/-- Nothing but a name and `=` is. -/
theorem kinds_of_assignment? {ts : List Token} {name : String} {rest : List Token}
    {h : rest.length ≤ ts.length} (hsome : assignment? ts = some (name, ⟨rest, h⟩)) :
    ∃ t u, ts = t :: u :: rest ∧ t.kind = .identifier name ∧ u.kind = .assign := by
  rw [assignment?.eq_def] at hsome
  split at hsome
  · next t u us =>
    split at hsome
    · next ht hu =>
      cases hsome
      exact ⟨t, u, rfl, ht, hu⟩
    · cases hsome
  · cases hsome

/-- Behind name and `=` an assignment is an expression. -/
theorem outcome_statement_of_assignment? {ts rest : List Token} {name : String}
    {h : rest.length ≤ ts.length} (hsome : assignment? ts = some (name, ⟨rest, h⟩)) :
    outcome (statement ts) = (outcome (expression rest)).mapValue (.assign name) := by
  rw [statement, hsome]
  exact (outcome_widen ..).trans (outcome_map ..)

/-- What does not begin like an assignment is read as a result. -/
theorem outcome_statement_of_none {ts : List Token} (hnone : assignment? ts = none) :
    outcome (statement ts) = (outcome (expression ts)).mapValue .result := by
  rw [statement, hnone]
  exact outcome_map ..

/-! ## Terminators and programs -/

theorem isTerminator_iff {k : TokenKind} : k.isTerminator = true ↔ k = .terminator := by
  cases k <;> simp [TokenKind.isTerminator]

/-- What follows a statement: a terminator and further statements, or the end. -/
def afterStatement (s : Statement) : List Token → Except Stop (List Statement)
  | [] => .ok [s]
  | t :: us =>
    if t.kind.isTerminator then (statements (t :: us)).map (s :: ·)
    else .error ⟨.missing .operatorOrEnd, t :: us⟩

/-- Terminators alone are a program without statements. -/
theorem statements_of_skip_nil {ts : List Token} (h : skipTerminators ts = []) :
    statements ts = .ok [] := by
  rw [statements]
  split
  · rfl
  · next hcons => rw [h] at hcons; cases hcons

/-- Behind the terminators a program has a statement, and then what follows a statement. -/
theorem statements_of_skip_cons {ts : List Token} {t : Token} {us : List Token}
    (h : skipTerminators ts = t :: us) :
    statements ts = (outcome (statement (t :: us))).andThen afterStatement := by
  rw [statements]
  split
  · next hnil => rw [h] at hnil; cases hnil
  · next t' us' hcons =>
    obtain ⟨rfl, rfl⟩ := List.cons.inj (h.symm.trans hcons)
    cases statement (t :: us) with
    | error stop => rfl
    | ok answer =>
      obtain ⟨s, rest, hshorter⟩ := answer
      -- what follows a statement is asked by the tokens that are left
      cases rest <;> rfl

/-- Terminators in front of a program do not matter. -/
theorem statements_congr {ts us : List Token} (h : skipTerminators ts = skipTerminators us) :
    statements ts = statements us := by
  cases hts : skipTerminators ts with
  | nil => rw [statements_of_skip_nil hts, statements_of_skip_nil (h.symm.trans hts)]
  | cons t rest => rw [statements_of_skip_cons hts, statements_of_skip_cons (h.symm.trans hts)]

theorem skipTerminators_cons {t : Token} {us : List Token} (h : t.kind = .terminator) :
    skipTerminators (t :: us) = skipTerminators us := by
  simp [skipTerminators, isTerminator_iff.2 h]

/-- All terminators in front are skipped, however many they are. -/
theorem skipTerminators_append {us : List Token} {n : Nat}
    (h : us.map Token.kind = List.replicate n .terminator) (vs : List Token) :
    skipTerminators (us ++ vs) = skipTerminators vs := by
  induction us generalizing n with
  | nil => rfl
  -- the first token is a terminator, as all of them are
  | cons t us ih =>
    cases n with
    | zero => cases h
    | succ n =>
      obtain ⟨hkind, hus⟩ := List.cons.inj h
      rw [List.cons_append, skipTerminators_cons hkind, ih hus]

/-- A token that is no terminator is where skipping ends. -/
theorem skipTerminators_of_ne {t : Token} {us : List Token} (h : t.kind ≠ .terminator) :
    skipTerminators (t :: us) = t :: us := by
  have hkind : ¬ t.kind.isTerminator = true := fun hterm => h (isTerminator_iff.1 hterm)
  simp [skipTerminators, hkind]

/-- What is skipped are terminators. -/
theorem exists_skipped (ts : List Token) :
    ∃ us n, us ++ skipTerminators ts = ts ∧
      us.map Token.kind = List.replicate n .terminator := by
  induction ts with
  | nil => exact ⟨[], 0, rfl, rfl⟩
  | cons t ts ih =>
    by_cases h : t.kind = .terminator
    · obtain ⟨us, n, hus, hkinds⟩ := ih
      refine ⟨t :: us, n + 1, ?_, ?_⟩
      · rw [skipTerminators_cons h, List.cons_append, hus]
      · rw [List.map_cons, h, hkinds, List.replicate_succ]
    · exact ⟨[], 0, by rw [skipTerminators_of_ne h]; rfl, rfl⟩

end Parser

namespace Grammar

/-! ## Derivations are found -/

/-- An expression is parsed up to the end of its statement. -/
theorem Tree.parses_expression (t : ExprTree) {us rest : List Token}
    (hus : us.map Token.kind = t.yield) (hend : AtEnd (rest.map Token.kind)) :
    Limited Parser.nestingLimit t.nesting (outcome (Parser.expression (us ++ rest))) (t.value, rest) :=
  t.parses Parser.nestingLimit hus (hend.ends _)

/-- A statement is parsed up to its end. It is taken for what it is, since no expression has `=`
behind its first token. -/
theorem StatementTree.parses (s : StatementTree) {us : List Token} (rest : List Token)
    (hus : us.map Token.kind = s.yield) (hend : AtEnd (rest.map Token.kind)) :
    Limited Parser.nestingLimit s.nesting (outcome (Parser.statement (us ++ rest)))
      (s.statement, rest) := by
  cases s with
  | assign name value =>
    obtain ⟨t, us, rfl, ht, hus⟩ := List.map_eq_cons_iff.1 hus
    obtain ⟨u, us, rfl, hu, hus⟩ := List.map_eq_cons_iff.1 hus
    obtain ⟨h, hassignment⟩ := Parser.assignment?_of_kinds (us ++ rest) ht hu
    rw [List.cons_append, List.cons_append, Parser.outcome_statement_of_assignment? hassignment]
    exact (value.parses_expression hus hend).mapValue _
  | result value =>
    -- an expression does not begin like an assignment
    have hnone : Parser.assignment? (us ++ rest) = none := by
      cases hassignment : Parser.assignment? (us ++ rest) with
      | none => rfl
      | some found =>
        obtain ⟨name, rest', h⟩ := found
        obtain ⟨t, u, hts, ht, hu⟩ := Parser.kinds_of_assignment? hassignment
        have hkinds := congrArg (List.map Token.kind) hts
        rw [List.map_append, List.map_cons, List.map_cons, hu, hus] at hkinds
        exact absurd hkinds (value.yield_append_ne_assign hend)
    rw [Parser.outcome_statement_of_none hnone]
    exact (value.parses_expression hus hend).mapValue _

/-- A statement is not skipped. -/
theorem StatementTree.skipTerminators_append (s : StatementTree) {us : List Token}
    (hus : us.map Token.kind = s.yield) (rest : List Token) :
    ∃ t ts, us ++ rest = t :: ts ∧ Parser.skipTerminators (us ++ rest) = t :: ts := by
  obtain ⟨k, ks, hyield, hne⟩ := s.begins
  rw [hyield] at hus
  obtain ⟨t, us, rfl, rfl, -⟩ := List.map_eq_cons_iff.1 hus
  exact ⟨t, us ++ rest, rfl, Parser.skipTerminators_of_ne hne⟩

/-- Terminators and the tokens of a statement: the terminators are skipped and the statement is
parsed. -/
theorem statements_eq_andThen {before : List Token} {n : Nat}
    (hbefore : before.map Token.kind = List.replicate n .terminator) (s : StatementTree)
    {us rest : List Token} (hus : us.map Token.kind = s.yield) :
    Parser.statements (before ++ (us ++ rest)) =
      (outcome (Parser.statement (us ++ rest))).andThen Parser.afterStatement := by
  obtain ⟨t, ts, hts, hskip⟩ := s.skipTerminators_append hus rest
  rw [Parser.statements_congr (Parser.skipTerminators_append hbefore _),
    Parser.statements_of_skip_cons hskip, hts]

/-- A statement in front changes the answer and nothing about the limit. -/
theorem Limited.mapList {levels n : Nat} {r : Except Stop (List Statement)}
    {ss : List Statement} (h : Limited levels n r ss) (s : Statement) :
    Limited levels n (r.map (s :: ·)) (s :: ss) := by
  refine ⟨fun hle => ?_, fun hlt => ?_⟩
  · rw [h.1 hle]
    rfl
  · obtain ⟨ahead, hstop⟩ := h.2 hlt
    exact ⟨ahead, by rw [hstop]; rfl⟩

/-- The derivation of a program is found. Induction on the tree, which has one constructor for each
way in which a program can go on behind its terminators. -/
theorem ProgramTree.parses (p : ProgramTree) {ts : List Token}
    (hts : ts.map Token.kind = p.yield) :
    Limited Parser.nestingLimit p.nesting (Parser.statements ts) p.statements := by
  induction p generalizing ts with
  | blank n =>
    have hskip := Parser.skipTerminators_append hts []
    rw [List.append_nil] at hskip
    rw [Parser.statements_of_skip_nil hskip]
    exact .ok _
  | last n s =>
    obtain ⟨before, us, rfl, hbefore, hus⟩ := List.map_eq_append_iff.1 hts
    have hstatement := s.parses [] hus atEnd_nil
    rw [← List.append_nil us, statements_eq_andThen hbefore s hus]
    exact hstatement.andThen_ok rfl
  | next n s p ih =>
    obtain ⟨before, ts, rfl, hbefore, hts⟩ := List.map_eq_append_iff.1 hts
    obtain ⟨us, ts, rfl, hus, hts⟩ := List.map_eq_append_iff.1 hts
    obtain ⟨t, ts, rfl, ht, hts⟩ := List.map_eq_cons_iff.1 hts
    -- the statement ends in front of the terminator
    have hend : AtEnd ((t :: ts).map Token.kind) := by
      rw [List.map_cons, ht]
      exact atEnd_terminator _
    have hstatement := s.parses (t :: ts) hus hend
    rw [statements_eq_andThen hbefore s hus]
    refine hstatement.andThen ?_
    -- the terminator is skipped together with those in front of the rest
    rw [Parser.afterStatement, if_pos (Parser.isTerminator_iff.2 ht),
      Parser.statements_congr (Parser.skipTerminators_cons ht)]
    exact (ih hts).mapList _

/-! ## Answers are derivations -/

/-- What is answered for a statement has a derivation, of an assignment if it begins like one. -/
theorem statement_sound {ts rest : List Token} {s : Statement}
    (h : outcome (Parser.statement ts) = .ok (s, rest)) :
    ∃ (tree : StatementTree) (us : List Token), us ++ rest = ts ∧
      us.map Token.kind = tree.yield ∧ tree.statement = s ∧ tree.nesting ≤ Parser.nestingLimit := by
  cases hassignment : Parser.assignment? ts with
  | none =>
    rw [Parser.outcome_statement_of_none hassignment] at h
    obtain ⟨e, hvalue, rfl⟩ := mapValue_eq_ok h
    obtain ⟨t, us, hus, hyield, rfl, hdepth⟩ := expression_sound hvalue
    exact ⟨.result t, us, hus, hyield, rfl, hdepth⟩
  | some found =>
    obtain ⟨name, rest', hshorter⟩ := found
    rw [Parser.outcome_statement_of_assignment? hassignment] at h
    obtain ⟨e, hvalue, rfl⟩ := mapValue_eq_ok h
    obtain ⟨t, us, hus, hyield, rfl, hdepth⟩ := expression_sound hvalue
    -- the two tokens in front are the target and the `=`
    obtain ⟨target, sign, rfl, htarget, hsign⟩ := Parser.kinds_of_assignment? hassignment
    refine ⟨.assign name t, target :: sign :: us, by rw [← hus]; rfl, ?_, rfl, hdepth⟩
    rw [List.map_cons, List.map_cons, htarget, hsign, hyield, StatementTree.yield]

/-- Programs, by induction on the number of tokens. -/
theorem statements_sound (ts : List Token) {ss : List Statement}
    (h : Parser.statements ts = .ok ss) :
    ∃ p : ProgramTree, p.yield = ts.map Token.kind ∧ p.statements = ss ∧
      p.nesting ≤ Parser.nestingLimit := by
  induction hn : ts.length using Nat.strong_induction_on generalizing ts ss with
  | _ n ih =>
    -- terminators first; behind them the end, or a statement
    obtain ⟨before, count, hbefore, hkinds⟩ := Parser.exists_skipped ts
    cases hskip : Parser.skipTerminators ts with
    | nil =>
      rw [Parser.statements_of_skip_nil hskip] at h
      cases h
      refine ⟨.blank count, ?_, rfl, Nat.zero_le _⟩
      rw [← hbefore, hskip, List.append_nil, hkinds, ProgramTree.yield]
    | cons t us =>
      rw [Parser.statements_of_skip_cons hskip] at h
      obtain ⟨s, rest, hstatement, hafter⟩ := andThen_eq_ok h
      obtain ⟨tree, vs, hvs, hyield, rfl, hdepth⟩ := statement_sound hstatement
      rw [hskip, ← hvs] at hbefore
      cases rest with
      | nil =>
        cases hafter
        refine ⟨.last count tree, ?_, rfl, hdepth⟩
        rw [← hbefore, List.append_nil, List.map_append, hkinds, hyield, ProgramTree.yield]
      | cons u rest =>
        rw [Parser.afterStatement] at hafter
        -- behind a statement only a terminator may stand
        split at hafter
        · next hterminator =>
          have hkind := Parser.isTerminator_iff.1 hterminator
          rw [Parser.statements_congr (Parser.skipTerminators_cons hkind)] at hafter
          cases hrest : Parser.statements rest with
          | error stop => rw [hrest] at hafter; cases hafter
          | ok ss' =>
            rw [hrest] at hafter
            cases hafter
            -- at least the terminator has been taken
            have hshorter : rest.length < n := by
              rw [← hn, ← hbefore, List.length_append, List.length_append, List.length_cons]
              omega
            obtain ⟨p, hp, rfl, hdepth'⟩ := ih _ hshorter rest hrest rfl
            refine ⟨.next count tree p, ?_, rfl, Nat.max_le.2 ⟨hdepth, hdepth'⟩⟩
            rw [← hbefore, List.map_append, List.map_append, List.map_cons, hkinds, hyield, hkind,
              ← hp, ProgramTree.yield]
        · cases hafter

end Grammar

open Grammar in
/-- The parser accepts exactly the tokens that the grammar derives with at most 256 signed phrases
within each other, and builds what the derivation stands for. There is one derivation. Tokens with a
derivation that nests deeper stop the parser for that reason and no other one. -/
theorem Formula.ofTokens_iff_derivation (stream : TokenStream) :
    (∀ formula, Formula.ofTokens stream = .ok formula ↔
      ∃ p : ProgramTree, p.yield = stream.tokens.map Token.kind ∧ p.nesting ≤ 256 ∧
        formula = ⟨p.statements⟩) ∧
    (∀ p q : ProgramTree, p.yield = stream.tokens.map Token.kind →
      q.yield = stream.tokens.map Token.kind → p = q) ∧
    ∀ p : ProgramTree, p.yield = stream.tokens.map Token.kind → 256 < p.nesting →
      ∃ position, Formula.ofTokens stream = .error ⟨.nestedTooDeeply, position⟩ := by
  refine ⟨fun formula => ⟨fun h => ?_, ?_⟩, fun p q hp hq => ?_, fun p hp hdeep => ?_⟩
  -- what is parsed has a derivation
  · rw [ofTokens] at h
    cases hstatements : Parser.statements stream.tokens with
    | error stop => rw [hstatements] at h; cases h
    | ok ss =>
      rw [hstatements] at h
      cases h
      obtain ⟨p, hp, rfl, hdepth⟩ := statements_sound _ hstatements
      exact ⟨p, hp, hdepth, rfl⟩
  -- what has one is parsed as it says
  · rintro ⟨p, hp, hdepth, rfl⟩
    rw [ofTokens, (p.parses hp.symm).1 hdepth]
  -- there is one derivation, whatever its nesting
  · exact ProgramTree.yield_inj (hp.trans hq.symm)
  -- and beyond the limit the parser stops for nesting
  · obtain ⟨ahead, hstop⟩ := (p.parses hp.symm).2 hdeep
    rw [ofTokens, hstop]
    exact ⟨_, rfl⟩

open Grammar in
/-- In `x = -2 ^ 3` the sign stands in front of the whole power. -/
theorem Formula.ofTokens_iff_derivation_of_sign :
    let kinds : List TokenKind := [.identifier "x", .assign, .minus, .number 2, .caret, .number 3]
    Formula.ofTokens ⟨kinds.map fun k => ⟨k, "", .start⟩, .start⟩ =
      .ok ⟨[.assign "x" (.negate (.binary .pow (.number 2) (.number 3)))]⟩ :=
  ((ofTokens_iff_derivation _).1 _).2
    ⟨.last 0 (.assign "x" (.chain (.chain (.minus (.unsigned
      (.raised (.number 2) (.unsigned (.bare (.number 3)))))) .done) .done)), rfl, by decide, rfl⟩

namespace Formula

open Grammar

/-- A text that is read as the tokens of a derivation is parsed as what the derivation stands for,
or is rejected for nesting. -/
theorem parse_of_reads {source : String} {p : ProgramTree} (h : Reads 0 source.toList p.yield) :
    (p.nesting ≤ Parser.nestingLimit → parse source = .ok ⟨p.statements⟩) ∧
      (Parser.nestingLimit < p.nesting →
        ∃ position, parse source = .error ⟨.nestedTooDeeply, position⟩) := by
  obtain ⟨stream, hscan, hkinds⟩ := h.scan
  have hparse := p.parses hkinds
  rw [parse, hscan]
  simp only [ofTokens]
  refine ⟨fun hle => ?_, fun hlt => ?_⟩
  · rw [hparse.1 hle]
  · obtain ⟨ahead, hstop⟩ := hparse.2 hlt
    rw [hstop]
    exact ⟨_, rfl⟩

/-- What is parsed is read as the tokens of a derivation within the limit. -/
theorem exists_reads_of_parse {source : String} {formula : Formula}
    (h : parse source = .ok formula) :
    ∃ p : ProgramTree, Reads 0 source.toList p.yield ∧ p.nesting ≤ Parser.nestingLimit ∧
      formula = ⟨p.statements⟩ := by
  rw [parse] at h
  cases hscan : TokenStream.scan source with
  | error stray => rw [hscan] at h; cases h
  | ok stream =>
    rw [hscan] at h
    simp only [ofTokens] at h
    cases hstatements : Parser.statements stream.tokens with
    | error stop => rw [hstatements] at h; cases h
    | ok ss =>
      rw [hstatements] at h
      cases h
      -- the tokens of the text are those of a derivation
      obtain ⟨p, hp, rfl, hnesting⟩ := statements_sound _ hstatements
      refine ⟨p, ?_, hnesting, rfl⟩
      rw [hp]
      exact TokenStream.reads_of_scanFrom source.toList hscan

/-- What is parsed has a derivation within the limit. -/
theorem exists_derivation_of_parse {source : String} {formula : Formula}
    (h : parse source = .ok formula) :
    ∃ p : ProgramTree, p.statements = formula.statements ∧ p.nesting ≤ Parser.nestingLimit := by
  obtain ⟨p, -, hnesting, rfl⟩ := exists_reads_of_parse h
  exact ⟨p, rfl, hnesting⟩

end Formula

end FormulaMachine
