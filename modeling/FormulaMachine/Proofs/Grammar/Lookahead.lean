import FormulaMachine.Proofs.Grammar.Program

/-!
# One token of lookahead

A parser decides by the tokens it takes and by the one in front of which it ends. With other tokens
behind that one it ends at the same place, with the same value or for the same reason. An assignment
is told by its second token, but then the first one is taken whatever the second is.

* **`LocalAt`**: what this means for a parser on some tokens.
* **`LocalAt.behind`**, **`LocalAt.andThen`**, **`local_of_front`**: how such parsers are put
  together.
* **`local_expression`**, **`localAt_statement`**: the parsers of expressions and statements.
* **`Parser.exists_stop_of_statements`**: where a program stops, it does so whatever stands behind
  the token in front.
-/

namespace FormulaMachine

variable {α β : Type}

namespace Outcome

/-- The tokens left, or those ahead of the stop. -/
def left : Outcome α → List Token
  | .error stop => stop.ahead
  | .ok (_, rest) => rest

/-- The same answer, or the same obstacle, in front of other tokens. -/
def before (more : List Token) : Outcome α → Outcome α
  | .error stop => .error ⟨stop.obstacle, more⟩
  | .ok (a, _) => .ok (a, more)

theorem before_left (r : Outcome α) : r.before r.left = r := by
  cases r <;> rfl

end Outcome

/-- On these tokens the parser takes some off the front, and it does the same on any tokens that
differ from them only behind the one that comes next then. -/
def LocalAt (f : List Token → Outcome α) (ts : List Token) : Prop :=
  ∃ us, us ++ (f ts).left = ts ∧
    ∀ more, more.head? = (f ts).left.head? → f (us ++ more) = (f ts).before more

/-- On all tokens. -/
def Local (f : List Token → Outcome α) : Prop := ∀ ts, LocalAt f ts

/-! ## Putting parsers together -/

/-- The token in front of two lists is the same if they differ only behind it. -/
theorem head?_append_congr {more left : List Token} (us : List Token)
    (h : more.head? = left.head?) : (us ++ more).head? = (us ++ left).head? := by
  rw [List.head?_append, List.head?_append, h]

section

variable {f g : List Token → Outcome α} {ts : List Token}

/-- A parser takes tokens off the front, so it leaves no more than it was given. -/
theorem LocalAt.length_le (h : LocalAt f ts) : (f ts).left.length ≤ ts.length := by
  obtain ⟨us, hus, -⟩ := h
  have hlength := congrArg List.length hus
  rw [List.length_append] at hlength
  omega

theorem local_ok (a : α) : Local fun ts => .ok (a, ts) := fun _ => ⟨[], rfl, fun _ _ => rfl⟩

theorem local_error (o : Obstacle) : Local fun ts => (.error ⟨o, ts⟩ : Outcome α) :=
  fun _ => ⟨[], rfl, fun _ _ => rfl⟩

/-- A parser that takes all tokens; so nothing can stand behind them. -/
theorem localAt_of_left_eq_nil (h : (f ts).left = []) : LocalAt f ts := by
  refine ⟨ts, by rw [h, List.append_nil], fun more hhead => ?_⟩
  rw [h] at hhead
  obtain rfl := List.head?_eq_none_iff.1 hhead
  have hsame := (f ts).before_left
  rw [h] at hsame
  rw [List.append_nil, hsame]

/-- Where the tokens `us` are in front and the same token follows, `f` takes them and goes on
as `g`. -/
theorem LocalAt.behind (hg : LocalAt g ts) (us : List Token)
    (h : ∀ vs, vs.head? = ts.head? → f (us ++ vs) = g vs) : LocalAt f (us ++ ts) := by
  obtain ⟨vs, hvs, hmore⟩ := hg
  have hsame : f (us ++ ts) = g ts := h ts rfl
  refine ⟨us ++ vs, by rw [hsame, List.append_assoc, hvs], fun more hhead => ?_⟩
  rw [hsame] at hhead ⊢
  have hfront : (vs ++ more).head? = ts.head? := by
    rw [head?_append_congr vs hhead, hvs]
  rw [List.append_assoc, h _ hfront]
  exact hmore more hhead

/-- A parser that takes the token in front. -/
theorem LocalAt.take {t : Token} {us : List Token} (hg : LocalAt g us)
    (h : ∀ vs, f (t :: vs) = g vs) : LocalAt f (t :: us) :=
  hg.behind [t] fun vs _ => h vs

/-- Parsers that do the same wherever this token is in front. -/
theorem LocalAt.congr_cons {t : Token} {us : List Token} (hg : LocalAt g (t :: us))
    (h : ∀ vs, f (t :: vs) = g (t :: vs)) : LocalAt f (t :: us) := by
  refine hg.behind [] fun vs hhead => ?_
  obtain ⟨vs, rfl⟩ := List.head?_eq_some_iff.1 hhead
  exact h vs

/-- Parsers that do the same at the end of the tokens. -/
theorem LocalAt.congr_nil (hg : LocalAt g []) (h : f [] = g []) : LocalAt f [] := by
  refine hg.behind [] fun vs hhead => ?_
  obtain rfl := List.head?_eq_none_iff.1 hhead
  exact h

/-- One parser behind another. What the second one sees of other tokens is what it has seen before,
since the first one does not see more of them. -/
theorem LocalAt.andThen {next : α → List Token → Outcome β} (hf : LocalAt f ts)
    (hnext : ∀ a rest, f ts = .ok (a, rest) → rest.length ≤ ts.length → LocalAt (next a) rest) :
    LocalAt (fun ts => (f ts).andThen next) ts := by
  have hshorter := hf.length_le
  obtain ⟨us, hus, hmore⟩ := hf
  cases hr : f ts with
  | error stop =>
    rw [hr] at hus hmore
    refine ⟨us, by simp only [hr]; exact hus, fun more hhead => ?_⟩
    simp only [hr] at hhead ⊢
    rw [hmore more hhead]
    rfl
  | ok answer =>
    obtain ⟨a, rest⟩ := answer
    rw [hr] at hus hmore hshorter
    obtain ⟨vs, hvs, hmore'⟩ := hnext a rest hr hshorter
    refine ⟨us ++ vs, ?_, fun more hhead => ?_⟩
    · simp only [hr]
      show us ++ vs ++ (next a rest).left = ts
      rw [List.append_assoc, hvs]
      exact hus
    · simp only [hr] at hhead ⊢
      -- the token in front of which the first parser ends is the same
      have hfront : (vs ++ more).head? = rest.head? := by
        rw [← hvs]
        exact head?_append_congr vs hhead
      rw [List.append_assoc, hmore _ hfront]
      exact hmore' more hhead

theorem Local.andThen {next : α → List Token → Outcome β} (hf : Local f)
    (hnext : ∀ a, Local (next a)) : Local fun ts => (f ts).andThen next :=
  fun ts => (hf ts).andThen fun a rest _ _ => hnext a rest

/-- A function of the value looks at no token. -/
theorem LocalAt.mapValue (hf : LocalAt f ts) (k : α → β) :
    LocalAt (fun ts => (f ts).mapValue k) ts :=
  hf.andThen fun a rest _ _ => local_ok (k a) rest

theorem Local.mapValue (hf : Local f) (k : α → β) : Local fun ts => (f ts).mapValue k :=
  fun ts => (hf ts).mapValue k

/-- A parser that takes a token of the kind `k` and goes on as `g`, and does as `h` in front of
anything else. -/
theorem local_of_front {h : List Token → Outcome α} (k : TokenKind) (hg : Local g) (hh : Local h)
    (htake : ∀ t us, t.kind = k → f (t :: us) = g us)
    (hother : ∀ t us, t.kind ≠ k → f (t :: us) = h (t :: us)) (hnil : f [] = h []) : Local f := by
  intro ts
  cases ts with
  | nil => exact (hh []).congr_nil hnil
  | cons t us =>
    by_cases hkind : t.kind = k
    · exact (hg us).take fun vs => htake t vs hkind
    · exact (hh (t :: us)).congr_cons fun vs => hother t vs hkind

end

namespace Parser

section

/-! ## Chains -/

variable {operand expression signed : Parser Expr} {operator? : TokenKind → Option Operator}

/-- The links behind an expression, by induction on the number of tokens. -/
theorem local_chainFrom (hoperand : Local fun ts => outcome (operand ts)) (left : Expr) :
    Local fun ts => outcome (chainFrom operator? operand left ts) := by
  intro ts
  induction hn : ts.length using Nat.strong_induction_on generalizing left ts with
  | _ n ih =>
    cases ts with
    | nil => exact (local_ok left []).congr_nil (outcome_chainFrom_nil ..)
    | cons t us =>
      cases hop : operator? t.kind with
      | none =>
        -- the links end in front of what is no operator
        refine (local_ok left (t :: us)).congr_cons fun vs => ?_
        rw [outcome_chainFrom_cons, hop]
      | some op =>
        -- an operator is taken whatever follows it, and an operand and more links stand behind it
        have htake (vs : List Token) : outcome (chainFrom operator? operand left (t :: vs)) =
            (outcome (operand vs)).andThen fun right rest =>
              outcome (chainFrom operator? operand (.binary op left right) rest) := by
          rw [outcome_chainFrom_cons, hop]
        refine LocalAt.take ((hoperand us).andThen fun right rest _ hshorter => ?_) htake
        have hlt : rest.length < n := by
          rw [← hn, List.length_cons]
          omega
        exact ih _ hlt _ rest rfl

/-- A chain is an operand and the links behind it. -/
theorem local_chain (hoperand : Local fun ts => outcome (operand ts)) :
    Local fun ts => outcome (chain operator? operand ts) := by
  have heq : (fun ts => outcome (chain operator? operand ts)) = fun ts =>
      (outcome (operand ts)).andThen fun left rest =>
        outcome (chainFrom operator? operand left rest) := funext (outcome_chain operator? operand)
  rw [heq]
  exact hoperand.andThen (local_chainFrom hoperand)

/-- Sums of products, a chain over a chain. -/
theorem local_expressionOver (hsigned : Local fun ts => outcome (signed ts)) :
    Local fun ts => outcome (expressionOver signed ts) := local_chain (local_chain hsigned)

/-! ## Arguments and primary phrases -/

/-- The arguments of a call, by induction on the number of tokens. -/
theorem local_argumentsFrom (hexpression : Local fun ts => outcome (expression ts)) :
    Local fun ts => outcome (argumentsFrom expression ts) := by
  intro ts
  have heq : (fun ts => outcome (argumentsFrom expression ts)) = fun ts =>
      (outcome (expression ts)).andThen (afterArgument expression) :=
    funext (outcome_argumentsFrom expression)
  -- behind a comma there are fewer tokens, since an argument and the comma are taken
  induction hn : ts.length using Nat.strong_induction_on generalizing ts with
  | _ n ih =>
    rw [heq]
    refine (hexpression ts).andThen fun e rest _ hshorter => ?_
    cases rest with
    | nil => exact (local_error (.missing .commaOrCloseParen) []).congr_nil rfl
    | cons t us =>
      have hlt : us.length < n := by
        rw [← hn]
        rw [List.length_cons] at hshorter
        omega
      cases hkind : t.kind with
      | comma =>
        refine ((ih _ hlt us rfl).mapValue (e :: ·)).take fun vs => ?_
        simp only [afterArgument, hkind]
      | closeParen =>
        refine (local_ok [e] us).take fun vs => ?_
        simp only [afterArgument, hkind]
      | _ =>
        refine (local_error (.missing .commaOrCloseParen) (t :: us)).congr_cons fun vs => ?_
        simp only [afterArgument, hkind]

/-- The closing parenthesis is taken; in front of anything else there are arguments. -/
theorem local_arguments (hexpression : Local fun ts => outcome (expression ts)) :
    Local fun ts => outcome (arguments expression ts) := by
  refine local_of_front .closeParen (local_ok []) (local_argumentsFrom hexpression)
    (fun t us hclose => ?_) (fun t us hother => ?_) rfl
  · simp only [arguments, hclose]
    rfl
  · simp only [arguments]

/-- The opening parenthesis makes a name a call. -/
theorem local_afterName (hexpression : Local fun ts => outcome (expression ts)) (name : String) :
    Local (afterName expression name) := by
  refine local_of_front .openParen ((local_arguments hexpression).mapValue (.call name))
    (local_ok (.var name)) (fun t us hopen => ?_) (fun t us hother => ?_) rfl
  · simp only [afterName, hopen]
  · simp only [afterName]

/-- The closing parenthesis is taken; in front of anything else it is missing. -/
theorem local_afterInner (e : Expr) : Local (afterInner e) := by
  refine local_of_front .closeParen (local_ok e) (local_error (.missing .closeParen))
    (fun t us hclose => ?_) (fun t us hother => ?_) rfl
  · simp only [afterInner, hclose]
  · simp only [afterInner]

/-- Primary phrases. The kind of the token in front tells what they are. -/
theorem local_primary (hexpression : Local fun ts => outcome (expression ts)) :
    Local fun ts => outcome (primary expression ts) := by
  intro ts
  cases ts with
  | nil => exact (local_error (.missing .expression) []).congr_nil rfl
  | cons t us =>
    -- a number, a name, a parenthesis, or what begins no primary phrase
    cases hkind : t.kind with
    | number value =>
      refine (local_ok (.number value) us).take fun vs => ?_
      rw [outcome_primary, hkind]
    | identifier name =>
      refine (local_afterName hexpression name us).take fun vs => ?_
      rw [outcome_primary, hkind]
    | openParen =>
      refine (hexpression.andThen local_afterInner us).take fun vs => ?_
      rw [outcome_primary, hkind]
    | _ =>
      refine (local_error (.missing .expression) (t :: us)).congr_cons fun vs => ?_
      rw [outcome_primary, hkind]

/-! ## Powers and signs -/

/-- The caret makes a base a power. -/
theorem local_afterBase (hsigned : Local fun ts => outcome (signed ts)) (base : Expr) :
    Local (afterBase signed base) := by
  refine local_of_front .caret (hsigned.mapValue (.binary .pow base)) (local_ok base)
    (fun t us hcaret => ?_) (fun t us hother => ?_) rfl
  · simp only [afterBase, hcaret]
  · simp only [afterBase]

/-- A power is a base and what stands behind it. -/
theorem local_power (hsigned : Local fun ts => outcome (signed ts)) :
    Local fun ts => outcome (power signed ts) := by
  have heq : (fun ts => outcome (power signed ts)) = fun ts =>
      (outcome (primary (expressionOver signed) ts)).andThen (afterBase signed) :=
    funext (outcome_power signed)
  rw [heq]
  exact (local_primary (local_expressionOver hsigned)).andThen (local_afterBase hsigned)

/-- Signed phrases, by induction on the levels allowed. Where none is allowed, the parser stops at
once. -/
theorem local_signed (levels : Nat) : Local fun ts => outcome (Parser.signed levels ts) := by
  induction levels with
  | zero => exact local_error .nestedTooDeeply
  | succ levels ih =>
    intro ts
    -- without a sign in front the phrase is a power, one level further down
    have hpower := local_power ih ts
    cases ts with
    | nil => exact hpower.congr_nil rfl
    | cons t us =>
      cases hkind : t.kind with
      | minus =>
        refine ((ih us).mapValue .negate).take fun vs => ?_
        rw [outcome_signed_succ, hkind]
      | plus =>
        refine (ih us).take fun vs => ?_
        rw [outcome_signed_succ, hkind]
      | _ =>
        refine hpower.congr_cons fun vs => ?_
        rw [outcome_signed_succ, hkind]

theorem local_expression : Local fun ts => outcome (Parser.expression ts) :=
  local_expressionOver (local_signed nestingLimit)

/-! ## Statements and programs -/

/-- Where `t` is in front, the parser takes it, whatever follows. -/
def Takes (t : Token) (f : List Token → Outcome α) : Prop :=
  ∃ g, Local g ∧ ∀ us, f (t :: us) = g us

/-- What takes the token in front and goes on takes it. -/
theorem Takes.andThen {t : Token} {f : List Token → Outcome α}
    {next : α → List Token → Outcome β} (hf : Takes t f) (hnext : ∀ a, Local (next a)) :
    Takes t fun ts => (f ts).andThen next := by
  obtain ⟨g, hg, heq⟩ := hf
  exact ⟨_, hg.andThen hnext, fun us => by simp only [heq]⟩

/-- A chain takes what its first operand takes. -/
theorem Takes.chain {t : Token} (htakes : Takes t fun ts => outcome (operand ts))
    (hoperand : Local fun ts => outcome (operand ts)) :
    Takes t fun ts => outcome (Parser.chain operator? operand ts) := by
  have hlinks (left : Expr) : Local fun ts => outcome (chainFrom operator? operand left ts) :=
    local_chainFrom hoperand left
  obtain ⟨g, hg, heq⟩ := htakes.andThen hlinks
  exact ⟨g, hg, fun us => (outcome_chain operator? operand (t :: us)).trans (heq us)⟩

end

/-- A name begins a signed phrase without a sign: what takes it is the base of a power. -/
theorem takes_signed {t : Token} {name : String} (hkind : t.kind = .identifier name)
    (levels : Nat) : Takes t fun ts => outcome (Parser.signed (levels + 1) ts) := by
  have hsigned := local_signed levels
  have hexpression := local_expressionOver hsigned
  -- a primary phrase takes the name, and looks for a parenthesis only then
  have hprimary : Takes t fun ts =>
      outcome (primary (expressionOver (Parser.signed levels)) ts) := by
    refine ⟨_, local_afterName hexpression name, fun us => ?_⟩
    simp only [outcome_primary, hkind]
  obtain ⟨g, hg, heq⟩ := hprimary.andThen (local_afterBase hsigned)
  refine ⟨g, hg, fun us => ?_⟩
  simp only [outcome_signed_succ, hkind, outcome_power]
  exact heq us

/-- A name in front of an expression is taken, whatever stands behind it. -/
theorem takes_expression {t : Token} {name : String} (hkind : t.kind = .identifier name) :
    Takes t fun ts => outcome (Parser.expression ts) :=
  -- the limit leaves room for this phrase
  have hsigned : Takes t fun ts => outcome (Parser.signed nestingLimit ts) := takes_signed hkind 255
  have hlocal := local_signed nestingLimit
  (hsigned.chain hlocal).chain (local_chain hlocal)

/-! ## Statements and programs -/

/-- No assignment begins with anything but a name. -/
theorem assignment?_eq_none_of_kind {t : Token} (h : ∀ name, t.kind ≠ .identifier name)
    (us : List Token) : assignment? (t :: us) = none := by
  cases hassignment : assignment? (t :: us) with
  | none => rfl
  | some found =>
    obtain ⟨name, rest, hshorter⟩ := found
    obtain ⟨t', u, hts, ht, -⟩ := kinds_of_assignment? hassignment
    obtain ⟨rfl, -⟩ := List.cons.inj hts
    exact absurd ht (h name)

/-- Whether an assignment comes next is told by two tokens. -/
theorem assignment?_eq_none_congr {t : Token} {us vs : List Token}
    (hnone : assignment? (t :: us) = none) (hhead : us.head? = vs.head?) :
    assignment? (t :: vs) = none := by
  cases hassignment : assignment? (t :: vs) with
  | none => rfl
  | some found =>
    obtain ⟨name, rest, hshorter⟩ := found
    obtain ⟨t', u, hts, ht, hu⟩ := kinds_of_assignment? hassignment
    obtain ⟨rfl, rfl⟩ := List.cons.inj hts
    obtain ⟨us, rfl⟩ := List.head?_eq_some_iff.1 hhead
    obtain ⟨_, hsome⟩ := assignment?_of_kinds us ht hu
    rw [hnone] at hsome
    cases hsome

/-- A name and `=` in front are taken, and the expression behind them is assigned. -/
theorem outcome_statement_of_kinds {t u : Token} {name : String} (ht : t.kind = .identifier name)
    (hu : u.kind = .assign) (us : List Token) :
    outcome (statement (t :: u :: us)) = (outcome (expression us)).mapValue (.assign name) := by
  obtain ⟨_, hsome⟩ := assignment?_of_kinds us ht hu
  exact outcome_statement_of_assignment? hsome

/-- Statements. Where an assignment comes next, both tokens that tell it are taken. Where none does,
the second token may be the one in front of which the expression ends, and then it still tells none.
-/
theorem localAt_statement (t : Token) (us : List Token) :
    LocalAt (fun ts => outcome (statement ts)) (t :: us) := by
  cases hassignment : assignment? (t :: us) with
  | some found =>
    obtain ⟨name, rest, hshorter⟩ := found
    obtain ⟨t', u, hts, ht, hu⟩ := kinds_of_assignment? hassignment
    obtain ⟨rfl, rfl⟩ := List.cons.inj hts
    -- both tokens that tell an assignment are taken
    have hvalue := (local_expression rest).mapValue (Statement.assign name)
    exact hvalue.behind [t, u] fun vs _ => outcome_statement_of_kinds ht hu vs
  | none =>
    by_cases hname : ∃ name, t.kind = .identifier name
    · -- the name is taken, so the token behind it is the same
      obtain ⟨name, hkind⟩ := hname
      obtain ⟨f, hf, htake⟩ := takes_expression hkind
      refine ((hf us).mapValue Statement.result).behind [t] fun vs hhead => ?_
      have hnone := assignment?_eq_none_congr hassignment hhead.symm
      exact (outcome_statement_of_none hnone).trans (congrArg _ (htake vs))
    -- what begins with no name is no assignment, whatever follows
    · have hvalue := (local_expression (t :: us)).mapValue Statement.result
      refine hvalue.congr_cons fun vs => ?_
      have hnone := assignment?_eq_none_of_kind (fun name hkind => hname ⟨name, hkind⟩) vs
      exact outcome_statement_of_none hnone

/-- Behind the terminators at the front there is none. -/
theorem ne_terminator_of_skip_cons {ts : List Token} {t : Token} {us : List Token}
    (h : skipTerminators ts = t :: us) : t.kind ≠ .terminator := by
  intro hkind
  have hnot := List.head?_dropWhile_not (fun t : Token => t.kind.isTerminator) ts
  rw [show ts.dropWhile (fun t => t.kind.isTerminator) = t :: us from h] at hnot
  simp [hkind, TokenKind.isTerminator] at hnot

/-- A program is read to the end of the tokens. -/
def program (ts : List Token) : Outcome (List Statement) := (statements ts).map (·, [])

/-- What is read behind a statement, to the end of the tokens too. -/
def programAfter (s : Statement) (ts : List Token) : Outcome (List Statement) :=
  (afterStatement s ts).map (·, [])

/-- A program begins with the statement behind the terminators at the front. -/
theorem program_of_skip_cons {ts : List Token} {t : Token} {us : List Token}
    (h : skipTerminators ts = t :: us) :
    program ts = (outcome (statement (t :: us))).andThen programAfter := by
  rw [program, statements_of_skip_cons h]
  cases outcome (statement (t :: us)) <;> rfl

/-- Behind a terminator a program goes on with the next statement. -/
theorem programAfter_of_terminator {s : Statement} {t : Token} (ht : t.kind = .terminator)
    (us : List Token) : programAfter s (t :: us) = (program us).mapValue (s :: ·) := by
  rw [programAfter, afterStatement, if_pos (isTerminator_iff.2 ht),
    statements_congr (skipTerminators_cons ht), program]
  cases statements us <;> rfl

/-- Programs, by induction on the number of tokens. -/
theorem local_program : Local program := by
  intro ts
  induction hn : ts.length using Nat.strong_induction_on generalizing ts with
  | _ n ih =>
    obtain ⟨before, count, hbefore, hkinds⟩ := exists_skipped ts
    cases hskip : skipTerminators ts with
    | nil =>
      -- nothing but terminators, so all tokens are taken
      refine localAt_of_left_eq_nil ?_
      rw [program, statements_of_skip_nil hskip]
      rfl
    | cons t us =>
      rw [hskip] at hbefore
      have hlength : (t :: us).length ≤ n := by
        rw [← hn, ← hbefore, List.length_append]
        omega
      have hstatement : LocalAt (fun ts => (outcome (statement ts)).andThen programAfter)
          (t :: us) := by
        refine (localAt_statement t us).andThen fun s rest _ hshorter => ?_
        -- behind a statement the program ends, goes on behind a terminator, or stops
        cases rest with
        | nil => exact (local_ok [s] []).congr_nil rfl
        | cons u rest =>
          have hlt : rest.length < n := by
            rw [List.length_cons] at hshorter
            omega
          by_cases hterminator : u.kind = .terminator
          · refine ((ih _ hlt rest rfl).mapValue (s :: ·)).take ?_
            exact programAfter_of_terminator hterminator
          · refine (local_error (.missing .operatorOrEnd) (u :: rest)).congr_cons fun vs => ?_
            rw [programAfter, afterStatement,
              if_neg fun hterm => hterminator (isTerminator_iff.1 hterm)]
            rfl
      -- terminators in front are skipped, whatever the statement behind them is
      rw [← hbefore]
      refine hstatement.behind before fun vs hhead => ?_
      obtain ⟨vs, rfl⟩ := List.head?_eq_some_iff.1 hhead
      refine program_of_skip_cons ?_
      rw [skipTerminators_append hkinds]
      exact skipTerminators_of_ne (ne_terminator_of_skip_cons hskip)

/-- Where a program stops, it does so whatever stands behind the token in front. -/
theorem exists_stop_of_statements {ts : List Token} {stop : Stop}
    (h : statements ts = .error stop) :
    ∃ us, us ++ stop.ahead = ts ∧ ∀ more, more.head? = stop.ahead.head? →
      statements (us ++ more) = .error ⟨stop.obstacle, more⟩ := by
  -- the parser of programs looks at one token ahead only, and statements are what it reads
  have hprogram : program ts = .error stop := by
    rw [program, h]
    rfl
  obtain ⟨us, hus, hmore⟩ := local_program ts
  rw [hprogram] at hus hmore
  refine ⟨us, hus, fun more hhead => ?_⟩
  have hstop := hmore more hhead
  rw [program] at hstop
  cases hstatements : statements (us ++ more) with
  | error stop' =>
    rw [hstatements] at hstop
    cases hstop
    rfl
  | ok ss =>
    rw [hstatements] at hstop
    cases hstop

end Parser

end FormulaMachine
